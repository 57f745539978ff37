/-
**The journal is a complete audit trail of a registry.**

What the registries record is written after the fact, under conditions of its own: whether a path
was taken, by whom, and whether the entity was registered.  Whoever reads only the records of one
registry, from the time on at which it held nothing, can still tell the paths under which it holds
entities, in their order, and never comes to a record that cannot be.  This holds after every call,
one that fails included: a manifest that is refused half-way leaves the records of the half that was
loaded.

Main definitions:

* `Event.replay`: the paths after an event, if the event can happen with the paths before it;
* `Notice.isOf`, `replay`: the records of a registry, and what they tell;
* `Catalog.Run`: calls in any number, from the time on at which a registry held nothing;
* `Catalog.Accounted`: what was recorded since some time tells the paths of a registry.

Main results:

* `Catalog.Accounted.enter`, `Catalog.Accounted.delete`, `Catalog.Accounted.rescope`: each write to
  a registry is told by its record;
* `Catalog.audit_trail`: **the records of a run tell the paths, in their order, at every point**.
-/

import DocCatalog.Proofs.Registry.Bookkeeping

set_option autoImplicit false

namespace DocCatalog

/-! ### Replaying records -/

/-- A list of paths with a path in it: where it is if it is there, and last otherwise. -/
def withPath (paths : List String) (path : String) : List String :=
  if path ∈ paths then paths else paths ++ [path]

/-- The paths after an event, if the event can happen with the paths before it.  That a manifest was
loaded says nothing about paths. -/
def Event.replay (paths : List String) : Event → Option (List String)
  | registered path => some (withPath paths path)
  | replaced _ path => if path ∈ paths then some paths else none
  | deleted path => if path ∈ paths then some (paths.erase path) else none
  | rekeyed old new => if old ∈ paths then some (withPath (paths.erase old) new) else none
  | loaded _ => some paths

/-- Whether a record is about a registry and recorded by the registries' logger.  Registries are
told apart by their number, which their settings only go along with. -/
def Notice.isOf (r : Registry) (n : Notice) : Bool :=
  n.registry.index = r.index && n.event.logger = "docobjects.objects.registry"

theorem Notice.isOf_of_ne {r : Registry} {n : Notice} (h : n.registry.index ≠ r.index) :
    n.isOf r = false := by simp [isOf, h]

/-- What the records of a registry tell about its paths, if they can be. -/
def replay (r : Registry) (notices : List Notice) (paths : List String) : Option (List String) :=
  ((notices.filter (Notice.isOf r)).map Notice.event).foldlM Event.replay paths

theorem replay_append (r : Registry) (notices more : List Notice) (paths : List String) :
    replay r (notices ++ more) paths = (replay r notices paths).bind (replay r more) := by
  simp only [replay, List.filter_append, List.map_append, List.foldlM_append]
  rfl

theorem replay_single_of {r : Registry} {n : Notice} (h : n.isOf r = true) (paths : List String) :
    replay r [n] paths = n.event.replay paths := by
  simp [replay, h]

theorem replay_single_of_not {r : Registry} {n : Notice} (h : n.isOf r = false)
    (paths : List String) : replay r [n] paths = some paths := by
  simp [replay, h]

theorem keys_insert_eq_withPath (t : OrderedTable String EntityId) (path : String) (e : EntityId) :
    (t.insert path e).keys = withPath t.keys path := OrderedTable.keys_insert t path e

theorem keys_erase_eq_erase (t : OrderedTable String EntityId) (path : String) :
    (t.erase path).keys = t.keys.erase path := by
  have hnodup : t.keys.Nodup := t.nodup
  rw [OrderedTable.keys_erase, hnodup.erase_eq_filter]
  exact List.filter_congr fun p _ => by rw [Bool.eq_iff_iff]; simp

theorem mem_keys_of_get? {t : OrderedTable String EntityId} {path : String} {e : EntityId}
    (h : t.get? path = some e) : path ∈ t.keys := by
  by_contra hn
  rw [(t.get?_eq_none_iff path).2 hn] at h
  cases h

namespace Catalog

variable {c c' : Catalog} {r r' : Registry} {before : List Notice} {e n : EntityId}

/-! ### Writes and their records -/

theorem closeRekey_eq (c : Catalog) {k : Rekeying} (h : k.wasRegistered = true) :
    c.closeRekey k = (c.put k.registry k.entity).note k.registry
      (.rekeyed k.oldPath (c.path k.entity)) := by
  rw [closeRekey, if_pos h]
  rfl

theorem closeRekey_of_not (c : Catalog) {k : Rekeying} (h : ¬ k.wasRegistered = true) :
    c.closeRekey k = c := by
  rw [closeRekey, if_neg h]

theorem stock_note (c : Catalog) (r : Registry) (event : Event) :
    (c.note r event).stock = c.stock := rfl

theorem journal_note (c : Catalog) (r : Registry) (event : Event) :
    (c.note r event).journal = c.journal ++ [⟨r, event⟩] := rfl

theorem journal_put (c : Catalog) (r : Registry) (e : EntityId) :
    (c.put r e).journal = c.journal := rfl

theorem entries_note (c : Catalog) (r r' : Registry) (event : Event) :
    (c.note r event).entries r' = c.entries r' := rfl

/-- The paths of a registry are told by what was recorded about it since some time. -/
structure Accounted (r : Registry) (before : List Notice) (c : Catalog) : Prop where
  lt : r.index < c.stock.size
  told : ∃ new, c.journal = before ++ new ∧ replay r new [] = some (c.paths r)

namespace Accounted

/-- What touches neither a registry nor the journal. -/
theorem of_same (h : Accounted r before c) (hs : c'.stock = c.stock)
    (hj : c'.journal = c.journal) : Accounted r before c' := by
  obtain ⟨new, hnew, htold⟩ := h.told
  exact ⟨hs ▸ h.lt, new, hj.trans hnew, by rw [paths, entries_congr hs]; exact htold⟩

/-- One more record, which tells what was written along with it. -/
theorem recorded (h : Accounted r before c) {notice : Notice} (hs : c'.stock.size = c.stock.size)
    (hj : c'.journal = c.journal ++ [notice])
    (htells : replay r [notice] (c.paths r) = some (c'.paths r)) : Accounted r before c' := by
  obtain ⟨new, hnew, htold⟩ := h.told
  refine ⟨hs ▸ h.lt, new ++ [notice], by rw [hj, hnew, List.append_assoc], ?_⟩
  rw [replay_append, htold]
  exact htells

/-- One more record of a write to a registry, which tells how the paths of that registry change.
Nothing is asked where the registry is another. -/
theorem written (h : Accounted r before c) {event : Event}
    (hs : c'.stock.size = c.stock.size) (hj : c'.journal = c.journal ++ [⟨r', event⟩])
    (hl : event.logger = "docobjects.objects.registry")
    (hsame : r'.index = r.index → event.replay (c.paths r) = some (c'.paths r))
    (hother : r'.index ≠ r.index → c'.entries r = c.entries r) : Accounted r before c' := by
  by_cases hi : r'.index = r.index
  · exact h.recorded hs hj (by rw [replay_single_of (by simp [Notice.isOf, hi, hl]), hsame hi])
  · refine h.recorded hs hj ?_
    rw [replay_single_of_not (Notice.isOf_of_ne hi), paths, paths, hother hi]

theorem loaded (h : Accounted r before c) (r' : Registry) (count : Nat) :
    Accounted r before (c.note r' (.loaded count)) :=
  h.recorded rfl rfl (replay_single_of_not (by simp [Notice.isOf, Event.logger]) _)

/-- **Who is registered is told by the record**, whoever was there. -/
theorem enter (h : Accounted r before c) (r' : Registry) (e : EntityId) :
    Accounted r before (c.enter r' e) := by
  have hstock : (c.enter r' e).stock = (c.put r' e).stock := stock_adoptByOwner _ e
  have hjournal : ((c.put r' e).adoptByOwner e).journal = c.journal := by
    unfold Catalog.adoptByOwner
    split <;> rfl
  have hpaths : r'.index = r.index → (c.enter r' e).paths r = withPath (c.paths r) (c.path e) := by
    intro hi
    rw [paths, entries_congr hstock, put, entries_updateEntries c r _ (hi ▸ h.lt), if_pos hi,
      keys_insert_eq_withPath, c.entries_eq_of_index hi, paths]
  -- the path was vacant or the entity's own, or it was another's
  obtain ⟨event, hevent, hl, hreplay⟩ : ∃ event,
      (c.enter r' e).journal = ((c.put r' e).adoptByOwner e).journal ++ [⟨r', event⟩] ∧
      event.logger = "docobjects.objects.registry" ∧
      (r'.index = r.index →
        event.replay (c.paths r) = some (withPath (c.paths r) (c.path e))) := by
    refine ⟨_, rfl, ?_, fun hi => ?_⟩
    · split
      · split <;> rfl
      · rfl
    · split
      · next previous hprevious =>
          split
          · rfl
          · rw [c.entries_eq_of_index hi] at hprevious
            have hmem : c.path e ∈ c.paths r := mem_keys_of_get? hprevious
            rw [Event.replay, withPath, if_pos hmem, if_pos hmem]
      · rfl
  refine h.written (by rw [hstock]; simp [put]) (hevent.trans (by rw [hjournal])) hl
    (fun hi => by rw [hreplay hi, hpaths hi]) fun hi => ?_
  rw [entries_congr hstock]
  exact c.entries_updateEntries_of_ne _ hi

/-- **Who is deleted is told by the record**, and there is none where nobody is. -/
theorem delete (h : Accounted r before c) (r' : Registry) (e : EntityId) :
    Accounted r before (c.delete r' e) := by
  by_cases hreg : c.isRegistered r' e = true
  · have hjournal : (c.delete r' e).journal = c.journal ++ [⟨r', .deleted (c.path e)⟩] := by
      rw [delete_eq hreg]
      simp only [note, dismissByOwner, dismiss]
      split
      · split <;> rfl
      · rfl
    refine h.written (by rw [stock_delete hreg]; simp) hjournal rfl (fun hi => ?_) fun hi => ?_
    · have hmem : c.path e ∈ c.paths r := by
        rw [paths, ← c.entries_eq_of_index hi]
        exact mem_keys_of_get? (by simpa [isRegistered] using hreg)
      rw [Event.replay, if_pos hmem, paths, paths, entries_congr (stock_delete hreg),
        entries_updateEntries c r _ (hi ▸ h.lt), if_pos hi, keys_erase_eq_erase,
        c.entries_eq_of_index hi]
    · rw [entries_congr (stock_delete hreg)]
      exact c.entries_updateEntries_of_ne _ hi
  · rw [Catalog.delete, if_neg hreg]
    exact h

theorem journal_moveInOwner (c : Catalog) (e : EntityId) (old : String × Option Scope) :
    (c.moveInOwner e old).journal = c.journal := by
  unfold moveInOwner moveMember
  split
  · split <;> rfl
  · rfl

/-- **Who goes to another path is told by the record**, and there is none of a method that is not
registered. -/
theorem rescope (h : Accounted r before c) (e : EntityId) (s : Scope) :
    Accounted r before (c.rescope e s) := by
  have hstock : (c.rescoped e s).stock = (c.openRekey (c.entity e).home e).2.stock := by
    rw [rescoped, stock_moveInOwner, stock_writeScope]
  have hjournal : (c.rescoped e s).journal = c.journal := by
    rw [rescoped, journal_moveInOwner]
    simp only [writeScope, update, openRekey]
    split <;> rfl
  by_cases hreg : c.isRegistered (c.entity e).home e = true
  · have hbegun : (c.openRekey (c.entity e).home e).2 =
        c.updateEntries (c.entity e).home fun t => t.erase (c.path e) := by
      simp [openRekey, hreg]
    have hsize : (c.rescoped e s).stock.size = c.stock.size := by rw [hstock, hbegun]; simp
    have hended : c.rescope e s = ((c.rescoped e s).put (c.entity e).home e).note
        (c.entity e).home (.rekeyed (c.path e) ((c.rescoped e s).path e)) := by
      rw [rescope_eq, closeRekey_eq _ hreg]
      rfl
    have hrecord : (c.rescope e s).journal = c.journal ++
        [⟨(c.entity e).home, .rekeyed (c.path e) ((c.rescoped e s).path e)⟩] := by
      rw [hended, journal_note, journal_put, hjournal]
    refine h.written ?_ hrecord rfl (fun hi => ?_) fun hi => ?_
    · rw [hended, stock_note, put, stock_size_updateEntries, hsize]
    · have hmem : c.path e ∈ c.paths r := by
        rw [paths, ← c.entries_eq_of_index hi]
        exact mem_keys_of_get? (by simpa [isRegistered] using hreg)
      have hlt : (c.entity e).home.index < c.stock.size := hi ▸ h.lt
      rw [hended, Event.replay, if_pos hmem, paths, paths, entries_note, put,
        entries_updateEntries _ r _ (hsize ▸ hlt), if_pos hi, keys_insert_eq_withPath,
        entries_congr hstock, hbegun, entries_updateEntries c _ _ hlt, if_pos rfl,
        keys_erase_eq_erase, c.entries_eq_of_index hi]
    · rw [hended, entries_note, put, entries_updateEntries_of_ne _ _ hi, entries_congr hstock,
        hbegun, entries_updateEntries_of_ne _ _ hi]
  · have hended : c.rescope e s = c.rescoped e s := by
      rw [rescope_eq, closeRekey_of_not _ (by simpa [openRekey] using hreg)]
    have hbegun : (c.openRekey (c.entity e).home e).2 = c := by simp [openRekey, hreg]
    exact h.of_same (by rw [hended, hstock, hbegun]) (by rw [hended, hjournal])

/-- A registry that is opened is another one. -/
theorem openRegistry (h : Accounted r before c) (config : Config) :
    Accounted r before (c.openRegistry config).2 := by
  obtain ⟨new, hnew, htold⟩ := h.told
  refine ⟨?_, new, hnew, ?_⟩
  · have hlt := h.lt
    simp only [Catalog.openRegistry, add, Array.size_push]
    omega
  · rw [paths, entries_openRegistry, if_neg (Nat.ne_of_lt h.lt)]
    exact htold

/-- Another registry that is begun again. -/
theorem clear (h : Accounted r before c) (hi : r'.index ≠ r.index) :
    Accounted r before (c.clear r') := by
  obtain ⟨new, hnew, htold⟩ := h.told
  refine ⟨by rw [stock_size_clear]; exact h.lt, new, hnew, ?_⟩
  rw [paths, entries, holdings_clear_of_ne c hi]
  exact htold

end Accounted

end Catalog

/-! ### Runs -/

/-- Whether a registry goes on where it was: whatever is done but to begin it again. -/
def Operation.Continues (r : Registry) : Operation → Prop
  | clear r' => r'.index ≠ r.index
  | _ => True

namespace Catalog

variable {c : Catalog} {r : Registry} {before : List Notice}

/-- Calls in any number, each of which succeeds or fails, from the time on at which a registry held
nothing, because it was opened, by itself or for a manifest, or because it was begun again. -/
inductive Run (r : Registry) : List Notice → Catalog → Prop where
  | opened (c : Catalog) {config : Config} (hr : (c.openRegistry config).1 = r) :
      Run r c.journal (c.openRegistry config).2
  | loaded (c : Catalog) {data : Value} (hr : (Manifest.loadFresh data c).1 = .ok r) :
      Run r c.journal (Manifest.loadFresh data c).2
  | cleared {c : Catalog} (hr : r.index < c.stock.size) : Run r c.journal (c.clear r)
  | call {before : List Notice} {c : Catalog} (h : Run r before c) (op : Operation)
      (hop : op.Continues r) : Run r before (op.action c).2

/-- Whatever is done to a catalog is accounted for, whether it succeeds or fails. -/
theorem Accounted.booked (r : Registry) (before : List Notice) :
    Booked (Operation.Continues r) (Accounted r before) where
  same h hs hj := h.of_same hs hj
  enter r' e h := h.enter r' e
  loaded r' count h := h.loaded r' count
  openRegistry config h := h.openRegistry config
  clear hop h := h.clear hop
  delete _ h := h.delete _ _
  rescope s _ h := h.rescope _ s

/-- A registry that holds nothing has nothing to tell. -/
theorem accounted_of_empty (hlt : r.index < c.stock.size) (he : c.entries r = ∅) :
    Accounted r c.journal c := ⟨hlt, [], by simp, by rw [paths, he]; rfl⟩

theorem accounted_openRegistry (c : Catalog) (config : Config) :
    Accounted (c.openRegistry config).1 c.journal (c.openRegistry config).2 := by
  refine accounted_of_empty (opened_openRegistry config).lt ?_
  rw [entries_openRegistry]
  exact if_pos rfl

/-- A registry that is opened for a manifest is accounted for from its opening on. -/
theorem ends_loadFresh (c : Catalog) (data : Value) :
    (Manifest.loadFresh data).Ends c (fun r c' => Accounted r c.journal c') fun _ _ => True := by
  refine .bind (Q := fun _ c' => c' = c) (.lift (fun _ _ => rfl) fun _ _ => trivial) ?_
  rintro fields c' rfl
  refine .get (.bind (Q := fun _ d => d = (c'.openRegistry default).2) (.set rfl) ?_)
  rintro _ _ rfl
  have hopened := accounted_openRegistry c' default
  refine .bind ((((Accounted.booked _ _).walk _).ends_loadParts fields hopened).mono
    (fun _ _ h => h) fun _ _ _ => trivial) fun _ d hd => .pure hd

theorem Run.accounted (h : Run r before c) : Accounted r before c := by
  induction h with
  | opened c hr => exact hr ▸ accounted_openRegistry c _
  | @loaded c data hr =>
      exact (Action.ends_iff.1 (ends_loadFresh c data)).1 r _ (Prod.ext hr rfl)
  | @cleared c hr =>
      have hentries : (c.clear r).entries r = ∅ := by rw [entries_clear r hr, if_pos rfl]
      exact accounted_of_empty (c := c.clear r)
        (by rw [stock_size_clear]; exact hr) hentries
  | call h op hop ih => exact ((Accounted.booked _ _).keeps hop _ ih).run

/-- **The records of a run tell the paths of the registry, in their order, at every point of it.**
What the registry's logger recorded about the registry since it held nothing, replayed on an empty
list, never meets a path that should be there and is not, and ends with the paths under which
entities are held. -/
theorem audit_trail (h : Run r before c) :
    ∃ new, c.journal = before ++ new ∧ replay r new [] = some (c.paths r) :=
  h.accounted.told

/-- A manifest that is refused half-way, a method that goes to the path of another, that other which
comes back, and its deletion. -/
theorem audit_trail_refused :
    let r : Registry := ⟨0, {}⟩
    let entry (scope : String) : Value := .dict [("namespace", .text "Shop"),
      ("name", .text "total"), ("scope", .text scope)]
    let data : Value := .dict [("methods", .list [entry "class", entry "instance"]),
      ("aliases", .list [.dict [("method", .text "Shop#sum"), ("aliases", .text "total")]])]
    let c₁ : Catalog := (({} : Catalog).openRegistry {}).2
    let c₂ := ((Operation.load r data).action c₁).2
    let c₃ := ((Operation.setScope ⟨2⟩ (.text "instance")).action c₂).2
    let c₄ := ((Operation.register r ⟨3⟩).action c₃).2
    let c₅ := ((Operation.delete r ⟨3⟩).action c₄).2
    Run r [] c₅ ∧ c₂.paths r = ["Shop", "Shop.total", "Shop#total"] ∧ c₅.paths r = ["Shop"] ∧
      c₅.journal.map (fun n => n.event.message) =
        ["Registered Shop", "Registered Shop.total", "Registered Shop#total",
          "Re-keyed Shop.total -> Shop#total", "Replaced <MethodEntity Shop#total> at Shop#total",
          "Deleted Shop#total"] ∧
      ∃ new, c₅.journal = [] ++ new ∧ replay r new [] = some (c₅.paths r) := by
  intro r entry data c₁ c₂ c₃ c₄ c₅
  have h₁ : Run r [] c₁ := .opened {} rfl
  have h₂ : Run r [] c₂ := h₁.call (.load r data) trivial
  have h₃ : Run r [] c₃ := h₂.call (.setScope ⟨2⟩ (.text "instance")) trivial
  have h₄ : Run r [] c₄ := h₃.call (.register r ⟨3⟩) trivial
  have h₅ : Run r [] c₅ := h₄.call (.delete r ⟨3⟩) trivial
  exact ⟨h₅, by decide +kernel, by decide +kernel, by decide +kernel, audit_trail h₅⟩

end Catalog

end DocCatalog
