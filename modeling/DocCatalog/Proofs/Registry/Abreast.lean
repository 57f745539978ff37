/-
**Every operation on two sides.**

Where two registries hold the same up to the correspondence of their entities, not only manifests
are loaded alike: whatever is done to the one and names entities of it, done to the other with their
twins, keeps the correspondence, and so do the two ends of a change of path.

Main definitions:

* `Operation.rename`: an operation with other references in the place of its own;
* `Pairing.Rekeyings`: two changes of path that go on and correspond.

Main results:

* `Pairing.Mirrors.delete`, `Pairing.Mirrors.rescope`, `Pairing.Mirrors.clear`: the same write on
  both sides;
* `Pairing.Mirrors.operation`: **an operation that names twins is done alike on both sides**.
-/

import DocCatalog.Proofs.Manifest.SideBySide
import DocCatalog.Proofs.Registry.Confinement

set_option autoImplicit false

namespace DocCatalog

open Catalog

/-! ### Other references -/

/-- What a new entity is given, with another reference to its owner. -/
def Catalog.Origin.rename (f : EntityId → EntityId) (o : Origin) : Origin :=
  { o with owner? := o.owner?.map f }

namespace Operation

/-- An operation with other references in the place of its own. -/
def rename (f : EntityId → EntityId) : Operation → Operation
  | makeEntry o => makeEntry (o.rename f)
  | makeSpace o => makeSpace (o.rename f)
  | makeMethod o scope => makeMethod (o.rename f) scope
  | register r e => register r (f e)
  | delete r e => delete r (f e)
  | dismiss n e => dismiss (f n) (f e)
  | setScope e scope => setScope (f e) scope
  | setVisibility e visibility => setVisibility (f e) visibility
  | setParameters e parameters => setParameters (f e) parameters
  | setExplicit e explicit => setExplicit (f e) explicit
  | setDocstring e docstring => setDocstring (f e) docstring
  | addFile e file line => addFile (f e) file line
  | addAttribute n scope name read write =>
      addAttribute (f n) scope name (read.map f) (write.map f)
  | dropAttributes n s => dropAttributes (f n) s
  | addAlias n e? name => addAlias (f n) (e?.map f) name
  | op => op

/-- Whether an operation leaves it at the registries that there are. -/
def opensNone : Operation → Bool
  | openRegistry _ => false
  | loadFresh _ => false
  | _ => true

/-- The owner that an operation makes an entity below. -/
def owner? : Operation → Option EntityId
  | makeEntry o => o.owner?
  | makeSpace o => o.owner?
  | makeMethod o _ => o.owner?
  | _ => none

theorem references_rename (f : EntityId → EntityId) (op : Operation) :
    (op.rename f).references = op.references.map f := by
  cases op with
  | makeEntry o => cases ho : o.owner? <;> simp [rename, references, Origin.rename, ho]
  | makeSpace o => cases ho : o.owner? <;> simp [rename, references, Origin.rename, ho]
  | makeMethod o scope => cases ho : o.owner? <;> simp [rename, references, Origin.rename, ho]
  | addAttribute n scope name read write =>
      cases read <;> cases write <;> simp [rename, references]
  | addAlias n e? name => cases e? <;> simp [rename, references]
  | _ => rfl

theorem registries_rename (f : EntityId → EntityId) (op : Operation) :
    (op.rename f).registries = op.registries := by
  cases op <;> rfl

theorem mem_references_of_owner? {op : Operation} {n : EntityId} (h : n ∈ op.owner?) :
    n ∈ op.references := by
  cases op with
  | makeEntry o => exact Option.mem_toList.2 h
  | makeSpace o => exact Option.mem_toList.2 h
  | makeMethod o scope => exact Option.mem_toList.2 h
  | _ => cases h

theorem owner?_rename (f : EntityId → EntityId) (op : Operation) :
    (op.rename f).owner? = op.owner?.map f := by
  cases op <;> rfl

theorem opensNone_rename (f : EntityId → EntityId) (op : Operation) :
    (op.rename f).opensNone = op.opensNone := by
  cases op <;> rfl

end Operation

namespace Pairing

variable {ρ : Pairing} {c c' : Catalog} {e e' n n' : EntityId}

/-- Two changes of path that go on: the entity was taken away on both sides, or on neither. -/
structure Rekeyings (ρ : Pairing) (c : Catalog) (k k' : Rekeying) : Prop where
  registry : k.registry = ρ.left
  registry' : k'.registry = ρ.right
  oldPath : k.oldPath = k'.oldPath
  wasRegistered : k.wasRegistered = k'.wasRegistered
  entity : k.wasRegistered = true → ρ.Known k.entity k'.entity c

namespace Mirrors

/-! ### Entries and members -/

theorem eq_some_iff {e? e?' : Option EntityId} (h : Option.Rel ρ.twins e? e?')
    (he : ρ.twins e e') : e? = some e ↔ e?' = some e' :=
  Relator.rel_eq (biUnique_option ρ.biUnique) h (.some he)

theorem isRegistered_eq (h : ρ.Mirrors c c') (he : ρ.twins e e') :
    c.isRegistered ρ.left e = c'.isRegistered ρ.right e' := by
  rw [isRegistered, isRegistered, decide_eq_decide, h.path_eq he]
  exact eq_some_iff (h.entries.get? biUnique_eq rfl) he

theorem dismiss (h : ρ.Mirrors c c') (hn : ρ.twins n n') (he : ρ.twins e e') :
    ρ.Mirrors (c.dismiss n e) (c'.dismiss n' e') := by
  have hkey := (h.entity he).memberKey_eq
  have hiff := eq_some_iff ((h.tables hn).members.get? biUnique_eq hkey) he
  simp only [Catalog.dismiss]
  by_cases hm : (c.tables n).members.get? (c.entity e).memberKey = some e
  · rw [if_pos hm, if_pos (hiff.1 hm), hkey]
    exact h.updateTables hn fun _ _ ht => ht.eraseMember _
  · rw [if_neg hm, if_neg fun hm' => hm (hiff.2 hm')]
    exact h

theorem dismissByOwner (h : ρ.Mirrors c c') (he : ρ.twins e e') :
    ρ.Mirrors (c.dismissByOwner e) (c'.dismissByOwner e') := by
  have ho := (h.entity he).owner?
  unfold Catalog.dismissByOwner
  generalize (c.entity e).owner? = n?, (c'.entity e').owner? = n?' at ho
  cases ho with
  | none => exact h
  | some hn => exact h.dismiss hn he

theorem delete (h : ρ.Mirrors c c') (he : ρ.twins e e') :
    ρ.Mirrors (c.delete ρ.left e) (c'.delete ρ.right e') := by
  simp only [Catalog.delete, h.isRegistered_eq he, h.path_eq he]
  split
  · exact ((h.take _).dismissByOwner he).note _ _ _ _
  · exact h

/-- A registry is begun again on both sides. -/
theorem clear (h : ρ.Mirrors c c') : ρ.Mirrors (c.clear ρ.left) (c'.clear ρ.right) := by
  have hadd : ρ.Mirrors (c.add (newRoot ρ.left)).2 (c'.add (newRoot ρ.right)).2 :=
    h.add ⟨rfl, ρ.config_eq, .nil, rfl, .some .empty⟩ rfl rfl
  have hleft := c.root_clear ρ.left h.lt
  have hright := c'.root_clear ρ.right h.lt'
  rw [if_pos rfl] at hleft hright
  refine ⟨?_, ?_, hadd.knows, hadd.next, hadd.entity, hadd.home, ?_, ?_, ?_⟩
  · simpa [Catalog.clear, updateHoldings, Catalog.add] using h.lt
  · simpa [Catalog.clear, updateHoldings, Catalog.add] using h.lt'
  · rw [entries_clear _ h.lt, entries_clear _ h.lt', if_pos rfl, if_pos rfl]
    exact .empty
  · rw [hleft, hright]
    exact h.next 0
  · rw [hleft]
    exact knows_push (x := newRoot ρ.left) rfl

/-! ### Changes of path -/

theorem openRekey (h : ρ.Mirrors c c') (he : ρ.twins e e') :
    ρ.Mirrors (c.openRekey ρ.left e).2 (c'.openRekey ρ.right e').2 := by
  simp only [Catalog.openRekey, h.isRegistered_eq he, h.path_eq he]
  split
  · exact h.take _
  · exact h

theorem rekeyings (h : ρ.Mirrors c c') (he : ρ.Known e e' c) :
    ρ.Rekeyings c (c.openRekey ρ.left e).1 (c'.openRekey ρ.right e').1 :=
  ⟨rfl, rfl, h.path_eq he.1, h.isRegistered_eq he.1, fun _ => he⟩

theorem closeRekey (h : ρ.Mirrors c c') {k k' : Rekeying} (hk : ρ.Rekeyings c k k') :
    ρ.Mirrors (c.closeRekey k) (c'.closeRekey k') := by
  by_cases hwas : k.wasRegistered = true
  · rw [closeRekey_eq c hwas, closeRekey_eq c' (hk.wasRegistered ▸ hwas), hk.registry, hk.registry']
    exact (h.put (hk.entity hwas).1).note _ _ _ _
  · rw [closeRekey_of_not c hwas, closeRekey_of_not c' (hk.wasRegistered ▸ hwas)]
    exact h

theorem moveInOwner (h : ρ.Mirrors c c') (he : ρ.twins e e') (old : String × Option Scope) :
    ρ.Mirrors (c.moveInOwner e old) (c'.moveInOwner e' old) := by
  have ho := (h.entity he).owner?
  unfold Catalog.moveInOwner Catalog.moveMember
  generalize (c.entity e).owner? = n?, (c'.entity e').owner? = n?' at ho
  cases ho with
  | none => exact h
  | @some n n' hn =>
      have hiff := eq_some_iff ((h.tables hn).members.get? biUnique_eq (rfl : old = old)) he
      by_cases hm : (c.tables n).members.get? old = some e
      · simp only [if_pos hm, if_pos (hiff.1 hm), (h.entity he).memberKey_eq]
        exact h.updateTables hn fun _ _ ht => (ht.eraseMember old).insertMember he _
      · simp only [if_neg hm, if_neg fun hm' => hm (hiff.2 hm')]
        exact h

theorem rescope (h : ρ.Mirrors c c') (he : ρ.Known e e' c) (s : Scope) :
    ρ.Mirrors (c.rescope e s) (c'.rescope e' s) := by
  obtain ⟨hhome, hhome'⟩ := h.home he.1 he.2
  have hwritten : ρ.Mirrors ((c.openRekey ρ.left e).2.writeScope e s)
      ((c'.openRekey ρ.right e').2.writeScope e' s) :=
    (h.openRekey he.1).update he.1 (fun _ _ hx => hx.updateMethod _)
      (fun x => x.home_updateMethod _) fun x => x.home_updateMethod _
  rw [rescope_eq, rescope_eq, rescoped, rescoped, hhome, hhome', (h.entity he.1).memberKey_eq]
  have hk := h.rekeyings he
  refine (hwritten.moveInOwner he.1 _).closeRekey ⟨hk.registry, hk.registry', hk.oldPath,
    hk.wasRegistered, fun hwas => (hk.entity hwas).mono (Nat.le_of_eq ?_)⟩
  simp [size_openRekey]

/-! ### Operations -/

theorem setScope (h : ρ.Mirrors c c') (he : ρ.Known e e' c) (v : Value) :
    ρ.InStep (Catalog.setScope e v) (Catalog.setScope e' v) c c' fun _ _ _ => True := by
  unfold Catalog.setScope
  split
  · exact .throw h _
  · refine .get ?_
    rw [(h.entity he.1).scope?_eq]
    split
    · exact .pure h trivial
    · exact .set (Nat.le_of_eq (c.size_rescope e _).symm) (h.rescope he _) trivial

/-- The same is given to a new entity on both sides, with the twin of its owner. -/
theorem origins (h : ρ.left = ρ.right) {o : Origin} {f f' : EntityId → EntityId}
    (hrefs : ∀ d ∈ o.owner?.toList, ρ.Known (f d) (f' d) c)
    (hregs : ∀ r ∈ o.registry?.toList, r = ρ.left) :
    ρ.Origins (o.rename f) (o.rename f') c where
  owner := by
    unfold Origin.rename
    cases ho : o.owner? with
    | none => exact .none
    | some n => exact .some (hrefs n (by simp [ho]))
  name := rfl
  registry := by
    unfold Origin.rename
    cases hr : o.registry? with
    | none => exact .none
    | some r =>
        have hr := hregs r (by simp [hr])
        exact .some ⟨hr, hr.trans h⟩
  docstring := rfl

/-- References that are renamed on both sides. -/
theorem rel_rename {f f' : EntityId → EntityId} {e? : Option EntityId}
    (h : ∀ d, e? = some d → ρ.twins (f d) (f' d)) :
    Option.Rel ρ.twins (e?.map f) (e?.map f') := by
  cases e? with
  | none => exact .none
  | some d => exact .some (h d rfl)

/-- **An operation on a registry that names twins is done alike on both sides**: it fails on both or
on neither, and keeps the correspondence. -/
theorem operation (h : ρ.Mirrors c c') (hsame : ρ.left = ρ.right) {op : Operation}
    (hop : op.opensNone = true) {f f' : EntityId → EntityId}
    (hrefs : ∀ d ∈ op.references, ρ.Known (f d) (f' d) c)
    (hregs : ∀ r ∈ op.registries, r = ρ.left) :
    ρ.InStep (op.rename f).action (op.rename f').action c c' fun _ _ _ => True := by
  have hdrop : ∀ {α β : Type} {a : Action α} {a' : Action β} {Q : α → β → Catalog → Prop},
      ρ.InStep a a' c c' Q →
      ρ.InStep (do let _ ← a : Action Unit) (do let _ ← a' : Action Unit) c c'
        fun _ _ _ => True :=
    fun ha => ha.bind fun _ _ _ _ hd _ _ => .pure hd trivial
  -- the registry that the operation is addressed to is the same on both sides
  have hboth : ∀ r ∈ op.registries, r = ρ.left ∧ r = ρ.right := fun r hr =>
    ⟨hregs r hr, (hregs r hr).trans hsame⟩
  cases op with
  | openRegistry config => cases hop
  | clear r =>
      obtain ⟨hl, hr⟩ := hboth r (by simp [Operation.registries])
      refine .change (by simp [Catalog.clear, updateHoldings, Catalog.add]) ?_ trivial
      have hclear := h.clear
      rwa [← hl, ← hr] at hclear
  | makeEntry o =>
      refine hdrop (h.make (origins hsame hrefs hregs) ?_ .none)
      rfl
  | makeSpace o => exact hdrop (h.makeSpace (origins hsame hrefs hregs))
  | makeMethod o scope => exact hdrop (h.makeMethod (origins hsame hrefs hregs) scope)
  | register r e =>
      obtain ⟨hl, hr⟩ := hboth r (by simp [Operation.registries])
      have hreg := h.register (hrefs e (by simp [Operation.references]))
      rwa [← hl, ← hr] at hreg
  | delete r e =>
      obtain ⟨hl, hr⟩ := hboth r (by simp [Operation.registries])
      have hdel := h.delete (hrefs e (by simp [Operation.references])).1
      rw [← hl, ← hr] at hdel
      refine .change (Nat.le_of_eq ?_) hdel trivial
      simp only [Catalog.delete]
      split
      · exact (size_dismissByOwner (c.updateEntries r _) _).symm
      · rfl
  | dismiss n e =>
      exact .change (Nat.le_of_eq (c.size_dismiss _ _).symm)
        (h.dismiss (hrefs n (by simp [Operation.references])).1
          (hrefs e (by simp [Operation.references])).1) trivial
  | setScope e scope => exact h.setScope (hrefs e (by simp [Operation.references])) scope
  | setVisibility e visibility =>
      exact h.setVisibility (hrefs e (by simp [Operation.references])).1 visibility
  | setParameters e parameters =>
      exact h.setParameters (hrefs e (by simp [Operation.references])).1 parameters
  | setExplicit e explicit => exact h.changeMethod (hrefs e (by simp [Operation.references])).1 _
  | setDocstring e docstring =>
      exact h.setDocstring (hrefs e (by simp [Operation.references])).1 docstring
  | addFile e file line => exact h.addFile (hrefs e (by simp [Operation.references])).1 file line
  | addAttribute n scope name read write =>
      refine hdrop (h.addAttribute (hrefs n (by simp [Operation.references])).1 scope name
        (rel_rename fun d hd => ?_) (rel_rename fun d hd => ?_))
      · exact (hrefs d (by simp [Operation.references, hd])).1
      · exact (hrefs d (by simp [Operation.references, hd])).1
  | dropAttributes n s =>
      exact .change (Nat.le_of_eq (c.size_updateTables _ _).symm)
        (h.updateTables (hrefs n (by simp [Operation.references])).1
          fun _ _ ht => ht.setAttributes s .none) trivial
  | addAlias n e? name =>
      exact h.addAlias (hrefs n (by simp [Operation.references])).1
        (rel_rename fun d hd => (hrefs d (by simp [Operation.references, hd])).1) name
  | ensureNamespace r path =>
      obtain ⟨hl, hr⟩ := hboth r (by simp [Operation.registries])
      have hensure := h.ensureNamespace path
      rw [← hl, ← hr] at hensure
      exact hdrop hensure
  | load r data =>
      obtain ⟨hl, hr⟩ := hboth r (by simp [Operation.registries])
      have hload := h.load data
      rwa [← hl, ← hr] at hload
  | loadFresh data => cases hop

end Mirrors

end Pairing

end DocCatalog
