/-
**The namespaces of a path can always be made.**

A namespace is looked for among the members of the one before, not in the registry, and made and
registered if it is not there.  In a registry in step both are the same, so a namespace is made only
where nothing is found, and takes the place of nothing.

Main definitions:

* `Catalog.Stands`: a namespace of a registry at a path;
* `Catalog.Retains`: what a registry holds it goes on holding.

Main results:

* `Catalog.Lockstep.vacant_of_nestedSpace?`: what is not listed is not registered;
* `Catalog.ensureNamespace_ok`: **the namespaces of a path with plain names can always be made**.
-/

import DocCatalog.Proofs.Path.Segments
import DocCatalog.Proofs.Registry.View

set_option autoImplicit false

namespace DocCatalog

namespace Catalog

variable {c c' : Catalog} {r : Registry} {e n : EntityId} {path name : String}

/-! ### Namespaces on the way -/

/-- A namespace of a registry, its root included, that has a path. -/
structure Stands (r : Registry) (c : Catalog) (n : EntityId) (path : String) : Prop where
  knows : c.Knows n
  isSpace : (c.entity n).isSpace = true
  home : (c.entity n).home = r
  path_eq : c.path n = path

/-- A namespace of a registry in step is registered, unless it is the root. -/
theorem Stands.registered (h : Lockstep r c) (hn : Stands r c n path) :
    c.isRegistered r n = true ∨ c.path n = "" := by
  by_cases hroot : n = c.root r
  · exact .inr (by rw [hroot, h.path_root])
  · have hk := kind_ne_root_of_scope (h.placed hn.knows hn.home hroot).kind
    exact .inl (h.registered hn.knows hn.home ((isSpace_iff.1 hn.isSpace).resolve_right hk))

/-- What a registry holds at a path it goes on holding there. -/
def Retains (r : Registry) (c c' : Catalog) : Prop :=
  ∀ p e, (c.entries r).get? p = some e → (c'.entries r).get? p = some e

theorem Retains.refl (r : Registry) (c : Catalog) : Retains r c c := fun _ _ h => h

theorem Retains.trans {c'' : Catalog} (h : Retains r c c') (h' : Retains r c' c'') :
    Retains r c c'' :=
  fun p e he => h' p e (h p e he)

theorem register_of_home (hh : (c.entity e).home = r) :
    register r e c = (.ok (), c.enter r e) := by
  show (if (c.entity e).home = r then _ else _ : Action Unit) c = _
  rw [if_pos hh]
  rfl

/-- The path of a new namespace below another. -/
theorem path_of_space {x : Entity} (hx : Placed r c x) (ho : x.owner? = some n)
    (hk : x.kind = .space) (hn : Stands r c n path) :
    x.path = r.separators.namespacePath x.name path := by
  have hlin := hx.lineage
  rw [ho] at hlin
  rw [Entity.path_eq_kind_scope, scope?_of_kind_space hk, hx.home,
    ownerPath_eq_path hn.isSpace hlin,
    hn.path_eq]
  simp [hk]

/-- The path of a method below a namespace. -/
theorem path_of_method {x : Entity} {s : Scope} (hx : Placed r c x) (ho : x.owner? = some n)
    (hs : x.scope? = some s) (hn : Stands r c n path) :
    x.path = r.separators.methodPath x.name path s := by
  have hlin := hx.lineage
  rw [ho] at hlin
  rw [Entity.path_eq_kind_scope, hs, hx.home, ownerPath_eq_path hn.isSpace hlin, hn.path_eq]

/-- A new namespace or method below a namespace is in its place. -/
theorem placed_newEntity (hn : Stands r c n path) {o : Origin} (ho : o.owner? = some n)
    (hp : r.separators.Plain o.name.display) (form : Registry → Form)
    (hk : (c.newEntity o r form).kind = .space ∨ (c.newEntity o r form).kind = .method) :
    Placed r c (c.newEntity o r form) where
  home := rfl
  kind := hk
  plain := hp
  lineage := by rw [owner?_newEntity]; rfl
  owner := ⟨n, by rw [owner?_newEntity, ho], hn.knows, hn.isSpace, hn.home⟩

/-- What is not found among the members of a namespace is not registered below it either. -/
theorem Lockstep.vacant_of_nestedSpace? (h : Lockstep r c) {x : Entity} (hx : Placed r c x)
    (ho : x.owner? = some n) (hk : x.kind = .space) (hno : c.nestedSpace? n x.name = none) :
    (c.entries r).get? x.path = none := by
  refine Option.eq_none_iff_forall_ne_some.2 fun e he => ?_
  have hke := h.wellFormed.knows_entry he
  have hhe := h.keysHold.home h.wellFormed h.opened he
  have hpe := h.keysHold.path_eq he
  have hne : e ≠ c.root r := by
    rintro rfl
    exact h.path_ne_empty hx (hpe.symm.trans h.path_root)
  have hy := h.placed hke hhe hne
  obtain ⟨hoe, hkey⟩ := (h.same_place hy hx).1 hpe
  -- so it is a namespace that is listed where it was looked for
  have hscope : (c.entity e).scope? = none :=
    (congrArg Prod.snd hkey).trans (scope?_of_kind_space hk)
  have hspace : (c.entity e).isSpace = true := by
    refine isSpace_iff.2 (.inl (hy.kind.resolve_right fun hm => ?_))
    obtain ⟨s, hs⟩ := scope?_of_kind_method hm
    rw [hscope] at hs
    cases hs
  have hreg : c.isRegistered r e = true := by rw [isRegistered, hpe, he, decide_eq_true rfl]
  obtain ⟨m, hm, hslot⟩ := (h.lock hke hhe hne).1 hreg
  obtain rfl : m = n := Option.some.inj (hm.symm.trans (hoe.trans ho))
  have hfound : c.nestedSpace? m x.name = some e := by
    rw [hkey] at hslot
    have hkey' : x.memberKey = (x.name, none) := by
      rw [Entity.memberKey, scope?_of_kind_space hk]
    rw [hkey', slots_eq] at hslot
    simp [nestedSpace?, Tables.member?, hslot, hspace]
  rw [hno] at hfound
  cases hfound

/-- The namespace that is found among the members of another stands below it. -/
theorem Lockstep.stands_of_nestedSpace? (h : Lockstep r c) (hn : Stands r c n path)
    (hfound : c.nestedSpace? n name = some e) :
    Stands r c e (r.separators.namespacePath name path) ∧ c.isRegistered r e = true := by
  obtain ⟨⟨k, hk, hslot⟩, hspace⟩ := slot_of_nestedSpace? hfound
  have ho := h.slotsHold.owner?_eq hslot
  have hke := h.wellFormed.knows_slot hslot
  have hhe := h.owns hke ho hn.home
  have hx := h.placed hke hhe (h.ne_root ho)
  have hkind := (isSpace_iff.1 hspace).resolve_right (kind_ne_root_of_scope hx.kind)
  have hname : (c.entity e).name = name :=
    (congrArg Prod.fst (h.slotsHold.memberKey_eq hslot)).trans hk
  refine ⟨⟨hke, hspace, hhe, ?_⟩, h.registered hke hhe hkind⟩
  rw [← hname]
  exact path_of_space hx ho hkind hn

/-- A namespace that is not found among the members of another is made below it. -/
theorem Lockstep.makeNested (h : Lockstep r c) (hn : Stands r c n path)
    (hp : r.separators.Plain name) (hno : c.nestedSpace? n name = none) :
    ∃ c', makeSpace { owner? := some n, name := .text name } c = (.ok ⟨c.entities.size⟩, c') ∧
      (c'.entity ⟨c.entities.size⟩).home = r ∧ Lockstep r (c'.enter r ⟨c.entities.size⟩) ∧
      Stands r (c'.enter r ⟨c.entities.size⟩) ⟨c.entities.size⟩
        (r.separators.namespacePath name path) ∧
      (c'.enter r ⟨c.entities.size⟩).view r =
        (c.view r).reach [r.separators.namespacePath name path] ∧
      Retains r c (c'.enter r ⟨c.entities.size⟩) := by
  let o : Origin := { owner? := some n, name := .text name }
  let x : Entity := c.newEntity o r fun _ => .space false {}
  have hhome : c.homeOf? o = some r := by simp [homeOf?, o, hn.home]
  have hx : Placed r c x := placed_newEntity (o := o) hn rfl hp _ (.inl rfl)
  have ho : x.owner? = some n := c.owner?_newEntity o r _
  have hpath : x.path = r.separators.namespacePath name path := path_of_space hx ho rfl hn
  have hvacant : (c.entries r).get? x.path = none := h.vacant_of_nestedSpace? hx ho rfl hno
  -- nothing is changed between making the namespace and registering it
  have ht := Retouches.refl ⟨c.entities.size⟩ (c.founded x)
  have hid := ((c.founded x).identity_enter r ⟨c.entities.size⟩ ⟨c.entities.size⟩).trans
    (identity_welcome ht)
  have hset := Entity.settled_eq_of_identity hid
  refine ⟨c.founded x, make_of_homeOf? hhome, ?_, ?_, ⟨?_, ?_, ?_, ?_⟩, ?_, ?_⟩
  · exact Entity.home_eq_of_settled (Entity.settled_eq_of_identity (identity_welcome ht))
  · refine h.welcome hx ht rfl fun _ {e'} hk hh hkind hpe => ?_
    have hget : (c.entries r).get? x.path = some e' := by
      simpa [isRegistered, hpe] using h.registered hk hh hkind
    rw [hvacant] at hget
    cases hget
  · rw [Knows, size_enter]
    exact c.knows_founded x
  · rw [Entity.isSpace_eq_of_settled hset]
    rfl
  · exact Entity.home_eq_of_settled hset
  · exact (Entity.path_eq_of_identity hid).trans hpath
  · have hview : c.view r x.path = none := by simp [view, hvacant]
    rw [view_welcome h.wellFormed hx ht, ← hpath, View.reach_eq_put hview,
      Entity.profile_eq_of_bare (c.bare_founded_self x)]
    rfl
  · intro p e he
    have hne : x.path ≠ p := by
      rintro rfl
      rw [hvacant] at he
      cases he
    rwa [get?_entries_welcome hx ht h.wellFormed, if_neg hne]

/-- **A nested namespace can always be made, and is made only if it is not there.** -/
theorem ensureNested_ok (h : Lockstep r c) (hn : Stands r c n path) (hp : r.separators.Plain name) :
    ∃ e c', ensureNested r n name c = (.ok e, c') ∧ Lockstep r c' ∧
      Stands r c' e (r.separators.namespacePath name path) ∧
      c'.view r = (c.view r).reach [r.separators.namespacePath name path] ∧ Retains r c c' := by
  rw [ensureNested, Action.bind_get]
  cases hfound : c.nestedSpace? n name with
  | some e =>
      obtain ⟨hstands, hreg⟩ := h.stands_of_nestedSpace? hn hfound
      have hview := view_path hreg
      rw [hstands.path_eq] at hview
      exact ⟨e, c, rfl, h, hstands, (View.reach_eq_self hview).symm, .refl r c⟩
  | none =>
      obtain ⟨c', hmake, hhome, hlock, hstands, hview, hkeep⟩ := h.makeNested hn hp hfound
      refine ⟨_, _, ?_, hlock, hstands, hview, hkeep⟩
      exact (Action.bind_of_ok hmake).trans (Action.bind_of_ok (register_of_home hhome))

/-- **The namespaces of a path with plain names can always be made**, and then the last one stands
at the path. -/
theorem ensureNamespace_ok (h : Lockstep r c)
    (hp : ∀ name ∈ spaceNames r path, r.separators.Plain name) :
    ∃ n c', ensureNamespace r path c = (.ok n, c') ∧ Lockstep r c' ∧ Stands r c' n path ∧
      c'.view r = (c.view r).reach (r.separators.trail "" (spaceNames r path)) ∧
      Retains r c c' := by
  have hroot : Stands r c (c.root r) "" :=
    ⟨h.opened.knows_root, isSpace_iff.2 (.inr h.root_kind), h.opened.home_root, h.path_root⟩
  -- along the names one namespace after the other is there or made
  have hwalk : ∀ names : List String, (∀ name ∈ names, r.separators.Plain name) →
      ∀ {c n base}, Lockstep r c → Stands r c n base →
        ∃ n' c', names.foldlM (fun n name =>
            if name = "" then throw (.manifest (.emptySegment path) (some .namespaces))
            else ensureNested r n name : EntityId → String → Action EntityId) n c =
              (.ok n', c') ∧
          Lockstep r c' ∧
          Stands r c' n' (names.foldl (fun p name => r.separators.namespacePath name p) base) ∧
          c'.view r = (c.view r).reach (r.separators.trail base names) ∧ Retains r c c' := by
    intro names
    induction names with
    | nil =>
        intro _ c n base h hn
        exact ⟨n, c, rfl, h, hn, by simp [Separators.trail], .refl r c⟩
    | cons name names ih =>
        intro hp c n base h hn
        have hname := hp name (by simp)
        obtain ⟨e, c₁, hrun, h₁, hn₁, hv₁, hkeep₁⟩ := ensureNested_ok h hn hname
        obtain ⟨n', c', hrest, h', hn', hv', hkeep'⟩ :=
          ih (fun m hm => hp m (by simp [hm])) h₁ hn₁
        refine ⟨n', c', ?_, h', hn', ?_, hkeep₁.trans hkeep'⟩
        · rw [List.foldlM_cons, if_neg hname.1]
          exact (Action.bind_of_ok hrun).trans hrest
        · rw [hv', hv₁, Separators.trail, ← View.reach_append]
          rfl
  obtain ⟨n, c', hrun, h', hn, hv, hkeep⟩ := hwalk _ hp h hroot
  have hend : (spaceNames r path).foldl (fun p name => r.separators.namespacePath name p) "" =
      path := spacePath_spaceNames fun name hname => (hp name hname).1
  rw [hend] at hn
  refine ⟨n, c', ?_, h', hn, hv, hkeep⟩
  rw [← hrun]
  show (if path = "" then _ else _ : Action EntityId) c = _
  unfold spaceNames
  split <;> rfl

end Catalog

end DocCatalog
