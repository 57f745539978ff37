/-
**What is found at each path of a registry.**

For whoever reads a catalog a registry is a function from paths to what stands there.  A step of
loading a manifest changes this function at the paths that it is about, and nowhere else.

Main definitions:

* `Profile`: what an entity is found to be, apart from its name, its place and its members;
* `View`: what is found at each path;
* `View.reach`, `View.put`, `View.amend`: namespaces on the way, a new entity, and one that is
  changed;
* `Catalog.view`: the view of a registry.

Main results:

* `Catalog.view_welcome`: a new entity that is registered is put into the view;
* `Catalog.Lockstep.view_retouch`: a change to one entity amends the view at its path.
-/

import DocCatalog.Proofs.Registry.Reseating

set_option autoImplicit false

namespace DocCatalog

/-- What an entity is found to be, apart from its name, its place and what it keeps about its
members. -/
structure Profile where
  kind : EntityKind
  docstring : Value := .text ""
  files : List (Value × Value) := []
  method? : Option MethodFields := none

/-- The profile of an entity. -/
def Entity.profile (x : Entity) : Profile := ⟨x.kind, x.docstring, x.files, x.method?⟩

/-- What is found at each path. -/
abbrev View := String → Option Profile

namespace View

/-- The view with namespaces at some paths, new ones where nothing was found. -/
def reach (v : View) (paths : List String) : View :=
  fun p => if p ∈ paths then some ((v p).getD { kind := .space }) else v p

/-- The view with an entity at a path, whatever was found there. -/
def put (v : View) (path : String) (f : Profile) : View :=
  fun p => if path = p then some f else v p

/-- The view with a change to what is found at a path. -/
def amend (v : View) (path : String) (g : Profile → Profile) : View :=
  fun p => if path = p then (v p).map g else v p

@[simp] theorem reach_nil (v : View) : v.reach [] = v := by
  funext p
  simp [reach]

theorem reach_append (v : View) (paths paths' : List String) :
    v.reach (paths ++ paths') = (v.reach paths).reach paths' := by
  funext p
  by_cases h : p ∈ paths <;> by_cases h' : p ∈ paths' <;> simp [reach, h, h']

/-- Namespaces that are there already are not made again. -/
theorem reach_eq_self {v : View} {path : String} {f : Profile} (h : v path = some f) :
    v.reach [path] = v := by
  funext p
  by_cases hp : p = path
  · simp [reach, hp, h]
  · simp [reach, hp]

theorem reach_eq_put {v : View} {path : String} (h : v path = none) :
    v.reach [path] = v.put path { kind := .space } := by
  funext p
  by_cases hp : p = path
  · simp [reach, put, hp, h]
  · simp [reach, put, hp, Ne.symm hp]

end View

theorem Entity.profile_eq_of_bare {x y : Entity} (h : x.bare = y.bare) : x.profile = y.profile := by
  have hbare : ∀ z : Entity, z.bare.profile = z.profile := by
    intro z
    cases hf : z.form <;> simp [profile, bare, updateTables, hf, kind, method?]
  rw [← hbare x, h, hbare y]

theorem Entity.profile_updateMethod (x : Entity) (f : MethodFields → MethodFields) :
    (x.updateMethod f).profile = { x.profile with method? := x.method?.map f } := by
  have hdoc : (x.updateMethod f).docstring = x.docstring := by
    unfold Entity.updateMethod
    split <;> rfl
  have hfiles : (x.updateMethod f).files = x.files := by
    unfold Entity.updateMethod
    split <;> rfl
  rw [Entity.profile, hdoc, hfiles, Entity.kind_updateMethod, Entity.method?_updateMethod]
  rfl

namespace Catalog

variable {c c' : Catalog} {r : Registry} {e : EntityId} {x : Entity}

/-- What is found at each path of a registry. -/
def view (c : Catalog) (r : Registry) : View :=
  fun p => ((c.entries r).get? p).map fun e => (c.entity e).profile

theorem mem_paths_iff_view {p : String} : p ∈ c.paths r ↔ c.view r p ≠ none := by
  rw [view, Ne, Option.map_eq_none_iff, OrderedTable.get?_eq_none_iff, not_not, paths]

theorem exists_of_view {p : String} {f : Profile} (h : c.view r p = some f) :
    ∃ e, (c.entries r).get? p = some e ∧ (c.entity e).profile = f :=
  Option.map_eq_some_iff.1 h

/-- What is found at its path is the entity that is registered. -/
theorem view_path (h : c.isRegistered r e = true) :
    c.view r (c.path e) = some (c.entity e).profile := by
  have hget : (c.entries r).get? (c.path e) = some e := by simpa [isRegistered] using h
  simp [view, hget]

/-- A new entity that is registered is put into the view. -/
theorem view_welcome (hc : c.WellFormed) (hx : Placed r c x)
    (ht : Retouches ⟨c.entities.size⟩ (c.founded x) c') :
    (c'.enter r ⟨c.entities.size⟩).view r =
      (c.view r).put x.path (c'.entity ⟨c.entities.size⟩).profile := by
  funext p
  simp only [view, View.put, get?_entries_welcome hx ht hc]
  split
  · exact congrArg some (Entity.profile_eq_of_bare (c'.bare_enter r _ _))
  · -- whoever is found elsewhere was known before, and is not touched
    cases he : (c.entries r).get? p with
    | none => rfl
    | some e' =>
        have hk : e'.index < c.entities.size := hc.knows_entry he
        have hne : e' ≠ ⟨c.entities.size⟩ := by
          rintro rfl
          exact Nat.lt_irrefl _ hk
        have hbare : (c.founded x |>.entity e').bare = (c.entity e').bare := by
          rw [bare_founded, if_neg (Nat.ne_of_lt hk)]
        refine congrArg some (Entity.profile_eq_of_bare ?_)
        rw [bare_enter, ht.others hne, hbare]

/-- A change that shows in no profile does not show in the view. -/
theorem Retouches.view_eq (ht : Retouches e c c')
    (hp : (c'.entity e).profile = (c.entity e).profile) (r : Registry) : c'.view r = c.view r := by
  funext p
  simp only [view, ht.entries]
  cases (c.entries r).get? p with
  | none => rfl
  | some e' =>
      by_cases he : e' = e
      · exact congrArg some (he ▸ hp)
      · simp [ht.others he]

/-- A change to a registered entity, or to the root, amends the view at its path. -/
theorem Lockstep.view_retouch (h : Lockstep r c) (ht : Retouches e c c') {g : Profile → Profile}
    (hg : (c'.entity e).profile = g (c.entity e).profile)
    (hreg : c.isRegistered r e = true ∨ c.path e = "") :
    c'.view r = (c.view r).amend (c.path e) g := by
  funext p
  simp only [view, View.amend, ht.entries]
  by_cases hp : c.path e = p
  · rw [if_pos hp]
    rcases hreg with hreg | hroot
    · have hget : (c.entries r).get? p = some e := by simpa [isRegistered, hp] using hreg
      simp [hget, hg]
    · rw [← hp, hroot, h.vacant]
      rfl
  · rw [if_neg hp]
    cases he : (c.entries r).get? p with
    | none => rfl
    | some e' =>
        have hne : e' ≠ e := by
          rintro rfl
          exact hp (h.keysHold.path_eq he)
        simp [ht.others hne]

end Catalog

end DocCatalog
