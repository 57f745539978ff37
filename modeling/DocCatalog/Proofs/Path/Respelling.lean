/-
**Paths in other separators.**

A path is one rendering of an identity, and the identity has another rendering for every choice of
separators.  Where the names are plain for both choices, the two paths settle each other: a path is
read from its end, the name first, then the separator before it, then the path of the owner, and is
put together again with the other separators.

Main definitions:

* `Separators.Spelled`, `Separators.Spells`: two paths that are renderings of one identity;
* `Separators.nameIn`, `Separators.jointIn`, `Separators.ownerIn`: the parts of a path;
* `Catalog.respellSpace`, `Catalog.respellMethod`: the path of a namespace and of a method in the
  separators of another registry.

Main results:

* `Separators.biUnique_spells`: paths that are renderings of one identity settle each other;
* `Separators.parts_render`: the parts of a rendering are read off it;
* `Catalog.respellMethod_render`: **what is read off a rendering is rendered again**.
-/

import DocCatalog.Proofs.Path.Segments
import Mathlib.Data.List.DropRight
import Mathlib.Logic.Relator

set_option autoImplicit false

namespace DocCatalog

namespace Separators

variable {s s' : Separators} {owners owners' : List String} {name name' : String}
  {scope? scope?' : Option Scope} {scope : Scope} {p p' : String}

/-! ### Two paths of one identity -/

/-- An identity whose names are plain for two choices of separators has these two paths. -/
structure Spelled (s s' : Separators) (owners : List String) (name : String)
    (scope? : Option Scope) (p p' : String) : Prop where
  owners_plain : ∀ o ∈ owners, s.Plain o ∧ s'.Plain o
  name_plain : s.Plain name ∧ s'.Plain name
  left : p = s.render owners name scope?
  right : p' = s'.render owners name scope?

/-- Two paths are renderings of one identity, in two choices of separators. -/
def Spells (s s' : Separators) (p p' : String) : Prop :=
  ∃ owners name scope?, Spelled s s' owners name scope? p p'

namespace Spelled

theorem symm (h : Spelled s s' owners name scope? p p') :
    Spelled s' s owners name scope? p' p where
  owners_plain o ho := (h.owners_plain o ho).symm
  name_plain := h.name_plain.symm
  left := h.right
  right := h.left

theorem spells (h : Spelled s s' owners name scope? p p') : Spells s s' p p' := ⟨_, _, _, h⟩

theorem names_plain (h : Spelled s s' owners name scope? p p') :
    ∀ n ∈ owners ++ [name], s.Plain n ∧ s'.Plain n :=
  List.forall_mem_append.2 ⟨h.owners_plain, List.forall_mem_singleton.2 h.name_plain⟩

/-- The identity is settled by its path. -/
theorem eq_of_left (hs : s.Distinct) (h : Spelled s s' owners name scope? p p')
    (ho : ∀ o ∈ owners', s.Plain o) (hn : s.Plain name') (hp : p = s.render owners' name' scope?') :
    owners = owners' ∧ name = name' ∧ scope? = scope?' :=
  render_injective hs (fun o ho => (h.owners_plain o ho).1) ho h.name_plain.1 hn (h.left ▸ hp)

theorem left_ne_empty (h : Spelled s s' owners name scope? p p') : p ≠ "" := by
  have hname : name ≠ "" := h.name_plain.1.1
  rw [h.left, render_eq]
  simp [hname]

end Spelled

theorem Spells.symm (h : Spells s s' p p') : Spells s' s p' p := by
  obtain ⟨_, _, _, h⟩ := h
  exact h.symm.spells

/-- Paths that are renderings of one identity settle each other. -/
theorem biUnique_spells (hs : s.Distinct) (hs' : s'.Distinct) : Relator.BiUnique (Spells s s') := by
  -- one side settles the identity, and the identity the other side
  have hright : ∀ {s s' : Separators} {p q q' : String}, s.Distinct → Spells s s' p q →
      Spells s s' p q' → q = q' := by
    rintro s s' p q q' hs ⟨_, _, _, h⟩ ⟨_, _, _, h'⟩
    obtain ⟨rfl, rfl, rfl⟩ :=
      h.eq_of_left hs (fun o ho => (h'.owners_plain o ho).1) h'.name_plain.1 h'.left
    exact h.right.trans h'.right.symm
  exact ⟨fun _ _ _ h h' => hright hs' h.symm h'.symm, fun _ _ _ h h' => hright hs h h'⟩

/-! ### Reading a path from its end -/

/-- The name that a path ends in: the last run of characters that no separator has. -/
def nameIn (s : Separators) (path : String) : String :=
  String.ofList (path.toList.rtakeWhile fun c => c ∉ s.chars)

/-- What stands before the name that a path ends in. -/
def beforeName (s : Separators) (path : String) : List Char :=
  path.toList.rdropWhile fun c => c ∉ s.chars

/-- The separator before the name that a path ends in. -/
def jointIn (s : Separators) (path : String) : String :=
  String.ofList ((s.beforeName path).rtakeWhile fun c => c ∈ s.chars)

/-- The path of the owner that a path begins with. -/
def ownerIn (s : Separators) (path : String) : String :=
  String.ofList ((s.beforeName path).rdropWhile fun c => c ∈ s.chars)

/-- The scope of the method that a path is of. -/
def scopeIn (s : Separators) (path : String) : Scope :=
  if s.jointIn path = s.onInstance then .onInstance else .onClass

/-- A list that ends outside a class of characters, followed by one within the class, is cut where
the second begins. -/
theorem cut_append (q : Char → Bool) {xs ys : List Char} (hxs : ∀ c ∈ xs.getLast?, ¬ q c = true)
    (hys : ∀ c ∈ ys, q c = true) :
    (xs ++ ys).rdropWhile q = xs ∧ (xs ++ ys).rtakeWhile q = ys := by
  refine append_inj_of_runs (fun c => q c = true) (fun c hc => ?_) hxs
    (fun c hc => List.mem_rtakeWhile_imp hc) hys List.rdropWhile_append_rtakeWhile
  have hne : (xs ++ ys).rdropWhile q ≠ [] := fun hnil => by simp [hnil] at hc
  rw [List.getLast?_eq_some_getLast hne, Option.mem_some_iff] at hc
  exact hc ▸ List.rdropWhile_last_not q _ hne

/-- The parts of a rendering are read off it. -/
theorem parts_render (hs : s.Distinct) (ho : ∀ o ∈ owners, s.Plain o) (hn : s.Plain name)
    (scope? : Option Scope) :
    s.ownerIn (s.render owners name scope?) = s.spacePath owners ∧
      s.jointIn (s.render owners name scope?) = s.joint (s.spacePath owners) scope? ∧
      s.nameIn (s.render owners name scope?) = name := by
  have hpath : (s.render owners name scope?).toList =
      (s.spacePath owners).toList ++ (s.joint (s.spacePath owners) scope?).toList ++
        name.toList := by
    rw [render_eq, String.toList_append, String.toList_append]
  -- first the name is cut off, then the separator before it
  obtain ⟨hbefore, hname⟩ := cut_append (fun c => decide (c ∉ s.chars))
    (fun c hc => by simpa using getLast?_before hs (s.spacePath owners) scope? c hc)
    (fun c hc => by simpa using hn.2 c hc)
  obtain ⟨howner, hjoint⟩ := cut_append (fun c => decide (c ∈ s.chars))
    (fun c hc => by simpa using getLast?_spacePath ho c hc)
    (fun c hc => by simpa using joint_chars s (s.spacePath owners) scope? c hc)
  rw [ownerIn, jointIn, nameIn, beforeName, hpath, hbefore, hname, howner, hjoint]
  simp

theorem scopeIn_render (hs : s.Distinct) (ho : ∀ o ∈ owners, s.Plain o) (hn : s.Plain name) :
    s.scopeIn (s.render owners name (some scope)) = scope := by
  obtain ⟨-, hjoint, -⟩ := parts_render hs ho hn (some scope)
  have hinstance : s.onInstance = s.joint (s.spacePath owners) (some .onInstance) := rfl
  rw [scopeIn, hjoint, hinstance]
  cases scope with
  | onInstance => exact if_pos rfl
  | onClass => exact if_neg fun h => by cases joint_injective hs _ h

end Separators

/-! ### Paths in the separators of another registry -/

namespace Catalog

variable {r r' : Registry} {owners : List String} {name : String} {scope : Scope}

/-- The path of a namespace in the separators of another registry: its segments joined anew. -/
def respellSpace (r r' : Registry) (path : String) : String :=
  r'.separators.spacePath (spaceNames r path)

/-- The path of a method in the separators of another registry: rendered anew from the names of the
owners, the name and the scope. -/
def respellMethod (r r' : Registry) (path : String) : String :=
  r'.separators.render (spaceNames r (r.separators.ownerIn path)) (r.separators.nameIn path)
    (some (r.separators.scopeIn path))

/-- **What is read off the path of a method is rendered again.** -/
theorem respellMethod_render (ho : ∀ o ∈ owners, r.separators.Plain o)
    (hn : r.separators.Plain name) :
    respellMethod r r' (r.separators.render owners name (some scope)) =
      r'.separators.render owners name (some scope) := by
  have hs : r.separators.Distinct := r.config.distinct
  obtain ⟨howner, -, hname⟩ := Separators.parts_render hs ho hn (some scope)
  rw [respellMethod, howner, hname, Separators.scopeIn_render hs ho hn, spaceNames_spacePath ho]

/-- A path in separators of which one contains another and two have characters in common, in those
of other such separators. -/
example :
    let r : Registry := ⟨0, { separators := ⟨"::", ":", "::#"⟩, distinct := by decide }⟩
    let r' : Registry := ⟨0, { separators := ⟨".", "..", "#"⟩, distinct := by decide }⟩
    respellMethod r r' "Shop::Cart:total" = "Shop.Cart..total" ∧
      respellMethod r r' "::#run" = "#run" ∧ respellMethod r r' "::build" = ".build" := by
  decide +kernel

end Catalog

end DocCatalog
