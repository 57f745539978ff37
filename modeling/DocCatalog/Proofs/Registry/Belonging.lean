/-
**Where a registered method is listed when its scope changes.**

The registry takes a registered method along to whichever path it gets.  Its namespace takes it
along to its new key only from its old one: if another has that slot, nothing in the list changes.
A registered method can come to be without its slot, because a method of the same name and scope
takes it when it is made, and when it comes there by a change of scope, registered or not.  So after
a change of scope the namespace lists the method exactly if it did before.

Main results:

* `Catalog.Family.slots_rescope`, `Catalog.Family.slots_rescope_of_not_listed`: what a change of
  scope does to the lists;
* `Session.listed_as_before`: **a registered method is found at its path, and it is listed after a
  change of scope exactly if it was before**;
* `Session.registered_out_of_list`: a method that is registered and in no list.
-/

import DocCatalog.Proofs.Catalog.Membership
import DocCatalog.Proofs.Registry.Itinerary

set_option autoImplicit false

namespace DocCatalog

/-- What has a scope is a method. -/
theorem Entity.kind_of_scope? {x : Entity} {s : Scope} (h : x.scope? = some s) :
    x.kind = .method := by
  unfold Entity.kind
  cases hf : x.form with
  | method fields => rfl
  | _ => simp [Entity.scope?, Entity.method?, hf] at h

namespace Catalog

variable {c : Catalog} {r : Registry} {family : List EntityId} {m n : EntityId} {old new : Scope}

namespace Family

variable (h : Family r family c) (hm : m ∈ family) (ho : (c.entity m).owner? = some n)
  (hscope : (c.entity m).scope? = some old)
include h hm ho hscope

/-- A method that is listed under its old key goes to its new one. -/
theorem slots_rescope (hslot : (c.slots n).get? ((c.entity m).name, some old) = some m)
    (n' : EntityId) (k : String × Option Scope) :
    ((c.rescope m new).slots n').get? k =
      if n = n' ∧ ((c.entity m).name, some new) = k then some m
      else if n = n' ∧ ((c.entity m).name, some old) = k then none
      else (c.slots n').get? k := by
  have hold : (c.share m).scope = old := Option.some.inj ((h.scope?_eq hm).symm.trans hscope)
  rw [h.get?_slots_rescope hm, hold, ho]
  by_cases hn : n = n'
  · subst hn
    simp [hslot]
  · simp [hn]

/-- A method that is not leaves all lists as they are. -/
theorem slots_rescope_of_not_listed
    (hslot : (c.slots n).get? ((c.entity m).name, some old) ≠ some m)
    (n' : EntityId) (k : String × Option Scope) :
    ((c.rescope m new).slots n').get? k = (c.slots n').get? k := by
  have hold : (c.share m).scope = old := Option.some.inj ((h.scope?_eq hm).symm.trans hscope)
  rw [h.get?_slots_rescope hm, hold, ho, if_neg]
  rintro ⟨hn, hlisted⟩
  exact hslot (Option.some.inj hn ▸ hlisted)

/-- The slot of the new scope is the method's exactly if the slot of the old one was. -/
theorem slot_rescope_iff (hs : c.SlotsHold) (hne : new ≠ old) :
    ((c.rescope m new).slots n).get? ((c.entity m).name, some new) = some m ↔
      (c.slots n).get? ((c.entity m).name, some old) = some m := by
  by_cases hslot : (c.slots n).get? ((c.entity m).name, some old) = some m
  · rw [h.slots_rescope hm ho hscope hslot]
    simp [hslot]
  · rw [h.slots_rescope_of_not_listed hm ho hscope hslot]
    refine iff_of_false (fun hnew => hne ?_) hslot
    -- what is listed has the key that it is listed under
    have hkey := congrArg Prod.snd (hs.memberKey_eq hnew)
    exact (Option.some.inj (hscope.symm.trans hkey)).symm

end Family

end Catalog

/-! ### Sessions -/

namespace Session

open Catalog

variable {s : Session} {m n : EntityId} {v : Value} {old new : Scope}

/-- **After a change of scope a registered method is found at its path, and its namespace lists it
exactly if it did before.**  In every session that can be come to, a method that its namespace lists
goes from its old slot to its new one, whoever has that, and is one of the methods of its new scope;
for one that is not listed no list changes, and the namespace has it neither under its name nor
among the methods of its scope. -/
theorem listed_as_before (hs : s.Reachable) (hm : s.catalog.Knows m)
    (hn : (s.catalog.entity m).owner? = some n)
    (hscope : (s.catalog.entity m).scope? = some old)
    (hreg : s.catalog.isRegistered (s.catalog.entity m).home m = true)
    (hv : Scope.ofValue? v = some new) (hne : new ≠ old) :
    let c := s.catalog
    let c' := (setScope m v c).2
    let name := (c.entity m).name
    let listed := (c.slots n).get? (name, some old) = some m
    (setScope m v c).1 = .ok () ∧ (c'.entity m).scope? = some new ∧
    c'.isRegistered (c.entity m).home m = true ∧
    c'.lookup? (c.entity m).home (c'.path m) = some m ∧
    (c'.child n (.text name) v = .ok (some m) ↔ listed) ∧
    ((∃ l, c'.methods n v .null = .ok l ∧ m ∈ l) ↔ listed) ∧
    (listed → ∀ n' k, (c'.slots n').get? k =
      if n = n' ∧ (name, some new) = k then some m
      else if n = n' ∧ (name, some old) = k then none
      else (c.slots n').get? k) ∧
    (¬ listed → ∀ n' k, (c'.slots n').get? k = (c.slots n').get? k) := by
  intro c c' name listed
  obtain ⟨hwf, hkeys, -⟩ := Reachable.sound hs
  have hslots : c.SlotsHold := Reachable.slotsHold hs
  have hmem : m ∈ [m] := List.mem_singleton_self m
  have hf : Family (c.entity m).home [m] c := family_single hwf hkeys (hwf.opened_home hm) hm rfl
    (Entity.kind_of_scope? hscope)
  have hc' : c' = c.rescope m new := by
    show (setScope m v c).2 = _
    rw [setScope_eq, hv]
    exact if_neg fun h => hne (Option.some.inj (h.symm.trans hscope))
  have hf' : Family (c.entity m).home [m] c' := hc' ▸ hf.rescope hmem new
  have hslots' : c'.SlotsHold :=
    Writes.slotsHold hwf hslots (hc' ▸ writes_rescope hm new)
  have hkept : (c.setScopes [(m, v)]).isRegistered (c.entity m).home m =
      c.isRegistered (c.entity m).home m := hf.isRegistered_setScopes (by simp) hmem
  have hreg' : c'.isRegistered (c.entity m).home m = true := hkept.trans hreg
  have hname : (c'.entity m).name = name :=
    Entity.name_eq_of_settled (hc' ▸ c.settled_rescope m m new)
  have hchild : c'.child n (.text name) v = .ok (some m) ↔ listed := by
    rw [child_of_scope c' n name hv, Except.ok.injEq, hc']
    exact hf.slot_rescope_iff hmem hn hscope hslots hne
  have hlookup := hf'.lookup?_path hmem hreg'
  refine ⟨?_, ?_, hreg', hlookup, hchild, ?_, ?_, ?_⟩
  · have hanswer := setScope_answers m v c
    rwa [hv] at hanswer
  · rw [hc']
    exact hf.scope?_rescope hmem new
  · -- a method of the scope is the member of its own name
    rw [← hchild, hslots'.child_iff_mem_methods name hv]
    exact ⟨fun ⟨l, hl, hin⟩ => ⟨l, hl, hin, hname⟩, fun ⟨l, hl, hin, _⟩ => ⟨l, hl, hin⟩⟩
  · intro hslot n' k
    rw [hc']
    exact hf.slots_rescope hmem hn hscope hslot n' k
  · intro hslot n' k
    rw [hc']
    exact hf.slots_rescope_of_not_listed hmem hn hscope hslot n' k

/-- A method of the class goes to the instances and takes the slot that a method has there. -/
theorem listed_as_before_taking :
    let r : Registry := ⟨0, {}⟩
    let act (s : Session) (op : Operation) : Session :=
      { s with catalog := (op.action s.catalog).2 }
    let method (scope : Scope) : Operation :=
      .makeMethod { owner? := some ⟨0⟩, name := .text "run" } (.scope scope)
    let s₁ := act {} (.openRegistry {})
    let s₂ := act s₁ (method .onClass)
    let s₃ := act s₂ (.register r ⟨1⟩)
    let s₄ := act s₃ (method .onInstance)
    let c' := (setScope ⟨1⟩ (.text "instance") s₄.catalog).2
    s₄.Reachable ∧ s₄.catalog.members ⟨0⟩ = [⟨1⟩, ⟨2⟩] ∧
      s₄.catalog.child ⟨0⟩ (.text "run") (.text "instance") = .ok (some ⟨2⟩) ∧
      c'.child ⟨0⟩ (.text "run") (.text "instance") = .ok (some ⟨1⟩) ∧
      (∃ l, c'.methods ⟨0⟩ (.text "instance") .null = .ok l ∧ ⟨1⟩ ∈ l) ∧
      c'.lookup? r "#run" = some ⟨1⟩ := by
  intro r act method s₁ s₂ s₃ s₄ c'
  have hmake : ∀ {s : Session} (scope : Scope), s.Reachable →
      s.catalog.Knows ⟨0⟩ ∧ (s.catalog.entity ⟨0⟩).isSpace = true →
        (act s (method scope)).Reachable := fun _ hs howner =>
    .tail hs (.act _ ⟨fun n h => by cases h; exact howner, fun _ h => by cases h⟩)
  have ho₂ : s₂.catalog.Opened r := ⟨by decide +kernel, by decide +kernel, by decide +kernel⟩
  have h₁ : s₁.Reachable := .single (.act (.openRegistry {}) trivial)
  have h₂ : s₂.Reachable := hmake _ h₁ (by decide +kernel)
  have h₃ : s₃.Reachable := .tail h₂ (.act (.register r ⟨1⟩) ⟨ho₂, by decide +kernel⟩)
  have h₄ : s₄.Reachable := hmake _ h₃ (by decide +kernel)
  have hinstance : Scope.ofValue? (.text "instance") = some .onInstance := by decide +kernel
  have hknown : s₄.catalog.Knows ⟨1⟩ := by decide +kernel
  have howner : (s₄.catalog.entity ⟨1⟩).owner? = some ⟨0⟩ := by decide +kernel
  have hscope : (s₄.catalog.entity ⟨1⟩).scope? = some .onClass := by decide +kernel
  have hhome : (s₄.catalog.entity ⟨1⟩).home = r := by decide +kernel
  have hname : (s₄.catalog.entity ⟨1⟩).name = "run" := by decide +kernel
  have hpath : c'.path ⟨1⟩ = "#run" := by decide +kernel
  have hslot : (s₄.catalog.slots ⟨0⟩).get? ((s₄.catalog.entity ⟨1⟩).name, some .onClass) =
      some ⟨1⟩ := by decide +kernel
  obtain ⟨-, -, -, hlookup, hchild, hmethods, -, -⟩ :=
    listed_as_before h₄ hknown howner hscope (by decide +kernel) hinstance (by decide)
  rw [hhome, hpath] at hlookup
  have hmoved := hchild.2 hslot
  rw [hname] at hmoved
  refine ⟨h₄, by decide +kernel, ?_, hmoved, hmethods.2 hslot, hlookup⟩
  rw [child_of_scope _ _ _ hinstance]
  exact congrArg Except.ok (by decide +kernel)

/-- A method that is registered loses its slot to another of its name and scope, which is not.  It
gets a scope in which no method has its name: it is found at its new path, and it is not listed. -/
theorem registered_out_of_list :
    let r : Registry := ⟨0, {}⟩
    let act (s : Session) (op : Operation) : Session :=
      { s with catalog := (op.action s.catalog).2 }
    let shop : Origin := { owner? := some ⟨0⟩, name := .text "Shop" }
    let total : Origin := { owner? := some ⟨1⟩, name := .text "total" }
    let s₁ := act {} (.openRegistry {})
    let s₂ := act s₁ (.makeSpace shop)
    let s₃ := act s₂ (.makeMethod total (.scope .onInstance))
    let s₄ := act s₃ (.register r ⟨2⟩)
    let s₅ := act s₄ (.makeMethod total (.scope .onInstance))
    let c := s₅.catalog
    let c' := (setScope ⟨2⟩ (.text "class") c).2
    s₅.Reachable ∧ c.isRegistered r ⟨2⟩ = true ∧ (c.entity ⟨2⟩).owner? = some ⟨1⟩ ∧
      (c.entity ⟨2⟩).scope? = some .onInstance ∧
      (setScope ⟨2⟩ (.text "class") c).1 = .ok () ∧
      c'.isRegistered r ⟨2⟩ = true ∧ c'.lookup? r "Shop.total" = some ⟨2⟩ ∧
      c'.child ⟨1⟩ (.text "total") (.text "class") = .ok none ∧
      c'.methods ⟨1⟩ (.text "class") .null = .ok [] := by
  intro r act shop total s₁ s₂ s₃ s₄ s₅ c c'
  have hknown : ∀ {c : Catalog} {o : Origin} {n : EntityId}, o.owner? = some n →
      o.registry? = none → c.Knows n ∧ (c.entity n).isSpace = true → o.Known c :=
    fun ho hr hc => ⟨fun n h => Option.some.inj (ho.symm.trans h) ▸ hc,
      fun _ h => by cases hr.symm.trans h⟩
  have ho₃ : s₃.catalog.Opened r := ⟨by decide +kernel, by decide +kernel, by decide +kernel⟩
  have h₁ : s₁.Reachable := .single (.act (.openRegistry {}) trivial)
  have h₂ : s₂.Reachable := .tail h₁ (.act (.makeSpace shop) (hknown rfl rfl (by decide +kernel)))
  have h₃ : s₃.Reachable :=
    .tail h₂ (.act (.makeMethod total _) (hknown rfl rfl (by decide +kernel)))
  have h₄ : s₄.Reachable := .tail h₃ (.act (.register r ⟨2⟩) ⟨ho₃, by decide +kernel⟩)
  have h₅ : s₅.Reachable :=
    .tail h₄ (.act (.makeMethod total _) (hknown rfl rfl (by decide +kernel)))
  have hclass : Scope.ofValue? (.text "class") = some .onClass := by decide +kernel
  refine ⟨h₅, by decide +kernel, by decide +kernel, by decide +kernel, ?_, by decide +kernel,
    by decide +kernel, ?_, ?_⟩
  · have hanswer := setScope_answers ⟨2⟩ (.text "class") c
    rwa [hclass] at hanswer
  · rw [child_of_scope _ _ _ hclass]
    exact congrArg Except.ok (by decide +kernel)
  · rw [methods_of_scope _ _ hclass]
    exact congrArg Except.ok (by decide +kernel)

end Session

end DocCatalog
