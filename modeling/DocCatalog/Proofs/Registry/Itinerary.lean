/-
**Where a method goes when its scope changes again and again.**

Every change of scope takes a registered method from one of its two paths to the other, whoever is
held there.  Whom it drives out it drives out once: the path that it leaves is vacant from then on,
and it is to this path that it goes back.  So after any number of changes the method is held at its
own path and nowhere else, what is held at all other paths is what was held there before, and at
most one entity is gone.  A method that is not registered goes nowhere.

Main definitions:

* `Catalog.rescopes`: values given to a method for its scope, one after the other;
* `Catalog.stops`: the scopes that a method has in the course of them;
* `Catalog.Share.Travelled`: where a registered method is after a part of its course, and what it
  left.

Main results:

* `Catalog.Share.Travelled.move`, `Catalog.travelled_rescopes`: each change goes on with the course;
* `Catalog.size_entries`: how many entities a registry holds;
* `Session.rescoped_in_turn`: **a method after any number of changes of its scope**.
-/

import DocCatalog.Proofs.Registry.AuditTrail
import DocCatalog.Proofs.Registry.EmptyPath

set_option autoImplicit false

namespace DocCatalog

/-! ### The two paths of a method -/

namespace Separators

theorem methodSeparator_ne {s : Separators} (hs : s.Distinct) (owner : String) :
    s.methodSeparator .onClass owner ≠ s.methodSeparator .onInstance owner := by
  obtain ⟨-, -, -, hnested, hclass, -⟩ := hs
  simp only [methodSeparator]
  split
  · exact hnested.symm
  · exact hclass.symm

/-- A method has different paths in different scopes, whatever its name and its owner. -/
theorem methodPath_inj {s : Separators} (hs : s.Distinct) {name owner : String} {t u : Scope} :
    s.methodPath name owner t = s.methodPath name owner u ↔ t = u := by
  refine ⟨fun h => ?_, congrArg _⟩
  have hsep : s.methodSeparator t owner = s.methodSeparator u owner := by
    have h := congrArg String.toList h
    simp only [methodPath, String.toList_append, List.append_cancel_right_eq,
      List.append_cancel_left_eq] at h
    exact String.toList_injective h
  have hne := methodSeparator_ne hs owner
  cases t <;> cases u <;> simp_all

end Separators

namespace Catalog

variable {c : Catalog} {r : Registry} {m : EntityId} {t : Scope}

/-- A method by itself is a family. -/
theorem family_single (hc : c.WellFormed) (hk : c.KeysHold) (hr : c.Opened r) (hm : c.Knows m)
    (hh : (c.entity m).home = r) (hkind : (c.entity m).kind = .method) : Family r [m] c where
  wellFormed := hc
  keysHold := hk
  opened := hr
  knows := by simpa using hm
  home := by simpa using hh
  kind := by simpa using hkind
  apart := by
    have hne : (c.entity m).pathAt .onClass ≠ (c.entity m).pathAt .onInstance := fun h =>
      Scope.noConfusion ((Separators.methodPath_inj (c.entity m).home.config.distinct).1 h)
    simpa [pathsOf, Scope.all] using hne

/-- A registered method is found at its path. -/
theorem Family.lookup?_path {family : List EntityId} (h : Family r family c) (hm : m ∈ family)
    (hreg : c.isRegistered r m = true) : c.lookup? r (c.path m) = some m := by
  rw [lookup?, if_neg, of_decide_eq_true hreg]
  rw [h.path_eq hm]
  exact Separators.methodPath_ne_empty (c.entity m).home.config.distinct _ _ _

/-! ### Values for the scope, one after the other -/

/-- Values given to a method for its scope, one after the other. -/
def rescopes (c : Catalog) (m : EntityId) (values : List Value) : Catalog :=
  c.setScopes (values.map fun v => (m, v))

/-- The scopes that a method has in the course of some values: its own at first, and then whichever
a value spells. -/
def stops (c : Catalog) (m : EntityId) (values : List Value) : List Scope :=
  (c.entity m).scope?.toList ++ values.filterMap Scope.ofValue?

/-- A value that spells no scope is refused and changes nothing; every other is accepted. -/
theorem setScope_answers (m : EntityId) (v : Value) (c : Catalog) :
    match Scope.ofValue? v with
    | none => setScope m v c = (.error (.notScope v), c)
    | some _ => (setScope m v c).1 = .ok () := by
  unfold setScope
  cases Scope.ofValue? v with
  | none => rfl
  | some s =>
      show ((if (c.entity m).scope? = some s then pure ()
        else set (c.rescope m s) : Action Unit) c).1 = _
      split <;> rfl

/-! ### The course of a method -/

namespace Share

variable {m : EntityId} {start : Scope → Option EntityId} {stops : List Scope} {x : Share}

/-- Where a method is after some stops, the first of which is where it was registered: at the last
of them.  The others are vacant, and who was elsewhere at the start is there still. -/
structure Travelled (m : EntityId) (start : Scope → Option EntityId) (stops : List Scope)
    (x : Share) : Prop where
  last : stops.getLast? = some x.scope
  own : x.entry x.scope = some m
  left : ∀ t ∈ stops, t ≠ x.scope → x.entry t = none
  elsewhere : ∀ t ∉ stops, x.entry t = start t

/-- A method that is at its first stop. -/
theorem travelled_start (h : x.entry x.scope = some m) : Travelled m x.entry [x.scope] x where
  last := rfl
  own := h
  left _ ht hne := absurd (List.mem_singleton.1 ht) hne
  elsewhere _ _ := rfl

theorem Travelled.scope_mem (h : Travelled m start stops x) : x.scope ∈ stops :=
  List.mem_of_getLast? h.last

/-- **Each value goes on with the course.** -/
theorem Travelled.move (h : Travelled m start stops x) (v : Value) :
    Travelled m start (stops ++ (Scope.ofValue? v).toList) (x.move m v) := by
  unfold Share.move
  cases Scope.ofValue? v with
  | none => simpa using h
  | some s =>
      simp only [Option.toList_some]
      by_cases hs : x.scope = s
      · rw [if_pos hs]
        refine ⟨by simp [hs], h.own, fun t ht hne => ?_, fun t ht => ?_⟩
        · rcases List.mem_append.1 ht with ht | ht
          · exact h.left t ht hne
          · exact absurd (List.mem_singleton.1 ht) (hs ▸ hne)
        · exact h.elsewhere t fun hmem => ht (List.mem_append_left _ hmem)
      · rw [if_neg hs]
        have hentry : ∀ t, relocate m x.scope s x.entry t =
            if s = t then some m else if x.scope = t then none else x.entry t := fun t => by
          rw [relocate, if_pos h.own]
        refine ⟨by simp, (hentry s).trans (if_pos rfl), fun t ht hne => ?_, fun t ht => ?_⟩
        · have hmem : t ∈ stops := by simpa [show t ≠ s from hne] using ht
          refine (hentry t).trans ?_
          rw [if_neg (Ne.symm hne)]
          split
          · rfl
          · next hold => exact h.left t hmem (Ne.symm hold)
        · rw [List.mem_append, not_or, List.mem_singleton] at ht
          have hold : x.scope ≠ t := fun e => ht.1 (e ▸ h.scope_mem)
          refine (hentry t).trans ?_
          rw [if_neg (Ne.symm ht.2), if_neg hold]
          exact h.elsewhere t ht.1

theorem Travelled.foldl (values : List Value) : ∀ {stops : List Scope} {x : Share},
    Travelled m start stops x →
      Travelled m start (stops ++ values.filterMap Scope.ofValue?)
        (values.foldl (Share.move m) x) := by
  induction values with
  | nil => exact fun h => by simpa using h
  | cons v values ih =>
      intro stops x h
      have h' := ih (h.move v)
      rwa [List.append_assoc, show (Scope.ofValue? v).toList ++ values.filterMap Scope.ofValue? =
        (v :: values).filterMap Scope.ofValue? by cases hv : Scope.ofValue? v <;> simp [hv]] at h'

/-- How many of the places of a method are taken. -/
def taken (x : Share) : Nat := (Scope.all.filter fun t => (x.entry t).isSome).length

theorem taken_eq (x : Share) :
    x.taken = (x.entry .onClass).isSome.toNat + (x.entry .onInstance).isSome.toNat := by
  cases hc : (x.entry .onClass).isSome <;> cases hi : (x.entry .onInstance).isSome <;>
    simp [taken, Scope.all, hc, hi]

/-- A method drives out at most one other, and once. -/
theorem Travelled.taken {x₀ : Share} (h₀ : x₀.entry x₀.scope = some m)
    (h : Travelled m x₀.entry stops x) (hfirst : x₀.scope ∈ stops) :
    x.taken ≤ x₀.taken ∧ x₀.taken ≤ x.taken + 1 := by
  have hplaces : ∀ t, (x.entry t).isSome = true ↔
      t = x.scope ∨ (t ∉ stops ∧ (x₀.entry t).isSome = true) := by
    intro t
    by_cases hcur : t = x.scope
    · simp [hcur, h.own]
    · by_cases hmem : t ∈ stops
      · simp [hcur, hmem, h.left t hmem hcur]
      · simp [hcur, hmem, h.elsewhere t hmem]
  have hstart : (x₀.entry x₀.scope).isSome = true := by simp [h₀]
  rw [taken_eq, taken_eq]
  have hC := hplaces .onClass
  have hI := hplaces .onInstance
  revert hC hI hstart hfirst
  cases x.scope <;> cases x₀.scope <;>
    cases (x.entry .onClass).isSome <;> cases (x.entry .onInstance).isSome <;>
    cases (x₀.entry .onClass).isSome <;> cases (x₀.entry .onInstance).isSome <;> simp

/-- The scope of a method is the last that it was given, registered or not. -/
theorem getLast?_foldl_move (values : List Value) : ∀ x : Share,
    (x.scope :: values.filterMap Scope.ofValue?).getLast? =
      some (values.foldl (Share.move m) x).scope := by
  induction values with
  | nil => exact fun _ => rfl
  | cons v values ih =>
      intro x
      rw [List.foldl_cons, ← ih]
      cases hv : Scope.ofValue? v with
      | none => simp [Share.move, hv]
      | some s =>
          have hscope : (x.move m v).scope = s := by
            simp only [Share.move, hv]
            split
            · next hs => exact hs
            · rfl
          rw [List.filterMap_cons_some hv, hscope, List.getLast?_cons_cons]

end Share

/-! ### What a registry holds after them -/

section

variable (h : Family r [m] c)
include h

theorem stops_eq (values : List Value) :
    c.stops m values = (c.share m).scope :: values.filterMap Scope.ofValue? := by
  rw [stops, h.scope?_eq (List.mem_singleton_self m)]
  rfl

theorem family_rescopes (values : List Value) : Family r [m] (c.rescopes m values) :=
  h.setScopes (by simp)

theorem share_rescopes (values : List Value) :
    (c.rescopes m values).share m = values.foldl (Share.move m) (c.share m) := by
  have hmem : ∀ call ∈ values.map fun v => (m, v), call.1 ∈ [m] := by simp
  rw [rescopes, h.share_setScopes hmem (by simp)]
  congr 1
  simp [List.filter_map, Function.comp_def]

/-- **A registered method is where its last scope takes it.** -/
theorem travelled_rescopes (hreg : c.isRegistered r m = true) (values : List Value) :
    Share.Travelled m (c.share m).entry (c.stops m values) ((c.rescopes m values).share m) := by
  rw [stops_eq h, share_rescopes h]
  exact (Share.travelled_start ((h.isRegistered_iff (by simp)).1 hreg)).foldl values

/-- A method that is not registered leaves all registries as they are. -/
theorem stock_rescopes (hreg : c.isRegistered r m = false) (values : List Value) :
    (c.rescopes m values).stock = c.stock := by
  induction values generalizing c with
  | nil => rfl
  | cons v values ih =>
      have hm : m ∈ [m] := List.mem_singleton_self m
      have hkept : (c.setScopes [(m, v)]).isRegistered r m = c.isRegistered r m :=
        h.isRegistered_setScopes (by simp) hm
      have hreg' : (setScope m v c).2.isRegistered r m = false := hkept.trans hreg
      refine (ih (h.setScope hm v) hreg').trans ?_
      rw [setScope_eq]
      split
      · rfl
      · next s _ =>
          split
          · rfl
          · rw [← h.home m hm] at hreg
            have hnot : ¬ (c.openRekey (c.entity m).home m).1.wasRegistered = true := by
              simp [openRekey, hreg]
            rw [rescope_eq, closeRekey_of_not _ hnot, rescoped, stock_moveInOwner,
              stock_writeScope]
            simp [openRekey, hreg]

/-- A registry holds what is at the places of a method and what is elsewhere. -/
theorem size_entries : (c.entries r).size =
    ((c.entries r).keys.filter fun p => decide (p ∉ c.pathsOf [m])).length + (c.share m).taken := by
  have hkeys : (c.entries r).keys.Nodup := (c.entries r).nodup
  have hm : m ∈ [m] := List.mem_singleton_self m
  -- the keys that are the method's are its paths that are keys
  have hperm : ((c.entries r).keys.filter fun p => !decide (p ∉ c.pathsOf [m])).Perm
      ((c.pathsOf [m]).filter fun p => decide (p ∈ (c.entries r).keys)) := by
    refine (List.perm_ext_iff_of_nodup (hkeys.filter _) (h.apart.filter _)).2 fun p => ?_
    simp [List.mem_filter, and_comm]
  have htaken : ((c.pathsOf [m]).filter fun p => decide (p ∈ (c.entries r).keys)).length =
      (c.share m).taken := by
    rw [Share.taken, pathsOf, List.flatMap_singleton, List.filter_map, List.length_map]
    congr 1
    refine List.filter_congr fun t _ => ?_
    have hnone := (c.entries r).get?_eq_none_iff ((c.entity m).pathAt t)
    rw [entry_share, h.home m hm, Bool.eq_iff_iff, Function.comp_apply, decide_eq_true_eq,
      Option.isSome_iff_ne_none, Ne, hnone, not_not]
  rw [← htaken, ← hperm.length_eq, ← List.length_eq_length_filter_add]
  exact (List.length_map ..).symm

/-- A registered method drives out at most one entity, and takes nobody's place twice. -/
theorem size_rescopes (hreg : c.isRegistered r m = true) (values : List Value) :
    ((c.rescopes m values).entries r).size ≤ (c.entries r).size ∧
      (c.entries r).size ≤ ((c.rescopes m values).entries r).size + 1 := by
  have h' := family_rescopes h values
  have hkeys : ∀ d : Catalog, (d.entries r).keys.Nodup := fun d => (d.entries r).nodup
  have hpaths : (c.rescopes m values).pathsOf [m] = c.pathsOf [m] :=
    pathsOf_eq_of_settled (c.settled_setScopes _) [m]
  have helsewhere : (((c.rescopes m values).entries r).keys.filter
      fun p => decide (p ∉ c.pathsOf [m])).Perm
        ((c.entries r).keys.filter fun p => decide (p ∉ c.pathsOf [m])) := by
    refine (List.perm_ext_iff_of_nodup ((hkeys _).filter _) ((hkeys c).filter _)).2 fun p => ?_
    simp only [List.mem_filter, decide_eq_true_eq]
    refine and_congr_left fun hp => not_iff_not.1 ?_
    rw [← OrderedTable.get?_eq_none_iff, ← OrderedTable.get?_eq_none_iff, rescopes,
      h.get?_entries_setScopes (by simp) fun _ => hp]
  have htaken := (travelled_rescopes h hreg values).taken ((h.isRegistered_iff (by simp)).1 hreg)
    (by rw [stops_eq h]; exact List.mem_cons_self)
  rw [size_entries h, size_entries h', hpaths, helsewhere.length_eq]
  omega

end

end Catalog

/-! ### Sessions -/

namespace Session

open Catalog

variable {s : Session} {r : Registry} {m : EntityId}

/-- **A method after any number of changes of its scope.**  In every session that can be come to, a
value that spells no scope is refused and changes nothing, and the method ends with the last scope
that was spelled.  If it is registered, it is found at its path and held at no other; its path in
the other scope is another one, and vacant if the method was ever there; all that is held at paths
that are not the method's stays; and at most one entity is gone.  If it is not registered, no
registry changes. -/
theorem rescoped_in_turn (hs : s.Reachable) (hr : s.catalog.Opened r) (hm : s.catalog.Knows m)
    (hh : (s.catalog.entity m).home = r) (hkind : (s.catalog.entity m).kind = .method)
    (values : List Value) :
    let c := s.catalog
    let c' := c.rescopes m values
    (∀ d v, match Scope.ofValue? v with
      | none => setScope m v d = (.error (.notScope v), d) ∧
          (Fault.notScope v).word = "InvalidFieldValue"
      | some _ => (setScope m v d).1 = .ok ()) ∧
    (c'.entity m).scope? = (c.stops m values).getLast? ∧
    (c.isRegistered r m = true →
      c'.lookup? r (c'.path m) = some m ∧
      (∀ p, (c'.entries r).get? p = some m ↔ p = c'.path m) ∧
      (∀ t, (c'.entity m).scope? ≠ some t → (c'.entity m).pathAt t ≠ c'.path m ∧
        (t ∈ c.stops m values → (c'.entries r).get? ((c'.entity m).pathAt t) = none)) ∧
      (∀ r' p, (r.index = r'.index → ∀ t, (c.entity m).pathAt t ≠ p) →
        (c'.entries r').get? p = (c.entries r').get? p) ∧
      (c'.entries r).size ≤ (c.entries r).size ∧
      (c.entries r).size ≤ (c'.entries r).size + 1) ∧
    (c.isRegistered r m = false → ∀ r', c'.entries r' = c.entries r') := by
  intro c c'
  obtain ⟨hwf, hkeys, -⟩ := Reachable.sound hs
  have hf : Family r [m] c := family_single hwf hkeys hr hm hh hkind
  have hf' : Family r [m] c' := family_rescopes hf values
  have hmem : m ∈ [m] := List.mem_singleton_self m
  have hscope : (c'.entity m).scope? = (c.stops m values).getLast? := by
    rw [hf'.scope?_eq hmem, share_rescopes hf, stops_eq hf, Share.getLast?_foldl_move]
  refine ⟨fun d v => ?_, hscope, fun hreg => ?_, fun hreg r' => ?_⟩
  · have hanswers := setScope_answers m v d
    split at hanswers
    · exact ⟨hanswers, rfl⟩
    · exact hanswers
  · have hcourse := travelled_rescopes hf hreg values
    have hentry : ∀ t, (c'.share m).entry t = (c'.entries r).get? ((c'.entity m).pathAt t) :=
      fun t => by rw [entry_share, hf'.home m hmem]
    have hown : (c'.entries r).get? (c'.path m) = some m := by
      rw [hf'.path_eq hmem, ← hentry]
      exact hcourse.own
    refine ⟨?_, fun p => ⟨fun hp => (hf'.keysHold.path_eq hp).symm, fun hp => hp ▸ hown⟩,
      fun t ht => ⟨fun hp => ?_, fun hstop => ?_⟩, fun r' p hp => ?_, size_rescopes hf hreg values⟩
    · exact hf'.lookup?_path hmem (decide_eq_true hown)
    · rw [hf'.path_eq hmem, hf'.pathAt_inj hmem] at hp
      exact ht (hp ▸ hf'.scope?_eq hmem)
    · rw [← hentry]
      refine hcourse.left t hstop fun hcur => ht ?_
      rw [hcur]
      exact hf'.scope?_eq hmem
    · refine hf.get?_entries_setScopes (by simp) fun hi hp' => ?_
      obtain ⟨e, he, t, ht⟩ := mem_pathsOf.1 hp'
      rw [List.mem_singleton.1 he] at ht
      exact hp hi t ht
  · exact entries_congr (stock_rescopes hf hreg values) r'

/-- A method of the class that goes to the instances, where it drives another method out, is refused
what is no scope, and comes back. -/
theorem rescoped_in_turn_returning :
    let r : Registry := ⟨0, {}⟩
    let act (s : Session) (op : Operation) : Session :=
      { s with catalog := (op.action s.catalog).2 }
    let method (scope : Scope) : Operation :=
      .makeMethod { owner? := some ⟨0⟩, name := .text "run" } (.scope scope)
    let s₁ := act {} (.openRegistry {})
    let s₂ := act s₁ (method .onClass)
    let s₃ := act s₂ (.register r ⟨1⟩)
    let s₄ := act s₃ (method .onInstance)
    let s₅ := act s₄ (.register r ⟨2⟩)
    let values : List Value := [.text "instance", .text "static", .scope .onClass]
    s₅.Reachable ∧ s₅.catalog.paths r = ["::run", "#run"] ∧
      s₅.catalog.isRegistered r ⟨1⟩ = true ∧
      s₅.catalog.stops ⟨1⟩ values = [.onClass, .onInstance, .onClass] ∧
      (s₅.catalog.rescopes ⟨1⟩ values).paths r = ["::run"] ∧
      (s₅.catalog.rescopes ⟨1⟩ values).lookup? r "::run" = some ⟨1⟩ ∧
      ((s₅.catalog.rescopes ⟨1⟩ values).entries r).get? "#run" = none := by
  intro r act method s₁ s₂ s₃ s₄ s₅ values
  have hmake : ∀ {s : Session} (scope : Scope), s.Reachable →
      s.catalog.Knows ⟨0⟩ ∧ (s.catalog.entity ⟨0⟩).isSpace = true →
        (act s (method scope)).Reachable := fun _ hs howner =>
    .tail hs (.act _ ⟨fun n h => by cases h; exact howner, fun _ h => by cases h⟩)
  have ho₂ : s₂.catalog.Opened r := ⟨by decide +kernel, by decide +kernel, by decide +kernel⟩
  have ho₄ : s₄.catalog.Opened r := ⟨by decide +kernel, by decide +kernel, by decide +kernel⟩
  have ho₅ : s₅.catalog.Opened r := ⟨by decide +kernel, by decide +kernel, by decide +kernel⟩
  have h₁ : s₁.Reachable := .single (.act (.openRegistry {}) trivial)
  have h₂ : s₂.Reachable := hmake _ h₁ (by decide +kernel)
  have h₃ : s₃.Reachable := .tail h₂ (.act (.register r ⟨1⟩) ⟨ho₂, by decide +kernel⟩)
  have h₄ : s₄.Reachable := hmake _ h₃ (by decide +kernel)
  have h₅ : s₅.Reachable := .tail h₄ (.act (.register r ⟨2⟩) ⟨ho₄, by decide +kernel⟩)
  have hreg : s₅.catalog.isRegistered r ⟨1⟩ = true := by decide +kernel
  have hstops : s₅.catalog.stops ⟨1⟩ values = [.onClass, .onInstance, .onClass] := by
    decide +kernel
  obtain ⟨-, hscope, hheld, -⟩ := rescoped_in_turn h₅ ho₅ (by decide +kernel : s₅.catalog.Knows ⟨1⟩)
    (by decide +kernel) (by decide +kernel) values
  obtain ⟨hlookup, -, hother, -⟩ := hheld hreg
  rw [hstops] at hscope hother
  have hpath : (s₅.catalog.rescopes ⟨1⟩ values).path ⟨1⟩ = "::run" := by decide +kernel
  have hleft : ((s₅.catalog.rescopes ⟨1⟩ values).entity ⟨1⟩).pathAt .onInstance = "#run" := by
    decide +kernel
  refine ⟨h₅, by decide +kernel, hreg, hstops, by decide +kernel, hpath ▸ hlookup, ?_⟩
  exact hleft ▸ (hother .onInstance (by rw [hscope]; decide)).2 (by decide)

end Session

end DocCatalog
