/-
**What holds all through the loading of a manifest.**

Loading walks to a namespace and makes what is missing on the way, makes a method there, describes
and registers it, or writes something down.  A property that a registry is to keep through all of
this is a matter of three of these steps: describing and writing down touch one entity at a time,
and reading the manifest touches nothing.  So the walk through the loader is made here once, for any
property, and for what is left when it stops on the way.  Where the property need not hold is after
a method is made and before it is registered, and there loading can stop: that is the one place at
which what is left may be of another kind.

Main definitions:

* `Manifest.Refuses`: a reading fails with a problem of its section only;
* `Manifest.Malformed`: the problems for which a manifest is refused, by where they arise;
* `Manifest.Course`: what the steps of loading keep, and what is left where they stop;
* `Manifest.Upheld`: what the steps of loading keep wherever they stop, and what their faults are.

Main results:

* `Manifest.text_refuses`, `Manifest.place?_refuses` and their like: the fault of every reading;
* `Manifest.Course.ends_loadEntry`: an entry keeps what it is to keep, or stops as it may;
* `Manifest.Course.ends_load`: **so does a whole manifest**;
* `Manifest.Upheld.ends_load`: **a whole manifest keeps what is upheld, wherever it stops**.
-/

import DocCatalog.Proofs.Catalog.Ending
import DocCatalog.Proofs.Manifest.Acceptance

set_option autoImplicit false

namespace DocCatalog.Manifest

open Catalog
open DocCatalog.Action (Ends)

variable {c c' : Catalog} {r : Registry} {e n m : EntityId} {entry : Fields} {part : Part}
  {data : Value}

/-! ### The faults of reading -/

/-- A problem of a section, of which an empty segment on the way to a namespace is none. -/
def RefusedIn (part : Part) (fault : Fault) : Prop :=
  ∃ problem, (∀ path, problem ≠ .emptySegment path) ∧ fault = .manifest problem (some part)

/-- A reading fails with a problem of its section only. -/
def Refuses {α : Type} (part : Part) (q : Except Fault α) : Prop :=
  ∀ fault, q = .error fault → RefusedIn part fault

theorem refuses_ok {α : Type} (x : α) : Refuses part (.ok x) := fun _ h => nomatch h

theorem refuses_refuse {α : Type} {problem : Problem} (h : ∀ path, problem ≠ .emptySegment path) :
    Refuses part (refuse part problem : Except Fault α) := by
  rintro fault ⟨⟩
  exact ⟨problem, h, rfl⟩

theorem Refuses.map {α β : Type} {q : Except Fault α} (h : Refuses part q) (f : α → β) :
    Refuses part (q.map f) := by
  cases q with
  | ok x => exact refuses_ok (f x)
  | error fault =>
      rintro _ ⟨⟩
      exact h fault rfl

theorem textOf_refuses (key : String) (v : Value) : Refuses part (textOf key part v) := by
  cases v with
  | text s => exact refuses_ok s
  | _ => exact refuses_refuse nofun

theorem text_refuses (entry : Fields) (key : String) : Refuses part (text entry key part) := by
  unfold text
  split
  · exact textOf_refuses key _
  · exact refuses_refuse nofun

theorem textOr_refuses (default : String) (entry : Fields) (key : String) :
    Refuses part (textOr default entry key part) := by
  unfold textOr
  split
  · exact textOf_refuses key _
  · exact refuses_ok default

theorem textOrNull_refuses (entry : Fields) (key : String) :
    Refuses part (textOrNull entry key part) := by
  unfold textOrNull
  split
  · exact refuses_ok none
  · exact refuses_ok none
  · exact (textOf_refuses key _).map some

theorem parameters_refuses (entry : Fields) : Refuses .methods (parameters entry) := by
  unfold parameters
  split
  · split
    · exact refuses_refuse nofun
    · exact refuses_ok _
  · exact refuses_refuse nofun

theorem place?_refuses (entry : Fields) : Refuses part (place? entry part) := by
  unfold place?
  split
  · exact refuses_ok none
  · simp only
    split
    · exact (textOf_refuses "file" _).map _
    · exact refuses_refuse nofun

theorem methodAt_refuses (c : Catalog) (r : Registry) (p : String) :
    Refuses part (methodAt c r p part) := by
  unfold methodAt
  split
  · exact refuses_refuse nofun
  · split
    · exact refuses_ok _
    · exact refuses_refuse nofun

theorem methodAt?_refuses (c : Catalog) (r : Registry) (path? : Option String) :
    Refuses part (methodAt? c r path? part) := by
  cases path? with
  | none => exact refuses_ok none
  | some p => exact (methodAt_refuses c r p).map some

theorem entriesOf_refuses (fields : Fields) : Refuses part (entriesOf fields part) := by
  unfold entriesOf
  split
  · exact refuses_ok []
  · split
    · exact refuses_ok _
    · exact refuses_refuse nofun
  · exact refuses_refuse nofun

/-- What is no manifest at all is refused as a whole. -/
theorem sections_eq_error {fault : Fault} (h : sections data = .error fault) :
    ∃ problem, fault = .manifest problem none := by
  unfold sections at h
  split at h
  · simp only at h
    split at h
    · cases h
    · cases h
      exact ⟨_, rfl⟩
  · cases h
    exact ⟨_, rfl⟩

/-- The problems for which a manifest is refused, and where in the manifest each arises: in the
manifest as a whole, in a section, in what an entry says, or in the path of an entry's namespace. -/
inductive Malformed (r : Registry) (data : Value) : Fault → Prop where
  | whole {fault : Fault} (h : sections data = .error fault) : Malformed r data fault
  | unlisted {fields : Fields} {part : Part} {fault : Fault} (hfields : sections data = .ok fields)
      (h : entriesOf fields part = .error fault) : Malformed r data fault
  | misstated {part : Part} {entry : Fields} {fault : Fault} (hentry : entry ∈ entriesIn data part)
      (h : RefusedIn part fault) : Malformed r data fault
  | segment {part : Part} {entry : Fields} {path : String} (hentry : entry ∈ entriesIn data part)
      (hpath : spaceOf part entry = path) (h : "" ∈ spaceNames r path) :
      Malformed r data (.manifest (.emptySegment path) (some .namespaces))

theorem Malformed.manifest {fault : Fault} (h : Malformed r data fault) :
    ∃ problem part?, fault = .manifest problem part? := by
  cases h with
  | whole h =>
      obtain ⟨problem, rfl⟩ := sections_eq_error h
      exact ⟨problem, none, rfl⟩
  | unlisted hfields h =>
      obtain ⟨problem, -, rfl⟩ := entriesOf_refuses _ _ h
      exact ⟨problem, _, rfl⟩
  | misstated hentry h =>
      obtain ⟨problem, -, rfl⟩ := h
      exact ⟨problem, _, rfl⟩
  | segment => exact ⟨_, _, rfl⟩

/-! ### Steps that touch one entity -/

/-- The faults of a description: a problem of the section, or a visibility that is none. -/
def RefusedDescription (entry : Fields) (fault : Fault) : Prop :=
  RefusedIn .methods fault ∨
    ∃ v, Value.field? entry "visibility" = some v ∧ Visibility.ofValue? v = none ∧
      fault = .notVisibility v

/-- The faults for which a description is refused: a visibility that is none, or a problem of the
section. -/
def Misdescribes (entry : Fields) (fault : Fault) : Prop :=
  (∃ problem, fault = .manifest problem (some .methods)) ∨
    ∃ v, Value.field? entry "visibility" = some v ∧ Visibility.ofValue? v = none ∧
      fault = .notVisibility v

theorem RefusedDescription.misdescribes {fault : Fault} (h : RefusedDescription entry fault) :
    Misdescribes entry fault := by
  rcases h with ⟨problem, -, rfl⟩ | h
  · exact .inl ⟨problem, rfl⟩
  · exact .inr h

section Describing

variable {P : Catalog → Prop} (hP : ∀ {e c c'}, Retouches e c c' → P c → P c')
include hP

/-- Documentation and place keep what a touch of one entity keeps. -/
theorem ends_annotate (hc : P c) : (annotate e entry part).Ends c (fun _ => P)
    fun fault c' => RefusedIn part fault ∧ P c' := by
  have hdocument : (document e entry part).Ends c (fun _ => P)
      fun fault c' => RefusedIn part fault ∧ P c' := by
    unfold document
    split
    · refine .bind (Q := fun _ => P)
        (.lift (fun _ _ => hc) fun fault hf => ⟨text_refuses _ _ fault hf, hc⟩) ?_
      exact fun docstring c' hc' => .change (hP (.update c' e (fun _ => rfl) fun _ => rfl) hc')
    · exact .pure hc
  refine .bind hdocument fun _ c' hc' => ?_
  refine .bind (Q := fun _ => P)
    (.lift (fun _ _ => hc') fun fault hf => ⟨place?_refuses _ fault hf, hc'⟩) ?_
  intro place c'' hc''
  split
  · exact .change (hP (.update c'' e (fun x => x.identity_addFile _ _) fun x => x.slots_addFile _ _)
      hc'')
  · exact .pure hc''

/-- A description keeps what a touch of one entity keeps, and is stopped by a visibility that is
none or by a problem of its section. -/
theorem ends_describe (hc : P c) : (describe m entry).Ends c (fun _ => P)
    fun fault c' => RefusedDescription entry fault ∧ P c' := by
  have hexpose : (expose m entry).Ends c (fun _ => P) fun fault c' =>
      (∃ v, Value.field? entry "visibility" = some v ∧ Visibility.ofValue? v = none ∧
        fault = .notVisibility v) ∧ P c' := by
    unfold expose setVisibility
    split
    · next v hv =>
        split
        · next hno => exact .throw ⟨⟨v, hv, hno, rfl⟩, hc⟩
        · exact .change (hP (retouches_updateMethod c m fun _ => rfl) hc)
    · exact .pure hc
  refine .bind (hexpose.mono (fun _ _ h => h) fun _ _ h => ⟨.inr h.1, h.2⟩) fun _ c₁ hc₁ => ?_
  refine .bind (Q := fun items c₂ => parameters entry = .ok items ∧ P c₂)
    (.lift (fun items hi => ⟨hi, hc₁⟩) fun fault hf =>
      ⟨.inl (parameters_refuses _ fault hf), hc₁⟩) ?_
  -- what is found right as parameters is never refused where it is set
  rintro items c₂ ⟨hitems, hc₂⟩
  obtain ⟨ps, hps⟩ := ofItems_of_isParameter (isParameter_of_parameters hitems)
  have hset : (setParameters m (.list items)).Ends c₂ (fun _ => P) fun _ _ => False := by
    have hvalue : Parameter.ofValue (.list items) = .ok ps := hps
    rw [setParameters, hvalue]
    exact .change (hP (retouches_updateMethod c₂ m fun _ => rfl) hc₂)
  refine .bind (hset.mono (fun _ _ h => h) fun _ _ h => h.elim) fun _ c₃ hc₃ => ?_
  refine .bind (Q := fun _ => P) (.change (hP (retouches_updateMethod c₃ m fun _ => rfl) hc₃)) ?_
  exact fun _ c₄ hc₄ => (ends_annotate hP hc₄).mono (fun _ _ h => h) fun _ _ h => ⟨.inl h.1, h.2⟩

end Describing

theorem ends_addAttribute (c : Catalog) (n : EntityId) (scope : Value) (name : String)
    (read write : Option EntityId) : (addAttribute n scope (.text name) read write).Ends c
      (fun _ c' => Retouches n c c') fun fault c' =>
        Scope.ofValue? scope = none ∧ fault = .notScope scope ∧ c' = c := by
  cases hs : Scope.ofValue? scope with
  | none =>
      unfold addAttribute
      rw [hs]
      exact .throw ⟨rfl, rfl, rfl⟩
  | some s =>
      refine Action.ends_iff.2 ⟨fun a c' hok => (addAttribute_eq_ok hok).1, fun fault c' hf => ?_⟩
      unfold addAttribute at hf
      rw [hs] at hf
      cases hf

/-! ### The course of loading -/

/-- What holds of the namespaces that loading comes to holds of the root, from which it goes on. -/
abbrev Rooted (r : Registry) (I : EntityId → Catalog → Prop) (c : Catalog) : Prop := I (c.root r) c

/-- Coming to the namespace of a path, given that every name on the way is come to. -/
theorem ends_ensureNamespace {I : EntityId → Catalog → Prop} {S : Fault → Catalog → Prop}
    {path : String} (hempty : "" ∈ spaceNames r path → ∀ {n c}, I n c →
      S (.manifest (.emptySegment path) (some .namespaces)) c)
    (hnested : ∀ name ∈ spaceNames r path, name ≠ "" → ∀ {n c}, I n c →
      (ensureNested r n name).Ends c I S)
    (hroot : Rooted r I c) : (ensureNamespace r path).Ends c I S := by
  unfold spaceNames at hempty hnested
  refine Ends.get ?_
  split
  · exact .pure hroot
  · next hpath =>
      rw [if_neg hpath] at hempty hnested
      refine .foldlM (fun name hmem n c hn => ?_) hroot
      split
      · next hname => exact .throw (hempty (hname ▸ hmem) hn)
      · next hname => exact hnested name hmem hname hn

/-- What holds of a namespace that loading comes to, what holds of a method that is made as an entry
says and is not registered yet, and what is left where loading stops. -/
structure Course (r : Registry) (data : Value) (I : EntityId → Catalog → Prop)
    (J : Fields → EntityId → Catalog → Prop) (S : Fault → Catalog → Prop) : Prop where
  root : ∀ {n c}, I n c → Rooted r I c
  retouch : ∀ {e n c c'}, Retouches e c c' → I n c → I n c'
  made_retouch : ∀ {entry e m c c'}, Retouches e c c' → J entry m c → J entry m c'
  nested : ∀ {part entry n c name}, entry ∈ entriesIn data part →
    name ∈ spaceNames r (spaceOf part entry) → name ≠ "" → I n c →
    (ensureNested r n name).Ends c I S
  make : ∀ {n c entry name}, entry ∈ entriesIn data .methods →
    Value.field? entry "name" = some (.text name) → I n c →
    (makeMethod { owner? := some n, name := .text name } (scopeField entry)).Ends c (J entry) S
  register : ∀ {entry m c}, J entry m c → (register r m).Ends c (fun _ => Rooted r I) S
  malformed : ∀ {n c fault}, Malformed r data fault → I n c → S fault c
  scope : ∀ {n c entry}, entry ∈ entriesIn data .attributes → scopeOf? entry = none → I n c →
    S (.notScope (scopeField entry)) c
  /-- Loading stops after a method is made and before it is registered. -/
  misdescribed : ∀ {m c entry fault}, entry ∈ entriesIn data .methods → ¬ Described entry →
    RefusedDescription entry fault → J entry m c → S fault c

namespace Course

variable {I : EntityId → Catalog → Prop} {J : Fields → EntityId → Catalog → Prop}
  {S : Fault → Catalog → Prop} (h : Course r data I J S)
include h

theorem ends_lift {α : Type} {q : Except Fault α} (hentry : entry ∈ entriesIn data part)
    (hq : Refuses part q) (hn : I n c) :
    (liftM q : Action α).Ends c (fun x c' => q = .ok x ∧ I n c') S :=
  .lift (fun _ hx => ⟨hx, hn⟩) fun fault hf => h.malformed (.misstated hentry (hq fault hf)) hn

/-- Coming to the namespace that an entry is about or in. -/
theorem ends_arrive (hentry : entry ∈ entriesIn data part) {path : String}
    (hpath : spaceOf part entry = path) (hroot : Rooted r I c) :
    (ensureNamespace r path).Ends c I S :=
  ends_ensureNamespace (fun hempty _ _ hn => h.malformed (.segment hentry hpath hempty) hn)
    (fun _ hmem hname _ _ hn => h.nested hentry (hpath.symm ▸ hmem) hname hn) hroot

theorem ends_annotate (hentry : entry ∈ entriesIn data part) (hn : I n c) :
    (annotate e entry part).Ends c (fun _ => I n) S :=
  (Manifest.ends_annotate h.retouch hn).mono (fun _ _ hn => hn)
    fun _ _ hf => h.malformed (.misstated hentry hf.1) hf.2

theorem ends_describe (hentry : entry ∈ entriesIn data .methods) (hm : J entry m c) :
    (describe m entry).Ends c (fun _ => J entry m) S := by
  have hends : (describe m entry).Ends c (fun _ => J entry m)
      fun fault c' => RefusedDescription entry fault ∧ J entry m c' :=
    Manifest.ends_describe h.made_retouch hm
  rw [Action.ends_iff] at hends ⊢
  refine ⟨hends.1, fun fault c' hf => ?_⟩
  obtain ⟨hfault, hm⟩ := hends.2 fault c' hf
  refine h.misdescribed hentry (fun hdescribed => ?_) hfault hm
  -- a description that can be read is not refused
  obtain ⟨_, c₁, hok⟩ := describe_succeeds_iff.2 hdescribed
  exact nomatch hf.symm.trans hok

theorem ends_loadNamespace (hentry : entry ∈ entriesIn data .namespaces) (hroot : Rooted r I c) :
    (loadNamespace r entry).Ends c (fun _ => Rooted r I) S := by
  refine .bind (h.ends_lift hentry (text_refuses _ _) hroot) ?_
  rintro path c₁ ⟨hpath, h₁⟩
  refine .bind (h.ends_arrive hentry (spaceOf_of_text hpath) (h.root h₁)) fun n c₂ hn => ?_
  exact (h.ends_annotate hentry hn).mono (fun _ _ hn => h.root hn) fun _ _ hf => hf

theorem ends_loadMethod (hentry : entry ∈ entriesIn data .methods) (hroot : Rooted r I c) :
    (loadMethod r entry).Ends c (fun _ => Rooted r I) S := by
  refine .bind (h.ends_lift hentry (textOr_refuses _ _ _) hroot) ?_
  rintro path c₁ ⟨hpath, h₁⟩
  refine .bind (h.ends_arrive hentry (spaceOf_of_textOr (by simp) hpath) (h.root h₁))
    fun n c₂ hn => ?_
  refine .bind (h.ends_lift hentry (text_refuses _ _) hn) ?_
  rintro name c₃ ⟨hname, hn⟩
  refine .bind (h.make hentry (text_eq_ok hname) hn) fun m c₄ hm => ?_
  exact .bind (h.ends_describe hentry hm) fun _ c₅ hm => h.register hm

theorem ends_loadAttribute (hentry : entry ∈ entriesIn data .attributes) (hroot : Rooted r I c) :
    (loadAttribute r entry).Ends c (fun _ => Rooted r I) S := by
  refine .bind (h.ends_lift hentry (textOr_refuses _ _ _) hroot) ?_
  rintro path c₁ ⟨hpath, h₁⟩
  refine .bind (h.ends_arrive hentry (spaceOf_of_textOr (by simp) hpath) (h.root h₁))
    fun n c₂ hn => ?_
  refine .bind (h.ends_lift hentry (text_refuses _ _) hn) ?_
  rintro name c₃ ⟨-, hn⟩
  refine .get (.bind (h.ends_lift hentry (textOrNull_refuses _ _) hn) ?_)
  rintro readPath? c₄ ⟨-, hn⟩
  refine .bind (h.ends_lift hentry (methodAt?_refuses c₃ r readPath?) hn) ?_
  rintro read c₅ ⟨-, hn⟩
  refine .get (.bind (h.ends_lift hentry (textOrNull_refuses _ _) hn) ?_)
  rintro writePath? c₆ ⟨-, hn⟩
  refine .bind (h.ends_lift hentry (methodAt?_refuses c₅ r writePath?) hn) ?_
  rintro write c₇ ⟨-, hn⟩
  refine .bind (Q := fun _ c' => I n c')
    ((ends_addAttribute c₇ n _ name read write).mono (fun _ _ ht => h.retouch ht hn) ?_)
    fun _ _ hn => .pure (h.root hn)
  rintro fault c₈ ⟨hno, rfl, rfl⟩
  exact h.scope hentry hno hn

theorem ends_loadAlias (hentry : entry ∈ entriesIn data .aliases) (hroot : Rooted r I c) :
    (loadAlias r entry).Ends c (fun _ => Rooted r I) S := by
  refine .bind (h.ends_lift hentry (textOr_refuses _ _ _) hroot) ?_
  rintro path c₁ ⟨hpath, h₁⟩
  refine .bind (h.ends_arrive hentry (spaceOf_of_textOr (by simp) hpath) (h.root h₁))
    fun n c₂ hn => ?_
  refine .get (.bind (h.ends_lift hentry (text_refuses _ _) hn) ?_)
  rintro target c₃ ⟨-, hn⟩
  refine .bind (h.ends_lift hentry (methodAt_refuses c₂ r target) hn) ?_
  rintro m c₄ ⟨-, hn⟩
  refine .bind (h.ends_lift hentry (text_refuses _ _) hn) ?_
  rintro name c₅ ⟨-, hn⟩
  exact .change (h.root (h.retouch (retouches_updateTables c₅ n fun _ => rfl) hn))

/-- An entry keeps what it is to keep, or stops as it may. -/
theorem ends_loadEntry (hentry : entry ∈ entriesIn data part) (hroot : Rooted r I c) :
    (loadEntry r part entry).Ends c (fun _ => Rooted r I) S := by
  cases part with
  | namespaces => exact h.ends_loadNamespace hentry hroot
  | methods => exact h.ends_loadMethod hentry hroot
  | attributes => exact h.ends_loadAttribute hentry hroot
  | aliases => exact h.ends_loadAlias hentry hroot

theorem ends_loadParts {fields : Fields} (hfields : sections data = .ok fields)
    (hroot : Rooted r I c) : (loadParts r fields).Ends c (fun _ => Rooted r I) S := by
  have hpart : ∀ part ∈ Part.all, ∀ c, Rooted r I c →
      (loadPart r fields part).Ends c (fun _ => Rooted r I) S := by
    intro part _ c hc
    refine .bind (Q := fun entries c' => entriesOf fields part = .ok entries ∧ Rooted r I c')
      (.lift (fun entries hx => ⟨hx, hc⟩) fun fault hf => h.malformed (.unlisted hfields hf) hc) ?_
    rintro entries c₁ ⟨hentries, h₁⟩
    have hin : entriesIn data part = entries := by simp [entriesIn, hfields, hentries]
    refine .forM (P := Rooted r I) (fun entry he c hc => ?_) (h.root h₁)
    exact h.ends_loadEntry (hin ▸ he) hc
  refine .bind (.forM (P := Rooted r I) hpart hroot) fun _ c₁ h₁ => ?_
  exact .change (h.root (h.retouch (.note c₁ r _ (c₁.root r)) h₁))

/-- **A manifest keeps what it is to keep, or stops as it may.** -/
theorem ends_load (hroot : Rooted r I c) : (load r data).Ends c (fun _ => Rooted r I) S := by
  refine .bind (Q := fun fields c' => sections data = .ok fields ∧ Rooted r I c')
    (.lift (fun fields hf => ⟨hf, hroot⟩) fun fault hf => h.malformed (.whole hf) hroot) ?_
  rintro fields c₁ ⟨hfields, h₁⟩
  exact h.ends_loadParts hfields h₁

end Course

/-! ### What is upheld -/

/-- Loading stops with a fault of some kind, and can go on from the root at another time. -/
abbrev Stopped (r : Registry) (I : EntityId → Catalog → Prop) (E : Fault → Prop) (fault : Fault)
    (c : Catalog) : Prop := E fault ∧ Rooted r I c

/-- What holds of a namespace that loading comes to, what holds of a method that is made and not
registered yet, and what holds of every fault. -/
structure Upheld (r : Registry) (data : Value) (I J : EntityId → Catalog → Prop)
    (E : Fault → Prop) : Prop where
  root : ∀ {n c}, I n c → Rooted r I c
  made_root : ∀ {m c}, J m c → Rooted r I c
  retouch : ∀ {e n c c'}, Retouches e c c' → I n c → I n c'
  made_retouch : ∀ {e m c c'}, Retouches e c c' → J m c → J m c'
  nested : ∀ {n c name}, name ≠ "" → I n c →
    (ensureNested r n name).Ends c I (Stopped r I E)
  make : ∀ {n c name entry}, entry ∈ entriesIn data .methods → I n c →
    (makeMethod { owner? := some n, name := .text name } (scopeField entry)).Ends c J
      (Stopped r I E)
  register : ∀ {m c}, J m c → (register r m).Ends c (fun _ => Rooted r I) (Stopped r I E)
  malformed : ∀ problem part?, E (.manifest problem part?)
  scope : ∀ {entry}, entry ∈ entriesIn data .attributes → scopeOf? entry = none →
    E (.notScope (scopeField entry))
  visibility : ∀ {entry v}, entry ∈ entriesIn data .methods →
    Value.field? entry "visibility" = some v → Visibility.ofValue? v = none → E (.notVisibility v)

namespace Upheld

variable {I J : EntityId → Catalog → Prop} {E : Fault → Prop} (h : Upheld r data I J E)
include h

theorem course : Course r data I (fun _ => J) (Stopped r I E) where
  root := h.root
  retouch := h.retouch
  made_retouch := h.made_retouch
  nested _ _ hname hn := h.nested hname hn
  make hentry _ hn := h.make hentry hn
  register := h.register
  malformed := by
    intro n c fault hfault hn
    obtain ⟨problem, part?, rfl⟩ := hfault.manifest
    exact ⟨h.malformed problem part?, h.root hn⟩
  scope hentry hno hn := ⟨h.scope hentry hno, h.root hn⟩
  misdescribed := by
    rintro m c entry fault hentry - (⟨problem, -, rfl⟩ | ⟨v, hv, hno, rfl⟩) hm
    · exact ⟨h.malformed _ _, h.made_root hm⟩
    · exact ⟨h.visibility hentry hv hno, h.made_root hm⟩

theorem ends_ensureNamespace (hroot : Rooted r I c) (path : String) :
    (ensureNamespace r path).Ends c I (Stopped r I E) :=
  Manifest.ends_ensureNamespace (fun _ _ _ hn => ⟨h.malformed _ _, h.root hn⟩)
    (fun _ _ hname _ _ hn => h.nested hname hn) hroot

theorem ends_loadParts {fields : Fields} (hfields : sections data = .ok fields)
    (hroot : Rooted r I c) : (loadParts r fields).Ends c (fun _ => Rooted r I) (Stopped r I E) :=
  h.course.ends_loadParts hfields hroot

/-- **A manifest keeps what is upheld, wherever it stops.** -/
theorem ends_load (hroot : Rooted r I c) :
    (load r data).Ends c (fun _ => Rooted r I) (Stopped r I E) :=
  h.course.ends_load hroot

end Upheld

end DocCatalog.Manifest
