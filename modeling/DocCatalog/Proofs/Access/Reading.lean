/-
**What is given for a scope or a visibility, and how it is read.**

A member is given as a value of its own or as a text.  A text is read as a member exactly if it is a
spelling of its word, and whatever else is refused in a report on the field, with the value and the
words of the set.  The calls on entities and registries all read in this way, and one that is refused
touches nothing.

Main definitions:

* `Access.ReadsMembers`: what it is to read the members of a closed set;
* `Call.scope?`, `Call.visibility?`: what a call is given to be read in this way.

Main results:

* `Access.readsMembers`: a closed set whose words are searched is read by the grammar;
* `Access.members_read`: **both sets are read by their grammars**;
* `Call.reads_scope`, `Call.reads_visibility`: **so does every call**.
-/

import DocCatalog.Export.Record
import DocCatalog.Proofs.Access.Grammar
import DocCatalog.Proofs.Catalog.Refusing

set_option autoImplicit false

namespace DocCatalog

namespace Access

open Text (isBlank strip)

/-! ### Reading the members of a closed set -/

/-- **What it is to read the members of a closed set**, each given as a value of its own or spelled
as a text. -/
structure ReadsMembers {α : Type} (members : List α) (word : α → String) (value : α → Value)
    (field : String) (read : Value → Except Fault α) : Prop where
  /-- A text is read as a member exactly if it is a spelling of its word. -/
  text_iff : ∀ s m, read (.text s) = .ok m ↔ IsSpelling s (word m)
  /-- Whatever is neither a member nor a spelling of one is refused, in a report on the field with
  the value and the words of the set. -/
  refused : ∀ v, (∀ m, v ≠ value m) → (∀ s m, v = .text s → ¬ IsSpelling s (word m)) →
    ∃ fault, read v = .error fault ∧
      fault.report? = some (.invalidField field v (members.map word))
  /-- A member is read as it is. -/
  member : ∀ m, read (value m) = .ok m
  /-- Reading what has been read once more changes nothing. -/
  idempotent : ∀ v, (do let m ← read v; read (value m)) = read v
  /-- The word of a member is read as the member. -/
  inverse : ∀ m, read (.text (word m)) = .ok m
  /-- A text that is read has no letters but those of the word. -/
  letters : ∀ s m, read (.text s) = .ok m →
    List.Forall₂ SameLetter (s.toList.filter (!isAround ·)) (word m).toList
  /-- A text that is read has no blank behind a colon. -/
  colons : ∀ s m, read (.text s) = .ok m →
    ∀ before after c, s.toList = before ++ ':' :: c :: after → isBlank c = false
  /-- Folding letters beyond ASCII would not change what is read. -/
  folded : ∀ s m lowered, Lowered ((strip s.toList).dropWhile (· = ':')) lowered →
    (read (.text s) = .ok m ↔ String.ofList lowered = word m)

theorem elim_eq_ok_iff {α : Type} {found? : Option α} {fault : Fault} {m : α} :
    found?.elim (.error fault) .ok = (.ok m : Except Fault α) ↔ found? = some m := by
  cases found? <;> simp

theorem elim_eq_error_iff {α : Type} {found? : Option α} {fault fault' : Fault} :
    found?.elim (.error fault) .ok = (.error fault' : Except Fault α) ↔
      found? = none ∧ fault' = fault := by
  cases found? <;> simp [eq_comm]

/-- A closed set of words without `k` in which a text finds what it comes down to. -/
theorem readsMembers {α : Type} {members : List α} {word : α → String} {value : α → Value}
    {field : String} {read : Value → Except Fault α} (find? : Value → Option α)
    (refusal : Value → Fault)
    (hwords : ∀ m, IsWord (word m)) (hk : ∀ m, 'k' ∉ (word m).toList)
    (htext : ∀ s m, find? (.text s) = some m ↔ wordOf s = word m)
    (hvalue : ∀ m, find? (value m) = some m)
    (hother : ∀ v m, find? v = some m → v = value m ∨ ∃ s, v = .text s)
    (hread : ∀ v, read v = (find? v).elim (.error (refusal v)) .ok)
    (hreport : ∀ v, (refusal v).report? = some (.invalidField field v (members.map word))) :
    ReadsMembers members word value field read := by
  have hok : ∀ v m, read v = .ok m ↔ find? v = some m := fun v m => by
    rw [hread, elim_eq_ok_iff]
  have hword : ∀ s m, read (.text s) = .ok m ↔ wordOf s = word m := fun s m =>
    (hok _ m).trans (htext s m)
  have hspelling : ∀ s m, read (.text s) = .ok m ↔ IsSpelling s (word m) := fun s m =>
    (hword s m).trans (wordOf_eq_iff (hwords m))
  constructor
  case text_iff => exact hspelling
  case refused =>
    intro v hmember hspelled
    cases hv : find? v with
    | none => exact ⟨refusal v, by rw [hread, hv]; rfl, hreport v⟩
    | some m =>
        rcases hother v m hv with hm | ⟨s, rfl⟩
        · exact absurd hm (hmember m)
        · exact absurd ((hspelling s m).1 ((hok _ m).2 hv)) (hspelled s m rfl)
  case member => exact fun m => (hok _ m).2 (hvalue m)
  case idempotent =>
    intro v
    cases read v with
    | error fault => rfl
    | ok m => exact (hok _ m).2 (hvalue m)
  case inverse =>
    intro m
    refine (hspelling _ m).2 ⟨[], (word m).toList, [], 0, by simp, by simp, ?_, by simp⟩
    exact List.forall₂_same.2 fun _ _ => .inl rfl
  case letters => exact fun s m h => ((hspelling s m).1 h).letters (hwords m)
  case colons =>
    intro s m h before after c hs
    have hchain := ((hspelling s m).1 h).isChain (hwords m)
    exact List.isChain_iff_forall_rel_of_append_cons_cons.1 hchain hs rfl
  case folded =>
    intro s m lowered h
    have hplain : ∀ c ∈ (word m).toList, c.isLower = true ∧ c ≠ 'k' := fun c hc =>
      ⟨(hwords m).isLower c hc, fun heq => hk m (heq ▸ hc)⟩
    rw [hword, wordOf, ← String.toList_inj, ← String.toList_inj, String.toList_ofList,
      String.toList_ofList, h.eq_iff hplain]

theorem isWord_scope (m : Scope) : IsWord m.word := by
  cases m <;> exact ⟨by decide, List.all_eq_true.1 (by decide)⟩

theorem isWord_visibility (w : Visibility) : IsWord w.word := by
  cases w <;> exact ⟨by decide, List.all_eq_true.1 (by decide)⟩

/-- Scopes are read by their grammar. -/
theorem scopes_read : ReadsMembers Scope.all Scope.word .scope "scope" Scope.ofValue := by
  refine readsMembers Scope.ofValue? .notScope isWord_scope (fun m => by cases m <;> decide)
    (fun _ _ => Scope.ofText?_eq_some_iff) (fun _ => rfl) ?_ (fun _ => rfl) fun _ => rfl
  intro v m h
  cases v with
  | text s => exact .inr ⟨s, rfl⟩
  | scope m' => exact .inl (congrArg Value.scope (Option.some.inj h))
  | _ => cases h

/-- Visibilities are read by their grammar. -/
theorem visibilities_read :
    ReadsMembers Visibility.all Visibility.word .visibility "visibility" Visibility.ofValue := by
  refine readsMembers Visibility.ofValue? .notVisibility isWord_visibility
    (fun w => by cases w <;> decide)
    (fun _ _ => Visibility.ofText?_eq_some_iff) (fun _ => rfl) ?_ (fun _ => rfl) fun _ => rfl
  intro v w h
  cases v with
  | text s => exact .inr ⟨s, rfl⟩
  | visibility w' => exact .inl (congrArg Value.visibility (Option.some.inj h))
  | _ => cases h

/-- **Both sets are read by their grammars.**  No text is a spelling in both, and the words that
the record of a method shows are read as its scope and its visibility. -/
theorem members_read :
    ReadsMembers Scope.all Scope.word .scope "scope" Scope.ofValue ∧
    ReadsMembers Visibility.all Visibility.word .visibility "visibility" Visibility.ofValue ∧
    (∀ s (m : Scope) (w : Visibility), IsSpelling s m.word → ¬ IsSpelling s w.word) ∧
    ∀ x : MethodRecord,
      (Value.field? x.fields "scope").map Scope.ofValue = some (.ok x.scope) ∧
      (Value.field? x.fields "visibility").map Visibility.ofValue = some (.ok x.visibility) := by
  refine ⟨scopes_read, visibilities_read, fun s m w hm hw => ?_, fun x => ⟨?_, ?_⟩⟩
  · have heq : m.word = w.word := hm.unique (isWord_scope m) (isWord_visibility w) hw
    revert heq
    cases m <;> cases w <;> decide
  · exact congrArg some (scopes_read.inverse x.scope)
  · exact congrArg some (visibilities_read.inverse x.visibility)

end Access

/-! ### Calls -/

namespace Call

open Access Catalog

/-- The value that a call is given for a scope; null where that asks for none is not meant. -/
def scope? : Call → Option Value
  | makeMethod _ scope => some scope
  | setScope _ scope => some scope
  | addAttribute _ scope _ _ _ => some scope
  | methods _ scope _ => if scope = .null then none else some scope
  | child _ _ scope => if scope = .null then none else some scope
  | _ => none

/-- The value that a call is given for a visibility; null where that asks for none is not meant. -/
def visibility? : Call → Option Value
  | setVisibility _ visibility => some visibility
  | methods _ _ visibility => if visibility = .null then none else some visibility
  | _ => none

/-- A call with a member in the place of what it is given for a scope. -/
def withScope (m : Scope) : Call → Call
  | makeMethod o _ => makeMethod o (.scope m)
  | setScope e _ => setScope e (.scope m)
  | addAttribute n _ name read write => addAttribute n (.scope m) name read write
  | methods n _ visibility => methods n (.scope m) visibility
  | child n name _ => child n name (.scope m)
  | call => call

/-- A call with a member in the place of what it is given for a visibility. -/
def withVisibility (w : Visibility) : Call → Call
  | setVisibility e _ => setVisibility e (.visibility w)
  | methods n scope _ => methods n scope (.visibility w)
  | call => call

variable {call : Call} {v : Value} {m : Scope} {w : Visibility} {fault : Fault}

theorem scopeArgument_eq (h : v ≠ .null) : scopeArgument v = (Scope.ofValue v).map some := by
  cases v <;> first | rfl | exact absurd rfl h

theorem visibilityArgument_eq (h : v ≠ .null) :
    visibilityArgument v = (Visibility.ofValue v).map some := by
  cases v <;> first | rfl | exact absurd rfl h

/-- As an argument, a spelling of a scope is as good as the scope. -/
theorem scopeArgument_eq_of_ok (h : v ≠ .null) (hm : Scope.ofValue v = .ok m) :
    scopeArgument v = scopeArgument (.scope m) := by
  rw [scopeArgument_eq h, hm]
  rfl

theorem scopeArgument_eq_error_iff :
    scopeArgument v = .error fault ↔ v ≠ .null ∧ Scope.ofValue v = .error fault := by
  by_cases hv : v = .null
  · subst hv
    simp [scopeArgument]
  · rw [scopeArgument_eq hv]
    cases Scope.ofValue v <;> simp [Except.map, hv]

/-- A call that only reads fails as the reading does. -/
theorem reading_eq_error {α : Type} {f : Catalog → Except Fault α} {c : Catalog}
    (h : f c = .error fault) :
    (do let _ ← (do let c ← get; liftM (f c) : Action α) : Action Unit) c = (.error fault, c) := by
  have hread : (do let c ← get; liftM (f c) : Action α) c = (f c, c) := rfl
  rw [Action.bind_run, hread, h]

/-- A step that looks for a scope before all else reads it. -/
theorem reads_first (a : Value → Action Unit)
    (hfound : ∀ m, Scope.ofValue? v = some m → a v = a (.scope m))
    (hnone : Scope.ofValue? v = none → ∀ c, a v c = (.error (.notScope v), c)) :
    (∀ m, Scope.ofValue v = .ok m → a v = a (.scope m)) ∧
    ∀ fault, Scope.ofValue v = .error fault → ∀ c, a v c = (.error fault, c) := by
  refine ⟨fun m hm => hfound m (elim_eq_ok_iff.1 hm), fun fault hf c => ?_⟩
  obtain ⟨hv, rfl⟩ := elim_eq_error_iff.1 hf
  exact hnone hv c

/-- **Every call reads what it is given for a scope by the grammar**: a spelling of a member is as
good as the member, and what is refused is refused before anything is touched. -/
theorem reads_scope (h : call.scope? = some v) :
    (∀ m, Scope.ofValue v = .ok m → call.action = (call.withScope m).action) ∧
    ∀ fault, Scope.ofValue v = .error fault → ∀ c, call.action c = (.error fault, c) := by
  have hmember : ∀ m : Scope, Scope.ofValue? (.scope m) = some m := fun _ => rfl
  cases call with
  | makeMethod o scope =>
      obtain rfl := Option.some.inj h
      refine reads_first (fun v => (makeMethod o v).action) (fun m hm => ?_) fun hnone c => ?_
      · simp only [action, Catalog.makeMethod, hm, hmember]
      · simp only [action, Catalog.makeMethod, hnone]
        rfl
  | setScope e scope =>
      obtain rfl := Option.some.inj h
      refine reads_first (fun v => (setScope e v).action) (fun m hm => ?_) fun hnone c => ?_
      · simp only [action, Catalog.setScope, hm, hmember]
      · simp only [action, Catalog.setScope, hnone]
        rfl
  | addAttribute n scope name read write =>
      obtain rfl := Option.some.inj h
      refine reads_first (fun v => (addAttribute n v name read write).action) (fun m hm => ?_)
        fun hnone c => ?_
      · simp only [action, Catalog.addAttribute, hm, hmember]
      · simp only [action, Catalog.addAttribute, hnone]
        rfl
  | methods n scope visibility =>
      obtain ⟨hne, rfl⟩ : scope ≠ .null ∧ scope = v := by simpa [scope?] using h
      refine ⟨fun m hm => ?_, fun fault hf c => reading_eq_error ?_⟩
      · simp only [action, withScope, Catalog.methods, scopeArgument_eq_of_ok hne hm]
      · rw [Catalog.methods, scopeArgument_eq hne, hf]
        rfl
  | child n name scope =>
      obtain ⟨hne, rfl⟩ : scope ≠ .null ∧ scope = v := by simpa [scope?] using h
      refine ⟨fun m hm => ?_, fun fault hf c => reading_eq_error ?_⟩
      · simp only [action, withScope, Catalog.child, scopeArgument_eq_of_ok hne hm]
      · rw [Catalog.child, scopeArgument_eq hne, hf]
        rfl
  | _ => cases h

/-- **Every call reads what it is given for a visibility by the grammar.**  A call that is given a
scope too reads that first. -/
theorem reads_visibility (h : call.visibility? = some v) :
    (∀ w, Visibility.ofValue v = .ok w → call.action = (call.withVisibility w).action) ∧
    ∀ fault, Visibility.ofValue v = .error fault → ∀ c, call.action c = (.error fault, c) ∨
      ∃ scope fault', call.scope? = some scope ∧ Scope.ofValue scope = .error fault' ∧
        call.action c = (.error fault', c) := by
  have hmember : ∀ w : Visibility, Visibility.ofValue? (.visibility w) = some w := fun _ => rfl
  cases call with
  | setVisibility e visibility =>
      obtain rfl := Option.some.inj h
      refine ⟨fun w hw => ?_, fun fault hf c => .inl ?_⟩
      · have hw := elim_eq_ok_iff.1 hw
        simp only [action, withVisibility, Catalog.setVisibility, hw, hmember]
      · obtain ⟨hnone, rfl⟩ := elim_eq_error_iff.1 hf
        simp only [action, Catalog.setVisibility, hnone]
        rfl
  | methods n scope visibility =>
      obtain ⟨hne, rfl⟩ : visibility ≠ .null ∧ visibility = v := by simpa [visibility?] using h
      refine ⟨fun w hw => ?_, fun fault hf c => ?_⟩
      · have hsame : visibilityArgument visibility = visibilityArgument (.visibility w) := by
          rw [visibilityArgument_eq hne, hw]
          rfl
        simp only [action, withVisibility, Catalog.methods, hsame]
      · cases hs : scopeArgument scope with
        | ok side =>
            refine .inl (reading_eq_error ?_)
            rw [Catalog.methods, hs, visibilityArgument_eq hne, hf]
            rfl
        | error fault' =>
            obtain ⟨hgiven, hrefused⟩ := scopeArgument_eq_error_iff.1 hs
            have hscope : (methods n scope visibility).scope? = some scope := if_neg hgiven
            exact .inr ⟨scope, fault', hscope, hrefused, (reads_scope hscope).2 _ hrefused c⟩
  | _ => cases h

end Call

end DocCatalog
