/-
**What all layers give, as one list of fields.**

In the place of a table of settings a file may have any sequence of pairs, with keys of any kind.
Whatever the files hold, either one of them cannot be read as fields and is reported, or all that is
given is one list of fields, the most particular layer last; the merged table then reads, at every
key, the value written last.

Main definitions:

* `Config.FileState.fault?`, `Config.Sources.fault?`: the fault of the first file that gives no
  fields;
* `Config.FileState.pairs`, `Config.Sources.pairs`: the fields of a file, and of all layers;
* `Config.lastValue?`: the value written last for a key;
* `Config.Sources.effective`: the value that each setting has in the end;
* `Config.Gathers`: a table in which fields were written.

Main results:

* `Config.Sources.merge_eq`: **merging reports the first fault, or writes the fields**;
* `Config.gathers_writeAll`: what a table of written fields holds;
* `Config.load_of_fault`, `Config.load_of_readable`: loading in the two cases.
-/

import DocCatalog.Proofs.Config.Layering
import Mathlib.Data.List.Induction

set_option autoImplicit false

namespace DocCatalog

namespace Value

theorem canonical_eq_text_iff {v : Value} {k : String} : v.canonical = text k ↔ v = text k := by
  cases v with
  | float x =>
      rw [canonical, canonicalFloat]
      split <;> simp
  | _ => simp [canonical]

theorem agrees_text {v : Value} {k : String} : v.agrees (text k) = decide (v = text k) := by
  simp [agrees, canonical_eq_text_iff]

end Value

namespace Config

variable {s : Sources} {t : ValueTable Value} {fields : List (Value × Value)}

/-! ### Fields written one after the other -/

/-- The value written last for a key. -/
def lastValue? (fields : List (Value × Value)) (key : Value) : Option Value :=
  (fields.reverse.find? fun p => p.1.agrees key).map Prod.snd

@[simp] theorem lastValue?_nil (key : Value) : lastValue? [] key = none := rfl

theorem lastValue?_concat (fields : List (Value × Value)) (p : Value × Value) (key : Value) :
    lastValue? (fields ++ [p]) key =
      if p.1.agrees key then some p.2 else lastValue? fields key := by
  rw [lastValue?, List.reverse_append, List.reverse_singleton, List.singleton_append,
    List.find?_cons]
  cases p.1.agrees key <;> rfl

theorem isSome_lastValue?_iff {key : Value} :
    (lastValue? fields key).isSome ↔ ∃ p ∈ fields, p.1.agrees key := by
  simp [lastValue?]

/-- A table in which fields were written: a key has a spelling that is written, and reads the value
written last. -/
structure Gathers (t : ValueTable Value) (fields : List (Value × Value)) : Prop where
  spelled : ∀ c key v, t.get? c = some (key, v) → key.canonical = c ∧ ∃ w, (key, w) ∈ fields
  found : ∀ key, t.find? key = lastValue? fields key

namespace Gathers

theorem empty : Gathers ∅ [] where
  spelled _ _ _ h := nomatch h
  found _ := rfl

/-- One field more. -/
theorem put (h : Gathers t fields) (p : Value × Value) :
    Gathers (t.put p.1 p.2) (fields ++ [p]) where
  spelled c key v hc := by
    rcases ValueTable.spelling_of_put hc with ⟨rfl, hk⟩ | ⟨v', hold⟩
    · exact ⟨hk, p.2, List.mem_append_right _ List.mem_cons_self⟩
    · obtain ⟨hspelled, w, hw⟩ := h.spelled c key v' hold
      exact ⟨hspelled, w, List.mem_append_left _ hw⟩
  found key := by rw [ValueTable.find?_put, lastValue?_concat, h.found]

end Gathers

/-- **What a table of written fields holds.** -/
theorem gathers_writeAll (fields : List (Value × Value)) :
    Gathers (Merge.writeAll ∅ fields) fields := by
  induction fields using List.reverseRecOn with
  | nil => exact .empty
  | append_singleton fields p ih =>
      rw [Merge.writeAll, List.foldl_append]
      exact ih.put p

namespace Gathers

variable (h : Gathers t fields)

include h

/-- An entry has a key as it was written, with the value written last for it. -/
theorem of_mem_entries {p : Value × Value} (hp : p ∈ t.entries) :
    (∃ w, (p.1, w) ∈ fields) ∧ lastValue? fields p.1 = some p.2 := by
  obtain ⟨⟨c, p'⟩, hmem, rfl⟩ := List.mem_map.1 hp
  have hc := (t.get?_eq_some_iff c p').2 hmem
  obtain ⟨rfl, hw⟩ := h.spelled _ _ _ hc
  exact ⟨hw, by rw [← h.found, ValueTable.find?, hc]; rfl⟩

/-- What is written for a key is in the entry of a key that is the same. -/
theorem exists_entry {q : Value × Value} (hq : q ∈ fields) : ∃ p ∈ t.entries, p.1.agrees q.1 := by
  have hsome : (t.find? q.1).isSome := by
    rw [h.found, isSome_lastValue?_iff]
    exact ⟨q, hq, Value.agrees_refl q.1⟩
  rw [ValueTable.find?, Option.isSome_map] at hsome
  obtain ⟨⟨key, v⟩, hc⟩ := Option.isSome_iff_exists.1 hsome
  exact ⟨(key, v), List.mem_map.2 ⟨_, (t.get?_eq_some_iff _ _).1 hc, rfl⟩,
    decide_eq_true (h.spelled _ _ _ hc).1⟩

/-- No two entries have the same key. -/
theorem pairwise_entries : t.entries.Pairwise fun p q => p.1.agrees q.1 = false := by
  refine List.pairwise_map.2 ((List.pairwise_map.1 t.nodup).imp_of_mem fun {a b} ha hb hne => ?_)
  have hcanonical : ∀ p ∈ t.toList, p.2.1.canonical = p.1 := fun p hp =>
    (h.spelled _ _ _ ((t.get?_eq_some_iff p.1 p.2).2 hp)).1
  simpa [Value.agrees, hcanonical a ha, hcanonical b hb] using hne

end Gathers

/-! ### The fields of the files and of all layers -/

/-- The fault of a file that is there and gives no fields. -/
def FileState.fault? (role : FileRole) (name : String) : FileState → Option LoadFault
  | .missing => none
  | .unreachable => some (.unreachable name)
  | .broken reason => some (.unusable role name reason)
  | .table fields =>
      match Merge.fieldsOf (layerOf fields) with
      | .ok _ => none
      | .error problem => some (.unusable role name problem.message)

/-- The fields of a file, none if it gives none. -/
def FileState.pairs : FileState → List (Value × Value)
  | .table fields => (Merge.fieldsOf (layerOf fields)).toOption.getD []
  | _ => []

/-- Fields with texts for keys as fields with keys of any kind. -/
def keyed (fields : List (String × Value)) : List (Value × Value) :=
  fields.map fun p => (.text p.1, p.2)

namespace Sources

/-- The fault of the explicit file, which must be there. -/
def explicitFault? (s : Sources) : Option LoadFault :=
  match s.explicit? with
  | none => none
  | some (name, .missing) => some (.absent name)
  | some (name, state) => state.fault? .explicit name

/-- The fault of the first file that gives no fields. -/
def fault? (s : Sources) : Option LoadFault :=
  (s.global.fault? .global s.globalName).or
    ((s.project.fault? .project s.projectName).or s.explicitFault?)

/-- The fields of all layers, in the order in which they are written. -/
def pairs (s : Sources) : List (Value × Value) :=
  s.global.pairs ++ s.project.pairs ++ ((s.explicit?.map Prod.snd).getD .missing).pairs
    ++ keyed (environmentFields s.environment) ++ keyed (overrideFields s.overrides)

/-- The value that each setting has in the end: the one written last, or the default. -/
def effective (s : Sources) : Draft := fun t =>
  (lastValue? s.pairs (.text t.key)).getD t.default

end Sources

theorem writeFile_eq (role : FileRole) (name : String) (state : FileState)
    (below : ValueTable Value) : writeFile role name state below =
      match state.fault? role name with
      | some fault => .error fault
      | none => .ok (Merge.writeAll below state.pairs) := by
  cases state with
  | table fields =>
      simp only [writeFile, FileState.fault?, FileState.pairs, Merge.update]
      cases Merge.fieldsOf (layerOf fields) <;> rfl
  | _ => rfl

theorem writeExplicit_eq (s : Sources) (below : ValueTable Value) :
    writeExplicit s.explicit? below =
      match s.explicitFault? with
      | some fault => .error fault
      | none => .ok (Merge.writeAll below ((s.explicit?.map Prod.snd).getD .missing).pairs) := by
  rw [Sources.explicitFault?]
  cases s.explicit? with
  | none => rfl
  | some file =>
      obtain ⟨name, state⟩ := file
      cases state with
      | missing => rfl
      | _ =>
          rw [writeExplicit, writeFile_eq]
          · rfl
          · nofun

theorem writeFields_eq (fields : List (String × Value)) (below : ValueTable Value) :
    writeFields fields below = Merge.writeAll below (keyed fields) := rfl

theorem writeAll_append (below : ValueTable Value) (fields more : List (Value × Value)) :
    Merge.writeAll below (fields ++ more) = Merge.writeAll (Merge.writeAll below fields) more :=
  List.foldl_append

/-- **Merging reports the first file that gives no fields, or writes the fields of all layers.** -/
theorem Sources.merge_eq (s : Sources) : s.merge =
    match s.fault? with
    | some fault => .error fault
    | none => .ok (Merge.writeAll ∅ s.pairs) := by
  unfold merge fault? pairs
  simp only [writeFile_eq, writeExplicit_eq, writeFields_eq, writeAll_append]
  cases s.global.fault? .global s.globalName with
  | some fault => rfl
  | none =>
      cases s.project.fault? .project s.projectName with
      | some fault => rfl
      | none => cases s.explicitFault? <;> rfl

/-! ### Loading -/

theorem load_of_fault {fault : LoadFault} (h : s.fault? = some fault) : load s = .error fault := by
  rw [load, Sources.merge_eq, h]
  rfl

/-- With files that give fields what is loaded is decided by the list of fields. -/
theorem load_of_readable (h : s.fault? = none) :
    load s = refuseUnknown (Merge.writeAll ∅ s.pairs) >>= fun _ =>
      match s.effective.check with
      | .ok c => .ok c
      | .error problem =>
          .error (.refused problem
            ((lastValue? s.pairs (.text problem.setting.key)).getD .null)) := by
  have hmerge : s.merge = .ok (Merge.writeAll ∅ s.pairs) := by rw [Sources.merge_eq, h]
  have hfound := (gathers_writeAll s.pairs).found
  have hdraft : draftOf (Merge.writeAll ∅ s.pairs) = s.effective := funext fun t => by
    rw [draftOf, hfound, Sources.effective]
  rw [← hdraft]
  simp only [← hfound]
  exact load_eq hmerge

end Config

end DocCatalog
