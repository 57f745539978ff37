/-
**The section that a refused manifest is refused for.**

A manifest is refused for what it is as a whole, for a section that is no list of entries, for what
an entry says, or for the path of an entry's namespace.  So when the sections before one are
loaded, and with this one the manifest is refused, the fault lies in this section.  It is reported
under this section too, but for one problem: an empty segment in the path of a namespace is always
reported under the section of namespaces, also where a method, an attribute or an alias asked for
that namespace.

Main definitions:

* `Manifest.TrueOf`: a fault is a problem that the manifest has, or is no problem of a manifest;
* `Manifest.Part.before`, `Manifest.inParts`: the sections before one, and a manifest cut down to
  some sections;
* `Manifest.ReportedIn`: under which section a problem of a section is reported.

Main results:

* `Manifest.load_malformed`: what a manifest is refused for is in the manifest;
* `Manifest.load_reported_in`: **a manifest that is refused from some section on is refused under
  this section, an empty segment apart**.
-/

import DocCatalog.Proofs.Manifest.Sections
import DocCatalog.Proofs.Manifest.Refusal

set_option autoImplicit false

namespace DocCatalog.Manifest

open Catalog
open DocCatalog.Action (Ends)

variable {c c' : Catalog} {r : Registry} {fields : Fields} {parts : List Part} {part S : Part}
  {data : Value} {fault : Fault} {problem : Problem} {part? : Option Part}

/-! ### Faults that are no problem of a manifest -/

/-- A fault is a problem that the manifest has, or is no problem of a manifest at all. -/
def TrueOf (r : Registry) (data : Value) (fault : Fault) : Prop :=
  ∀ problem part?, fault = .manifest problem part? → Malformed r data fault

theorem Malformed.trueOf (h : Malformed r data fault) : TrueOf r data fault := fun _ _ _ => h

/-- Making an entity fails only without a registry. -/
theorem ends_make_trueOf {kind : EntityKind} {form : Registry → Form} {o : Origin} :
    (make kind form o).Ends c (fun _ _ => True) fun fault _ => TrueOf r data fault := by
  refine Ends.get ?_
  split
  · exact .throw nofun
  · exact .bind (Q := fun _ _ => True) (.set trivial) fun _ _ _ => .pure trivial

/-- Registering an entity fails only in a registry of others. -/
theorem ends_register_trueOf {e : EntityId} :
    (register r e).Ends c (fun _ _ => True) fun fault _ => TrueOf r data fault := by
  refine Ends.get ?_
  split
  · exact .set trivial
  · exact .throw nofun

theorem ends_makeMethod_trueOf {o : Origin} {scope : Value} :
    (makeMethod o scope).Ends c (fun _ _ => True) fun fault _ => TrueOf r data fault := by
  unfold makeMethod
  split
  · exact .throw nofun
  · exact ends_make_trueOf

theorem ends_ensureNested_trueOf {n : EntityId} {name : String} :
    (ensureNested r n name).Ends c (fun _ _ => True) fun fault _ => TrueOf r data fault := by
  refine Ends.get ?_
  split
  · exact .pure trivial
  · refine .bind (Q := fun _ _ => True) ends_make_trueOf fun e _ _ => ?_
    exact .bind (Q := fun _ _ => True) ends_register_trueOf fun _ _ _ => .pure trivial

/-! ### What a manifest is refused for -/

theorem course_trueOf (r : Registry) (data : Value) :
    Course r data (fun _ _ => True) (fun _ _ _ => True) fun fault _ => TrueOf r data fault where
  root _ := trivial
  retouch _ _ := trivial
  made_retouch _ _ := trivial
  nested _ _ _ _ := ends_ensureNested_trueOf
  make _ _ _ := ends_makeMethod_trueOf
  register _ := ends_register_trueOf
  malformed h _ := h.trueOf
  scope _ _ _ := nofun
  misdescribed := by
    rintro m c entry fault hentry - (h | ⟨v, -, -, rfl⟩) -
    · exact (Malformed.misstated hentry h).trueOf
    · exact nofun

/-- The problem for which a manifest is refused is a problem that it has, whatever was loaded
before. -/
theorem load_malformed (h : load r data c = (.error (.manifest problem part?), c')) :
    Malformed r data (.manifest problem part?) :=
  (Action.ends_iff.1 ((course_trueOf r data).ends_load trivial)).2 _ _ h problem part? rfl

/-! ### Manifests cut down to some sections -/

/-- The sections that are applied before one. -/
def Part.before (S : Part) : List Part := all.takeWhile (· ≠ S)

/-- What a manifest has in some sections. -/
def inParts (parts : List Part) (fields : Fields) : Fields :=
  fields.filter fun field => parts.any fun part => part.key = field.1

theorem field?_inParts : Value.field? (inParts parts fields) part.key =
    if part ∈ parts then Value.field? fields part.key else none := by
  have hkey : (parts.any fun other => other.key = part.key) = decide (part ∈ parts) := by
    rw [Bool.eq_iff_iff, List.any_eq_true, decide_eq_true_iff]
    constructor
    · rintro ⟨other, hmem, he⟩
      exact part_of_key (of_decide_eq_true he) ▸ hmem
    · exact fun hmem => ⟨part, hmem, by simp⟩
  induction fields with
  | nil => simp [inParts, Value.field?]
  | cons field rest ih =>
      by_cases he : field.1 = part.key
      · by_cases hmem : part ∈ parts
        · simp [inParts, Value.field?, he, hkey, hmem]
        · simpa [inParts, he, hkey, hmem] using ih
      · have hrest : Value.field? (field :: rest) part.key = Value.field? rest part.key := by
          simp [Value.field?, he]
        rw [hrest, ← ih]
        unfold inParts
        rw [List.filter_cons]
        split
        · simp [Value.field?, he]
        · rfl

theorem sections_inParts : sections (.dict (inParts parts fields)) = .ok (inParts parts fields) := by
  rw [sections, if_pos]
  simp only [List.filter_eq_nil_iff, List.mem_map, inParts, List.mem_filter]
  rintro key ⟨field, ⟨-, hfield⟩, rfl⟩
  obtain ⟨part, -, hkey⟩ := List.any_eq_true.1 hfield
  simpa using ⟨part, of_decide_eq_true hkey⟩

theorem entriesOf_inParts : entriesOf (inParts parts fields) part =
    if part ∈ parts then entriesOf fields part else .ok [] := by
  unfold entriesOf
  rw [field?_inParts]
  by_cases hmem : part ∈ parts <;> simp [hmem]

/-- The entries of a section are the same in a manifest cut down to some sections with this one. -/
theorem entriesIn_inParts (hfields : sections (.dict fields) = .ok fields) :
    entriesIn (.dict (inParts parts fields)) part =
      if part ∈ parts then entriesIn (.dict fields) part else [] := by
  simp only [entriesIn, sections_inParts, entriesOf_inParts, hfields]
  by_cases hmem : part ∈ parts <;> simp [hmem]

/-- Loading what is left of a manifest is loading the sections that are left. -/
theorem load_inParts : load r (.dict (inParts parts fields)) = (do
    (Part.all.filter (· ∈ parts)).forM (loadPart r fields)
    Action.change fun c => c.note r (.loaded (c.entries r).size)) := by
  have hpart : ∀ part, loadPart r (inParts parts fields) part =
      if part ∈ parts then loadPart r fields part else pure () := by
    intro part
    rw [loadPart, entriesOf_inParts]
    split <;> rfl
  have hparts : ∀ l : List Part, l.forM (loadPart r (inParts parts fields)) =
      (l.filter (· ∈ parts)).forM (loadPart r fields) := by
    intro l
    induction l with
    | nil => rfl
    | cons part l ih =>
        show (loadPart r (inParts parts fields) part >>= fun _ =>
          l.forM (loadPart r (inParts parts fields))) = _
        rw [hpart, ih]
        by_cases hmem : part ∈ parts
        · rw [if_pos hmem, List.filter_cons_of_pos (by simpa using hmem)]
          rfl
        · rw [if_neg hmem, List.filter_cons_of_neg (by simpa using hmem)]
          rfl
  rw [load, sections_inParts]
  show loadParts r (inParts parts fields) = _
  rw [loadParts, hparts]

/-! ### The section at fault -/

theorem filter_before (S : Part) : Part.all.filter (· ∈ S.before) = S.before := by
  cases S <;> rfl

theorem filter_upTo (S : Part) : Part.all.filter (· ∈ S.before ++ [S]) = S.before ++ [S] := by
  cases S <;> rfl

theorem filter_only (S : Part) : Part.all.filter (· ∈ [S]) = [S] := by
  cases S <;> rfl

/-- A problem of a section is reported under this section; only an empty segment in the path of the
namespace of an entry is reported under the section of namespaces. -/
def ReportedIn (r : Registry) (data : Value) (S : Part) (problem : Problem) (part? : Option Part) :
    Prop :=
  (part? = some S ∧ ∀ path, problem ≠ .emptySegment path) ∨
    (part? = some .namespaces ∧ ∃ entry ∈ entriesIn data S,
      "" ∈ spaceNames r (spaceOf S entry) ∧ problem = .emptySegment (spaceOf S entry))

theorem RefusedIn.reportedIn (h : RefusedIn S (.manifest problem part?)) :
    ReportedIn r data S problem part? := by
  obtain ⟨problem, hno, ⟨⟩⟩ := h
  exact .inl ⟨rfl, hno⟩

/-- A problem of a manifest with one section is reported as problems of this section are. -/
theorem Malformed.reportedIn (hfields : sections (.dict fields) = .ok fields)
    (h : Malformed r (.dict (inParts [S] fields)) (.manifest problem part?)) :
    ReportedIn r (.dict fields) S problem part? := by
  -- an entry of any section is one of the only section
  have honly : ∀ {part entry}, entry ∈ entriesIn (.dict (inParts [S] fields)) part →
      part = S ∧ entry ∈ entriesIn (.dict fields) S := by
    intro part entry hentry
    rw [entriesIn_inParts hfields] at hentry
    split at hentry
    · next hmem =>
        obtain rfl := List.mem_singleton.1 hmem
        exact ⟨rfl, hentry⟩
    · cases hentry
  cases h with
  | whole h => exact absurd (sections_inParts.symm.trans h) nofun
  | unlisted hf h =>
      obtain rfl := eq_of_sections hf
      rw [entriesOf_inParts] at h
      split at h
      · next hmem =>
          obtain rfl := List.mem_singleton.1 hmem
          exact (entriesOf_refuses _ _ h).reportedIn
      · cases h
  | misstated hentry h =>
      obtain ⟨rfl, -⟩ := honly hentry
      exact h.reportedIn
  | segment hentry hpath h =>
      obtain ⟨rfl, hentry⟩ := honly hentry
      exact .inr ⟨rfl, _, hentry, hpath.symm ▸ h, by rw [hpath]⟩

/-- What stops a load that goes on after the sections before one, stops the load of that section
alone. -/
theorem load_only_eq_error (hbefore : load r (.dict (inParts S.before fields)) c = (.ok (), c'))
    {c'' : Catalog}
    (hfails : load r (.dict (inParts (S.before ++ [S]) fields)) c = (.error fault, c'')) :
    ∃ c₁, load r (.dict (inParts [S] fields)) c₁ = (.error fault, c'') := by
  rw [load_inParts, filter_before] at hbefore
  rw [load_inParts, filter_upTo] at hfails
  obtain ⟨_, c₁, hrun, -⟩ := Action.bind_eq_ok hbefore
  have happend : (S.before ++ [S]).forM (loadPart r fields) =
      (S.before.forM (loadPart r fields) >>= fun _ => [S].forM (loadPart r fields)) :=
    List.forM_append
  rw [happend, bind_assoc, Action.bind_of_ok hrun] at hfails
  refine ⟨c₁, ?_⟩
  rw [load_inParts, filter_only]
  exact hfails

/-- **A manifest that is loaded as far as the sections before one, and refused from this one on, is
refused under this section, or else under that of namespaces for an empty segment in the path of a
namespace that an entry of this section asks for.** -/
theorem load_reported_in (hfields : sections (.dict fields) = .ok fields)
    (hbefore : load r (.dict (inParts S.before fields)) c = (.ok (), c')) {c'' : Catalog}
    (hfails : load r (.dict (inParts (S.before ++ [S]) fields)) c =
      (.error (.manifest problem part?), c'')) :
    ReportedIn r (.dict fields) S problem part? := by
  obtain ⟨c₁, hrun⟩ := load_only_eq_error hbefore hfails
  exact (load_malformed hrun).reportedIn hfields

/-- What is reported as a problem of a manifest is one. -/
theorem eq_manifest_of_report {α : Type} {q : Except Fault α} {reason key : String}
    (h : reportOf? q = some (.manifest reason key)) :
    ∃ problem part?, q = .error (.manifest problem part?) := by
  rcases q with fault | x
  · cases fault with
    | manifest problem part? => exact ⟨problem, part?, rfl⟩
    | _ => cases congrArg (Option.map Report.kind) h
  · cases h

/-- A method without a name, after a namespace that is loaded. -/
theorem load_reported_in_methods :
    let r : Registry := ⟨0, {}⟩
    let c := (({} : Catalog).openRegistry {}).2
    let fields : Fields := [("namespaces", .list [.dict [("path", .text "Shop")]]),
      ("methods", .list [.dict [("namespace", .text "Shop"), ("name", .null)]])]
    (load r (.dict (inParts Part.methods.before fields)) c).1 = .ok () ∧
      ∃ problem part?,
        (load r (.dict (inParts (Part.methods.before ++ [.methods]) fields)) c).1 =
            .error (.manifest problem part?) ∧
          ReportedIn r (.dict fields) .methods problem part? := by
  intro r c fields
  have hok : (load r (.dict (inParts Part.methods.before fields)) c).1.toBool = true := by
    decide +kernel
  obtain ⟨_, hbefore⟩ := Action.exists_eq_ok hok
  have hreport :
      reportOf? (load r (.dict (inParts (Part.methods.before ++ [.methods]) fields)) c).1 =
        some (.manifest "'name' must be a string, got None" "methods") := by decide +kernel
  obtain ⟨problem, part?, hfails⟩ := eq_manifest_of_report hreport
  exact ⟨congrArg Prod.fst hbefore, problem, part?, hfails,
    load_reported_in rfl hbefore (Prod.ext hfails rfl)⟩

/-- A method in a namespace with an empty segment in its path is refused under another section. -/
theorem segment_reported_elsewhere :
    ¬ ∀ (config : Config) (fields : Fields) (S : Part) (problem : Problem) (part? : Option Part),
      sections (.dict fields) = .ok fields →
      (load ⟨0, config⟩ (.dict (inParts S.before fields))
        (({} : Catalog).openRegistry config).2).1 = .ok () →
      (load ⟨0, config⟩ (.dict (inParts (S.before ++ [S]) fields))
        (({} : Catalog).openRegistry config).2).1 = .error (.manifest problem part?) →
      part? = some S := by
  intro hall
  let c := (({} : Catalog).openRegistry {}).2
  let fields : Fields :=
    [("methods", .list [.dict [("namespace", .text "Shop::::Cart"), ("name", .text "total")]])]
  have hok : (load ⟨0, {}⟩ (.dict (inParts Part.methods.before fields)) c).1.toBool = true := by
    decide +kernel
  obtain ⟨_, hbefore⟩ := Action.exists_eq_ok hok
  have hreport :
      reportOf? (load ⟨0, {}⟩ (.dict (inParts (Part.methods.before ++ [.methods]) fields)) c).1 =
        some (.manifest "empty segment in namespace path 'Shop::::Cart'" "namespaces") := by
    decide +kernel
  obtain ⟨problem, part?, hfails⟩ := eq_manifest_of_report hreport
  obtain rfl := hall {} fields .methods problem part? rfl (congrArg Prod.fst hbefore) hfails
  rw [hfails] at hreport
  have hdetails := congrArg Report.details (Option.some.inj hreport)
  exact absurd (congrArg List.getLast? hdetails) (by simp [Report.manifest, Part.key])

end DocCatalog.Manifest
