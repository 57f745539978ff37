/-
**What is shown of a registry is what it holds.**

A registry is shown in two ways, as a listing of records and as a sheet of rows, and the two are
computed apart.  Both go through the entities of the kinds asked for in the order of their paths.
That this order is strict, and that no entity is shown twice or left out, is owed to the keys of the
registry: each entity is held under its own path, and under no other.

Main definitions:

* `Row.Shows`: a row of the sheet shows what an exported entity says.

Main results:

* `Catalog.KeysHold.strict_inOrder`: the paths of what is shown increase strictly;
* `Catalog.shows_row`: the row of an entity shows what its record says;
* `Session.shown_faithfully`: **in every session a listing has one record for each entity asked for,
  in the order of their paths, and the sheet has one row for each record**.
-/

import DocCatalog.Proofs.Export.RoundTrip

set_option autoImplicit false

namespace DocCatalog

open Catalog

/-! ### Rows and records -/

/-- A row shows what an exported entity says: a field that the entity does not have is blank, and a
flag is there exactly when the field of the flag is true. -/
structure Row.Shows (row : Row) (x : EntityRecord) : Prop where
  path : Value.field? x.fields "path" = some (.text row.path)
  tag : Value.field? x.fields "type" = some (.text row.tag)
  visibility : (Value.field? x.fields "visibility").getD (.text "") = .text row.visibility
  signature : (Value.field? x.fields "signature").getD (.text "") = .text row.signature
  isExplicit : "explicit" ∈ row.flags ↔ Value.field? x.fields "explicit" = some (.bool true)
  isAttribute : "attr" ∈ row.flags ↔ Value.field? x.fields "attribute" = some (.bool true)
  isAlias : "alias" ∈ row.flags ↔ Value.field? x.fields "alias" = some (.bool true)
  /-- There are no other flags, and none is there twice. -/
  flags : row.flags.Sublist ["explicit", "attr", "alias"]
  blank : x.kind ≠ .method → row.visibility = "" ∧ row.signature = "" ∧ row.flags = []

namespace Catalog

variable {c : Catalog} {r : Registry} {e : EntityId} {m : MethodFields} {x : EntityRecord}
  {shown : MethodRecord}

/-! ### What is shown, and in which order -/

theorem admits_tags_iff {tags : List String} {kind : EntityKind} :
    admits (tags.map .tag) kind ↔ tags = [] ∨ kind.tag ∈ tags := by
  simp [admits, Filter.admits]

/-- An entity is shown exactly when it is held and of a kind that is asked for. -/
theorem KeysHold.mem_inOrder_iff (hk : c.KeysHold) {tags : List String} :
    e ∈ c.inOrder r (tags.map .tag) ↔
      (∃ p, (c.entries r).get? p = some e) ∧ (tags = [] ∨ (c.entity e).kind.tag ∈ tags) := by
  have hheld : (c.entries r).get? (c.path e) = some e ↔ ∃ p, (c.entries r).get? p = some e := by
    constructor
    · exact fun h => ⟨_, h⟩
    · rintro ⟨p, h⟩
      rwa [hk.path_eq h]
  rw [inOrder, (List.mergeSort_perm _ _).mem_iff, mem_held_iff hk, admits_tags_iff, hheld]

/-- **The paths of what is shown increase strictly.** -/
theorem KeysHold.strict_inOrder (hk : c.KeysHold) (fs : List Filter) :
    ((c.inOrder r fs).map c.path).Pairwise fun p q => p < q := by
  have hnodup : ((c.inOrder r fs).map c.path).Nodup := by
    rw [map_path_inOrder, (List.mergeSort_perm _ _).nodup_iff]
    exact nodup_map_path_held hk fs
  have hle : ((c.inOrder r fs).map c.path).Pairwise fun p q => p ≤ q := by
    rw [map_path_inOrder]
    exact pairwise_mergeSort_listedBefore _
  -- the paths are in order, and no two of them are the same
  exact hle.imp₂ (fun p q hpq hne => Std.lt_of_le_of_ne hpq hne) hnodup

/-- A listing consists of the records of what is shown. -/
theorem listing_eq_ok_iff {l : Listing} {fs : List Filter} : c.listing r fs = .ok l ↔
    (c.inOrder r fs).mapM c.record = .ok l.records ∧ l.total = (c.entries r).size := by
  unfold listing
  cases (c.inOrder r fs).mapM c.record with
  | error fault =>
      refine ⟨fun h => (by cases h), fun h => (by cases h.1)⟩
  | ok records =>
      constructor
      · intro h
        rw [← Except.ok.inj h]
        exact ⟨rfl, rfl⟩
      · rintro ⟨hrecords, htotal⟩
        rw [Except.ok.inj hrecords, ← htotal]
        rfl

/-! ### One row for each record -/

/-- Which flags a method has. -/
theorem mem_flags : ("explicit" ∈ c.flags e m ↔ m.isExplicit = true) ∧
    ("attr" ∈ c.flags e m ↔ c.isAttribute e = true) ∧
    ("alias" ∈ c.flags e m ↔ c.isAlias e = true) ∧
    (c.flags e m).Sublist ["explicit", "attr", "alias"] := by
  unfold flags
  cases m.isExplicit <;> cases c.isAttribute e <;> cases c.isAlias e <;> decide

theorem kind_eq_method (hm : (c.entity e).method? = some m) : (c.entity e).kind = .method := by
  unfold Entity.kind
  cases hf : (c.entity e).form with
  | method fields => rfl
  | _ => simp [Entity.method?, hf] at hm

/-- The row of what is no method is blank but for its path and its tag. -/
theorem shows_row_of_not_method (hm : (c.entity e).method? = none) :
    ∃ row, c.row e = .ok row ∧ row.Shows (c.recordWith e none) := by
  have hrow : c.row e = .ok { path := c.path e, tag := (c.entity e).kind.tag } := by
    rw [row, hm]
    rfl
  have habsent : ∀ {flag : String}, flag ∈ ([] : List String) ↔
      (none : Option Value) = some (.bool true) := by simp
  refine ⟨_, hrow, ?_⟩
  exact {
    path := rfl
    tag := rfl
    visibility := rfl
    signature := rfl
    isExplicit := habsent
    isAttribute := habsent
    isAlias := habsent
    flags := List.nil_sublist _
    blank := fun _ => ⟨rfl, rfl, rfl⟩ }

/-- The row of a method shows the visibility, the signature and the flags that its record has. -/
theorem shows_row_of_method (hm : (c.entity e).method? = some m)
    (hshown : c.methodRecord e m = .ok shown) :
    ∃ row, c.row e = .ok row ∧ row.Shows (c.recordWith e (some shown)) := by
  unfold methodRecord at hshown
  cases hs : m.signature (c.entity e).name with
  | error fault => rw [hs] at hshown; cases hshown
  | ok signature =>
      rw [hs] at hshown
      obtain rfl := Except.ok.inj hshown
      have hrow : c.row e = .ok {
          path := c.path e
          tag := (c.entity e).kind.tag
          visibility := m.visibility.word
          signature
          flags := c.flags e m } := by
        simp only [row, hm, hs]
        rfl
      refine ⟨_, hrow, ?_⟩
      have hbool : ∀ {b : Bool}, b = true ↔ some (Value.bool b) = some (.bool true) := by simp
      obtain ⟨hexplicit, hattribute, halias, hsub⟩ := mem_flags (c := c) (e := e) (m := m)
      exact {
        path := rfl
        tag := rfl
        visibility := rfl
        signature := rfl
        isExplicit := hexplicit.trans hbool
        isAttribute := hattribute.trans hbool
        isAlias := halias.trans hbool
        flags := hsub
        blank := fun hkind => absurd (kind_eq_method hm) hkind }

/-- **The row of an entity shows what its record says**, and it has one if it has a record. -/
theorem shows_row (h : c.record e = .ok x) : ∃ row, c.row e = .ok row ∧ row.Shows x := by
  cases hm : (c.entity e).method? with
  | none =>
      obtain rfl := Except.ok.inj ((record_of_not_method hm).symm.trans h)
      exact shows_row_of_not_method hm
  | some m =>
      cases hshown : c.methodRecord e m with
      | error fault => simp only [record, hm, hshown] at h; cases h
      | ok shown =>
          obtain rfl := Except.ok.inj ((record_of_method hm hshown).symm.trans h)
          exact shows_row_of_method hm hshown

/-- If what is worked through has counterparts, so has what comes out. -/
theorem mapM_of_forall₂ {α β γ : Type} {g : α → Except Fault β} {R : β → γ → Prop} {as : List α}
    {xs : List γ} (h : List.Forall₂ (fun a x => ∃ b, g a = .ok b ∧ R b x) as xs) :
    ∃ bs, as.mapM g = .ok bs ∧ List.Forall₂ R bs xs := by
  induction h with
  | nil => exact ⟨[], rfl, .nil⟩
  | cons ha _ ih =>
      obtain ⟨b, hb, hr⟩ := ha
      obtain ⟨bs, hbs, hrs⟩ := ih
      exact ⟨b :: bs, by rw [List.mapM_cons, hb, hbs]; rfl, .cons hr hrs⟩

/-- **What has a listing has a sheet, with one row for each record**, and the row shows what the
record says. -/
theorem sheet_of_listing {l : Listing} {fs : List Filter} (h : c.listing r fs = .ok l)
    (title : String) : ∃ sheet, c.sheet r fs title = .ok sheet ∧
      List.Forall₂ (fun cells x => ∃ row : Row, cells = row.cells ∧ row.Shows x) sheet.rows
        l.records := by
  obtain ⟨hrecords, -⟩ := listing_eq_ok_iff.1 h
  obtain ⟨rows, hrows, hshows⟩ := mapM_of_forall₂
    ((forall₂_of_mapM hrecords).imp fun e x hx => shows_row hx)
  refine ⟨_, by rw [sheet, hrows]; rfl, ?_⟩
  rw [List.forall₂_map_left_iff]
  exact hshows.imp fun row x hx => ⟨row, rfl, hx⟩

end Catalog

/-! ### Sessions -/

namespace Session

variable {s : Session}

/-- **In every session a registry is shown as what it holds.**  If the methods that it holds have
texts for the names of their parameters, then for any tags, of which none is to ask for all, there
are a listing and a sheet; the paths of the listing increase strictly by code points; its records
are those of the entities asked for, each once; it tells how many entities the registry holds and
how many are listed; and the sheet has a row for each record, in the same order, which shows what
the record says. -/
theorem shown_faithfully (h : s.Reachable) (r : Registry) (tags : List String) (title : String)
    (hnames : ∀ p e m, (s.catalog.entries r).get? p = some e →
      (s.catalog.entity e).method? = some m → ∀ x ∈ m.parameters, ∃ t, x.name = .text t) :
    ∃ l sheet, s.catalog.listing r (tags.map .tag) = .ok l ∧
      s.catalog.sheet r (tags.map .tag) title = .ok sheet ∧
      (l.records.map EntityRecord.path).Pairwise (fun p q => p < q) ∧
      (∃ es : List EntityId, es.Nodup ∧
        (∀ e, e ∈ es ↔ (∃ p, (s.catalog.entries r).get? p = some e) ∧
          (tags = [] ∨ (s.catalog.entity e).kind.tag ∈ tags)) ∧
        List.Forall₂ (fun e x => s.catalog.record e = .ok x ∧ x.path = s.catalog.path e) es
          l.records) ∧
      l.toValue = .dict [
        ("context", .dict [
          ("total_entities", .int (s.catalog.entries r).size),
          ("exported", .int l.records.length)]),
        ("entities", .list (l.records.map fun x => .dict x.fields))] ∧
      List.Forall₂ (fun cells x => ∃ row : Row, cells = row.cells ∧ row.Shows x) sheet.rows
        l.records := by
  have hk := (Reachable.sound h).keysHold
  obtain ⟨l, hl⟩ := hk.listing_ok (r := r) (fun p f hf m hm => by
    obtain ⟨e, hget, rfl⟩ := Option.map_eq_some_iff.1 hf
    exact hnames p e m hget hm) (tags.map .tag)
  obtain ⟨sheet, hsheet, hrows⟩ := sheet_of_listing hl title
  obtain ⟨hrecords, htotal⟩ := listing_eq_ok_iff.1 hl
  obtain ⟨hpaths, -⟩ := records_of_listing hl
  have hstrict := hk.strict_inOrder (r := r) (tags.map .tag)
  refine ⟨l, sheet, hl, hsheet, hpaths ▸ hstrict, ?_, ?_, hrows⟩
  · refine ⟨_, ?_, fun e => hk.mem_inOrder_iff, ?_⟩
    · exact (List.pairwise_map.1 hstrict).imp fun hlt he => Std.ne_of_lt hlt (congrArg _ he)
    · exact (forall₂_of_mapM hrecords).imp fun e x hx => ⟨hx, (record_eq_ok hx).1⟩
  · rw [← htotal]
    rfl

/-- A reader of an attribute with its alias, and a method of the class, asked for twice over. -/
theorem shown_faithfully_cart :
    let data : Value := .dict [
      ("methods", .list [
        .dict [("namespace", .text "Shop"), ("name", .text "total"), ("explicit", .bool true)],
        .dict [("namespace", .text "Shop"), ("name", .text "sum"),
          ("parameters", .list [.text "items", .list [.text "tax", .text "0"]])],
        .dict [("namespace", .text "Shop"), ("name", .text "open"), ("scope", .text "class"),
          ("visibility", .text "private")]]),
      ("attributes", .list [
        .dict [("namespace", .text "Shop"), ("name", .text "total"),
          ("read", .text "Shop#total")]]),
      ("aliases", .list [
        .dict [("namespace", .text "Shop"), ("method", .text "Shop#sum"),
          ("aliases", .text "total")]])]
    let r : Registry := ⟨0, {}⟩
    let s₁ : Session := ⟨(({} : Catalog).openRegistry {}).2, []⟩
    let s : Session := ⟨(Manifest.load r data s₁.catalog).2, []⟩
    s.Reachable ∧ s.catalog.paths r = ["Shop", "Shop#total", "Shop#sum", "Shop.open"] ∧
      ∃ l sheet, s.catalog.listing r [.tag "method", .tag "method"] = .ok l ∧
        s.catalog.sheet r [.tag "method", .tag "method"] "" = .ok sheet ∧
        (l.records.map EntityRecord.path).Pairwise (fun p q => p < q) ∧
        List.Forall₂ (fun cells x => ∃ row : Row, cells = row.cells ∧ row.Shows x) sheet.rows
          l.records := by
  intro data r s₁ s
  have h₁ : s₁.Reachable := .single (.act (.openRegistry {}) trivial)
  have hr : s₁.catalog.Opened r := ⟨by decide +kernel, by decide +kernel, by decide +kernel⟩
  have h : s.Reachable := .tail h₁ (.act (.load r data) hr)
  have hall : (s.catalog.entries r).values.all (fun e => ((s.catalog.entity e).method?.all fun m =>
      m.parameters.all fun x => x.name.text?.isSome)) = true := by decide +kernel
  have hnames : ∀ p e m, (s.catalog.entries r).get? p = some e →
      (s.catalog.entity e).method? = some m → ∀ x ∈ m.parameters, ∃ t, x.name = .text t := by
    intro p e m hget hm x hx
    have he := List.all_eq_true.1 hall e
      (List.mem_map.2 ⟨_, (OrderedTable.get?_eq_some_iff _ _ _).1 hget, rfl⟩)
    rw [hm] at he
    have hname := List.all_eq_true.1 he x hx
    cases hx : x.name with
    | text t => exact ⟨t, rfl⟩
    | _ => rw [hx] at hname; cases hname
  obtain ⟨l, sheet, hl, hsheet, hstrict, -, -, hrows⟩ :=
    shown_faithfully h r ["method", "method"] "" hnames
  exact ⟨h, by decide +kernel, l, sheet, hl, hsheet, hstrict, hrows⟩

end Session

end DocCatalog
