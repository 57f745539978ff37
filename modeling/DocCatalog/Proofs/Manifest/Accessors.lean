/-
**Which methods read and write an attribute.**

Whether a method bears the name of an attribute, reads it or writes it is asked of the owner, under
the scope that the method has now and under its name less one equals sign at the end.  Of the
entries about one attribute each may give a reader, a writer, both or none, and the last that gives
one counts.  So after a manifest in a new registry the answers are found in its entries, whatever
scopes were given to methods since.

Main definitions:

* `Tables.accessors?`: the accessors of an attribute;
* `Manifest.declarations`: the entries about one attribute of a namespace.

Main results:

* `Entity.attributeName_eq_iff`: the name of an attribute;
* `Tables.accessors?_foldl_enter`: **the last reader and the last writer count**;
* `Manifest.accessors_of_entries`: **attributes after a manifest**.
-/

import DocCatalog.Proofs.Manifest.Bindings

set_option autoImplicit false

namespace DocCatalog

open Catalog Manifest

/-! ### Names -/

/-- A name with an equals sign at the end is a name before it. -/
theorem name_eq_append_iff {name base : String} : name = base ++ "=" ↔
    name.toList.getLast? = some '=' ∧ String.ofList name.toList.dropLast = base := by
  rw [← String.toList_inj, String.toList_append]
  constructor
  · intro h
    rw [h]
    simp
  · rintro ⟨hlast, rfl⟩
    rw [String.toList_ofList]
    exact (List.dropLast_append_getLast? _ hlast).symm

/-- The name of an attribute is that of the method less one equals sign at the end, if there is
one. -/
theorem Entity.attributeName_eq_iff (x : Entity) (base : String) : x.attributeName = base ↔
    x.name = base ++ "=" ∨ x.name = base ∧ ∀ b, x.name ≠ b ++ "=" := by
  unfold attributeName
  simp only [Ne, name_eq_append_iff]
  split
  · next hlast => simp [hlast]
  · next hlast =>
      have hno : x.name.toList.getLast? ≠ some '=' := hlast
      simp [hno]

/-! ### The last that counts -/

/-- What is got from some items at last is what the last of them gives, if each gives something. -/
theorem getLast?_filterMap_of_isSome {α β : Type} {f : α → Option β} {l : List α}
    (h : ∀ x ∈ l, (f x).isSome = true) : (l.filterMap f).getLast? = l.getLast?.bind f := by
  induction l using List.reverseRecOn with
  | nil => rfl
  | append_singleton l x _ =>
      obtain ⟨y, hy⟩ := Option.isSome_iff_exists.1 (h x (by simp))
      simp [List.filterMap_append, hy]

theorem Accessors.extend_extend (a : Accessors) (read write read' write' : Option EntityId) :
    (a.extend read write).extend read' write' = a.extend (read'.or read) (write'.or write) := by
  simp [Accessors.extend, Option.or_assoc]

/-! ### Accessors in tables -/

namespace Manifest

/-- The entries about the attribute of a scope and a name. -/
def declarations (s : Scope) (name : String) (l : List Fields) : List Fields :=
  l.filter fun entry => scopeOf? entry = some s ∧ nameOf entry = name

end Manifest

namespace Tables

variable {denoted : String → Option EntityId} {s : Scope} {name : String}

/-- The accessors of the attribute of a scope and a name, if it is declared. -/
def accessors? (t : Tables) (s : Scope) (name : String) : Option Accessors :=
  (t.attributes? s).bind fun table => ValueTable.find? table (.text name)

theorem find?_extend (table : AttributeTable) (name name' : String) (read write : Option EntityId) :
    ValueTable.find? (table.extend (.text name) read write) (.text name') =
      if name = name'
      then some (((ValueTable.find? table (.text name)).getD {}).extend read write)
      else ValueTable.find? table (.text name') := by
  simp [AttributeTable.extend, ValueTable.find?_put, Value.agrees]

/-- An entry extends the accessors of the attribute that it is about, and of no other. -/
theorem accessors?_enter (t : Tables) (entry : Fields) :
    (t.enter denoted entry .attributes).accessors? s name =
      if scopeOf? entry = some s ∧ nameOf entry = name
      then some (((t.accessors? s name).getD {}).extend ((textAt? entry "read").bind denoted)
        ((textAt? entry "write").bind denoted))
      else t.accessors? s name := by
  unfold enter accessors?
  cases hs : scopeOf? entry with
  | none => simp
  | some s' =>
      simp only [attributes?_setAttributes, Option.some.injEq]
      by_cases hscope : s' = s
      · subst hscope
        simp only [if_true, Option.bind_some, find?_extend, true_and]
        split
        · next hname =>
            subst hname
            cases t.attributes? s' <;> rfl
        · cases t.attributes? s' <;> rfl
      · simp [hscope]

/-- **Of the entries about an attribute the last that gives a reader counts, and so for the
writer.** -/
theorem accessors?_foldl_enter (l : List Fields) : ∀ t : Tables,
    (l.foldl (fun t entry => t.enter denoted entry .attributes) t).accessors? s name =
      let declared := declarations s name l
      let last (key : String) :=
        (declared.filterMap fun entry => (textAt? entry key).bind denoted).getLast?
      if declared = [] then t.accessors? s name
      else some (((t.accessors? s name).getD {}).extend (last "read") (last "write")) := by
  induction l with
  | nil => exact fun _ => rfl
  | cons entry l ih =>
      intro t
      rw [List.foldl_cons, ih, accessors?_enter]
      by_cases hentry : scopeOf? entry = some s ∧ nameOf entry = name
      · have hcons : declarations s name (entry :: l) = entry :: declarations s name l := by
          simp [declarations, hentry]
        simp only [hcons, hentry, and_self, if_true, getLast?_filterMap_cons, Option.getD_some,
          Accessors.extend_extend, reduceCtorEq, if_false]
        split
        · next hnil => simp [hnil]
        · rfl
      · have hskip : declarations s name (entry :: l) = declarations s name l := by
          simp [declarations, hentry]
        simp only [hskip, hentry, if_false]

/-- Aliases are written to a table of their own. -/
theorem accessors?_foldl_aliases (l : List Fields) : ∀ t : Tables,
    (l.foldl (fun t entry => t.enter denoted entry .aliases) t).accessors? s name =
      t.accessors? s name := by
  induction l with
  | nil => exact fun _ => rfl
  | cons entry l ih =>
      intro t
      rw [List.foldl_cons, ih]
      cases s <;> rfl

end Tables

/-! ### Methods -/

namespace Catalog

variable {c : Catalog} {m n : EntityId} {s : Scope}

/-- The accessors of a method are those that its owner has written down. -/
theorem accessors?_eq (ho : (c.entity m).owner? = some n) (hs : (c.entity m).scope? = some s) :
    c.accessors? m = (c.ledger n).accessors? s (c.entity m).attributeName := by
  rw [accessors?, ho, hs, Tables.accessors?, ledger_eq, Tables.attributes?_ledger]
  rfl

end Catalog

namespace Manifest

variable {c : Catalog} {data : Value}

/-- The path that the last of some entries gives which give one. -/
def lastPath (key : String) (l : List Fields) : Option String :=
  (l.filterMap (textAt? · key)).getLast?

section

variable {s : Session} (hs : s.Reachable) (config : Config)
  (hclean : ∀ part, ∀ entry ∈ entriesIn data part,
    Clean (s.catalog.openRegistry config).1 part entry)
  (hok : load (s.catalog.openRegistry config).1 data (s.catalog.openRegistry config).2 =
    (.ok (), c))
include hs hclean hok

/-- Which methods the paths of accepted attributes denote is told by the last path that is given. -/
theorem getLast?_accessor {key : String} (hkey : key ∈ ["read", "write"]) {l : List Fields}
    (hl : ∀ entry ∈ l, entry ∈ entriesIn data .attributes) :
    let r := (s.catalog.openRegistry config).1
    let denoted := (turn r data .attributes (s.catalog.openRegistry config).2).denoted r
    (l.filterMap fun entry => (textAt? entry key).bind denoted).getLast? =
      (lastPath key l).bind denoted := by
  intro r denoted
  have hrefers := (loadFresh_enters hs config hclean hok).refers .attributes (.inl rfl)
  rw [lastPath, ← getLast?_filterMap_of_isSome, List.filterMap_filterMap]
  intro path hpath
  obtain ⟨entry, hentry, hpath⟩ := List.mem_filterMap.1 hpath
  exact hrefers entry (hl entry hentry) path (List.mem_filterMap.2 ⟨key, hkey, hpath⟩)

/-- The accessors that a method has after a manifest in a new registry. -/
theorem accessors?_of_newMethod {m : EntityId}
    (hm : NewMethod (s.catalog.openRegistry config).2 c m) (calls : List (EntityId × Value)) :
    let r := (s.catalog.openRegistry config).1
    let denoted := (turn r data .attributes (s.catalog.openRegistry config).2).denoted r
    let after := c.setScopes calls
    ∃ n scope, (after.entity m).owner? = some n ∧ (after.entity m).scope? = some scope ∧
      let declared := declarations scope (after.entity m).attributeName
        (about .attributes (after.path n) (entriesIn data .attributes))
      after.accessors? m = if declared = [] then none else
        some ⟨(lastPath "read" declared).bind denoted,
          (lastPath "write" declared).bind denoted⟩ := by
  intro r denoted after
  obtain ⟨n, ho, hledger⟩ := ledger_of_newMethod hs config hclean hok hm calls
  have hkind : (after.entity m).kind = .method :=
    (Entity.kind_eq_of_settled (c.settled_setScopes calls m)).trans hm.kind
  obtain ⟨scope, hscope⟩ := scope?_of_kind_method hkind
  refine ⟨n, scope, ho, hscope, ?_⟩
  intro declared
  have hdeclared : ∀ entry ∈ declared, entry ∈ entriesIn data .attributes := fun entry he =>
    List.mem_of_mem_filter (List.mem_of_mem_filter he)
  have hblank : ({} : Tables).accessors? scope (after.entity m).attributeName = none := by
    cases scope <;> rfl
  have hfold : (after.ledger n).accessors? scope (after.entity m).attributeName =
      if declared = [] then none else some (({} : Accessors).extend
        (declared.filterMap fun entry => (textAt? entry "read").bind denoted).getLast?
        (declared.filterMap fun entry => (textAt? entry "write").bind denoted).getLast?) := by
    rw [hledger, Tables.accessors?_foldl_aliases, Tables.accessors?_foldl_enter, hblank]
    rfl
  rw [accessors?_eq ho hscope, hfold, getLast?_accessor hs config hclean hok (by simp) hdeclared,
    getLast?_accessor hs config hclean hok (by simp) hdeclared]
  simp [Accessors.extend, denoted, r]

/-- **What is known of an attribute after a manifest in a new registry**, whatever scopes are given
to methods afterwards.  A method bears the name of an attribute if an entry about its owner declares
the attribute for the scope that the method has; and it reads it if the last of these entries that
gives a reader gives a path that denoted the method when the section was loaded.  Methods of one
owner and one scope see the same accessors if one has the name of the attribute and the other the
same name with an equals sign behind it. -/
theorem accessors_of_entries (calls : List (EntityId × Value)) :
    let r := (s.catalog.openRegistry config).1
    let before := (s.catalog.openRegistry config).2
    let after := c.setScopes calls
    (∀ m, NewMethod before c m → ∃ n scope name, (after.entity m).owner? = some n ∧
      (after.entity m).scope? = some scope ∧
      ((after.entity m).name = name ++ "=" ∨
        (after.entity m).name = name ∧ ∀ b, (after.entity m).name ≠ b ++ "=") ∧
      let declared := declarations scope name
        (about .attributes (after.path n) (entriesIn data .attributes))
      let denotes (path : String) := (turn r data .attributes before).denoted r path = some m
      (after.isAttribute m = true ↔ declared ≠ []) ∧
      (after.isReader m = true ↔ ∃ path, lastPath "read" declared = some path ∧ denotes path) ∧
      (after.isWriter m = true ↔ ∃ path, lastPath "write" declared = some path ∧ denotes path)) ∧
    ∀ m m', (after.entity m).owner? = (after.entity m').owner? →
      (after.entity m).scope? = (after.entity m').scope? →
      (∀ b, (after.entity m).name ≠ b ++ "=") →
      (after.entity m').name = (after.entity m).name ++ "=" →
      after.accessors? m = after.accessors? m' := by
  intro r before after
  constructor
  · intro m hm
    obtain ⟨n, scope, ho, hscope, haccessors⟩ :=
      accessors?_of_newMethod hs config hclean hok hm calls
    refine ⟨n, scope, _, ho, hscope, ((after.entity m).attributeName_eq_iff _).1 rfl, ?_⟩
    intro declared denotes
    have haccessors : after.accessors? m = if declared = [] then none else
        some ⟨(lastPath "read" declared).bind ((turn r data .attributes before).denoted r),
          (lastPath "write" declared).bind ((turn r data .attributes before).denoted r)⟩ :=
      haccessors
    rw [isAttribute, isReader, isWriter, haccessors]
    by_cases hnil : declared = []
    · simp [hnil, lastPath]
    · simp [hnil, Option.bind_eq_some_iff, denotes]
  · intro m m' ho hs hplain hname
    have hattribute : (after.entity m).attributeName = (after.entity m').attributeName := by
      rw [(Entity.attributeName_eq_iff _ _).2 (.inr ⟨rfl, hplain⟩)]
      exact ((Entity.attributeName_eq_iff _ _).2 (.inl hname)).symm
    rw [accessors?, accessors?, ho, hs, hattribute]

end

/-- A method that writes an attribute, which is declared for both scopes, and that is given the
other scope after the manifest is loaded. -/
theorem accessors_of_entries_rescoped :
    let method (name : String) : Value := .dict [("namespace", .text "Shop"), ("name", .text name)]
    let reading : Value := .dict [("namespace", .text "Shop"), ("name", .text "total"),
      ("read", .text "Shop#total")]
    let writing : Value := .dict [("namespace", .text "Shop"), ("name", .text "total"),
      ("scope", .text "class"), ("write", .text "Shop#total=")]
    let data : Value := .dict [("methods", .list [method "total", method "total="]),
      ("attributes", .list [reading, writing])]
    let before := (({} : Catalog).openRegistry {}).2
    let c := (loadFresh data {}).2
    let after := c.setScopes [(⟨3⟩, .text "class"), (⟨3⟩, .text "module")]
    NewMethod before c ⟨3⟩ ∧ after.path ⟨3⟩ = "Shop.total=" ∧ c.isWriter ⟨3⟩ = false ∧
      after.isWriter ⟨3⟩ = true := by
  intro method reading writing data before c after
  have hok : (loadFresh data {}).1.toBool = true := by decide +kernel
  obtain ⟨r', hrun⟩ := Action.exists_eq_ok hok
  obtain ⟨rfl, hload⟩ := loadFresh_eq_ok hrun
  have hclean : ∀ part, ∀ entry ∈ entriesIn data part,
      Clean (({} : Catalog).openRegistry {}).1 part entry := by
    intro part
    cases part <;> decide +kernel
  have hwriter : NewMethod before c ⟨3⟩ :=
    ⟨by decide +kernel, by decide +kernel, by decide +kernel⟩
  have howner : (after.entity ⟨3⟩).owner? = some ⟨1⟩ := by decide +kernel
  have hscope : (after.entity ⟨3⟩).scope? = some .onClass := by decide +kernel
  obtain ⟨hall, -⟩ := accessors_of_entries (s := {}) .refl {} hclean hload
    [(⟨3⟩, .text "class"), (⟨3⟩, .text "module")]
  have hname : (after.entity ⟨3⟩).attributeName = "total" := by decide +kernel
  obtain ⟨n, scope, name, ho, hs, hbase, -, -, hwrite⟩ := hall ⟨3⟩ hwriter
  obtain rfl := Option.some.inj (howner.symm.trans ho)
  obtain rfl := Option.some.inj (hscope.symm.trans hs)
  obtain rfl := hname.symm.trans (((after.entity ⟨3⟩).attributeName_eq_iff name).2 hbase)
  refine ⟨hwriter, by decide +kernel, by decide +kernel, ?_⟩
  exact hwrite.2 ⟨"Shop#total=", by decide +kernel, by decide +kernel⟩

/-- A reader whose own name has an equals sign at the end does not see the accessors of the writer
whose name has one more. -/
theorem accessors_of_doubled_mark :
    let method (name : String) : Value := .dict [("namespace", .text "Shop"), ("name", .text name)]
    let reading : Value := .dict [("namespace", .text "Shop"), ("name", .text "a"),
      ("read", .text "Shop#a=")]
    let writing : Value := .dict [("namespace", .text "Shop"), ("name", .text "a="),
      ("write", .text "Shop#a==")]
    let data : Value := .dict [("methods", .list [method "a=", method "a=="]),
      ("attributes", .list [reading, writing])]
    let r := (({} : Catalog).openRegistry {}).1
    let before := (({} : Catalog).openRegistry {}).2
    let c := (load r data before).2
    (load r data before).1.toBool = true ∧
      (∀ part, ∀ entry ∈ entriesIn data part, Clean r part entry) ∧
      NewMethod before c ⟨2⟩ ∧ NewMethod before c ⟨3⟩ ∧
      (c.entity ⟨2⟩).owner? = (c.entity ⟨3⟩).owner? ∧
      (c.entity ⟨2⟩).scope? = (c.entity ⟨3⟩).scope? ∧
      (c.entity ⟨3⟩).name = (c.entity ⟨2⟩).name ++ "=" ∧
      c.isReader ⟨2⟩ = true ∧ c.isWriter ⟨3⟩ = true ∧ c.accessors? ⟨2⟩ ≠ c.accessors? ⟨3⟩ := by
  intro method reading writing data r before c
  have hclean : ∀ part, ∀ entry ∈ entriesIn data part, Clean r part entry := by
    intro part
    cases part <;> decide +kernel
  have hnew : ∀ i, i = 2 ∨ i = 3 → NewMethod before c ⟨i⟩ := by
    rintro i (rfl | rfl) <;> exact ⟨by decide +kernel, by decide +kernel, by decide +kernel⟩
  exact ⟨by decide +kernel, hclean, hnew 2 (.inl rfl), hnew 3 (.inr rfl), by decide +kernel,
    by decide +kernel, by decide +kernel, by decide +kernel, by decide +kernel, by decide +kernel⟩

end Manifest

end DocCatalog
