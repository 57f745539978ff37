/-
**Loading in parts is loading at once.**

Two manifests that describe no method both may be loaded one after the other, or as one manifest that
lists the entries of the first and then those of the second in each section.  The order in which the
entries come is another: one by one the attributes and aliases of the first manifest are bound before
a method of the second exists.  But the entries of each section come in one order, and nothing that a
section says depends on more than that.

Main definitions:

* `Manifest.joined`: the entries of one manifest and then of another, section by section.

Main results:

* `Manifest.found_eq_of_sections`: what is found depends on the order in each section only;
* `Manifest.load_joined`: **manifests that are accepted one after the other are accepted at once, and
  shown alike**.
-/

import DocCatalog.Proofs.Manifest.Fresh
import DocCatalog.Proofs.Manifest.Sections

set_option autoImplicit false

namespace DocCatalog.Manifest

open Catalog

variable {r : Registry} {l l' : List (Part × Fields)} {first second : Value} {part : Part}

/-! ### Section by section -/

theorem sectionOf_append (part : Part) (l l' : List (Part × Fields)) :
    sectionOf part (l ++ l') = sectionOf part l ++ sectionOf part l' :=
  List.filterMap_append

/-- What is found depends on the order of the entries in each section only. -/
theorem found_eq_of_sections (h : ∀ part, sectionOf part l' = sectionOf part l) :
    found r l' = found r l := by
  have hrow : ∀ row : Part × Fields, row ∈ l' ↔ row ∈ l := by
    rintro ⟨part, entry⟩
    rw [← mem_sectionOf, h, mem_sectionOf]
  funext p
  have hpaths : p ∈ trails r l' ↔ p ∈ trails r l := by
    simp only [trails, List.mem_flatMap, hrow]
  simp only [found, told, hpaths, h]

/-- The entries of one manifest and then those of another, section by section. -/
def joined (first second : Value) : Value :=
  ofSections Part.all fun part => entriesIn first part ++ entriesIn second part

theorem entriesIn_joined (first second : Value) (part : Part) :
    entriesIn (joined first second) part = entriesIn first part ++ entriesIn second part := by
  rw [joined, entriesIn_ofSections, if_pos part.mem_all]

theorem sectionOf_rows_joined (first second : Value) (part : Part) :
    sectionOf part (rows (joined first second)) = sectionOf part (rows first ++ rows second) := by
  rw [sectionOf_append, sectionOf_rows, sectionOf_rows, sectionOf_rows, entriesIn_joined]

/-- **Two manifests that describe no method both, and are accepted one after the other, are accepted
at once and shown alike.** -/
theorem load_joined {s s' : Session} (hs : s.Reachable) (hs' : s'.Reachable) (config : Config)
    {first second : Value} {c₁ c₂ : Catalog}
    (hfirst : ∀ part, ∀ entry ∈ entriesIn first part,
      Clean (s.catalog.openRegistry config).1 part entry)
    (hsecond : ∀ part, ∀ entry ∈ entriesIn second part,
      Clean (s.catalog.openRegistry config).1 part entry)
    (hapart : ∀ entry ∈ entriesIn first .methods, ∀ entry' ∈ entriesIn second .methods,
      methodKey? entry ≠ methodKey? entry')
    (hok : load (s.catalog.openRegistry config).1 first (s.catalog.openRegistry config).2 =
      (.ok (), c₁))
    (hok' : load (s.catalog.openRegistry config).1 second c₁ = (.ok (), c₂)) :
    ∃ c, load (s'.catalog.openRegistry config).1 (joined first second)
        (s'.catalog.openRegistry config).2 = (.ok (), c) ∧
      ∀ fs, ∃ listing, c₂.listing (s.catalog.openRegistry config).1 fs = .ok listing ∧
        c.listing (s'.catalog.openRegistry config).1 fs = .ok listing := by
  have hloaded₁ := Loaded.of_load hs hfirst hok
  have hloaded₂ := hloaded₁.extend hsecond (by simpa [sectionOf_rows] using hapart) hok'
  obtain ⟨-, hlegible₁, hreferred₁⟩ := (fresh_succeeds_iff hs hfirst).1 ⟨_, c₁, hok⟩
  obtain ⟨-, hlegible₂, hreferred₂⟩ := (hloaded₁.succeeds_iff hsecond).1 ⟨_, c₂, hok'⟩
  rw [sectionOf_rows] at hreferred₂
  have hmem : ∀ {part entry}, entry ∈ entriesIn (joined first second) part ↔
      entry ∈ entriesIn first part ∨ entry ∈ entriesIn second part := by
    intro part entry
    rw [entriesIn_joined, List.mem_append]
  have hclean : ∀ part, ∀ entry ∈ entriesIn (joined first second) part,
      Clean (s'.catalog.openRegistry config).1 part entry := fun part entry he =>
    ((hmem.1 he).elim (hfirst part entry) (hsecond part entry)).congr
      (r := (s.catalog.openRegistry config).1) rfl
  -- what the first manifest refers to is described by itself, what the second refers to by either
  obtain ⟨_, c, hrun⟩ := (fresh_succeeds_iff hs' hclean).2 ⟨shaped_ofSections,
    fun part entry he => (hmem.1 he).elim (hlegible₁ part entry) (hlegible₂ part entry),
    fun part entry he p hp => by
      rcases hmem.1 he with he | he
      · obtain ⟨m, hm, hpath⟩ := hreferred₁ part entry he p hp
        exact ⟨m, hmem.2 (.inl hm), (methodPath?_congr rfl) ▸ hpath⟩
      · obtain ⟨m, hm, hpath⟩ := hreferred₂ part entry he p hp
        exact ⟨m, hmem.2 (List.mem_append.1 hm), (methodPath?_congr rfl) ▸ hpath⟩⟩
  have hsections := sectionOf_rows_joined first second
  refine ⟨c, hrun, hloaded₂.listing_eq (Loaded.of_load hs' hclean hrun) rfl (fun p => ?_) ?_⟩
  · rw [found_eq_of_sections hsections]
  · exact Notes.foldl_enter_congr .blank (hsections _) (hsections _)

/-- The first manifest binds an attribute before the second describes the method that writes it; both
describe one namespace, and both tell what one method is an alias of. -/
theorem load_joined_accessors :
    let first : Value := .dict [
      ("namespaces", .list [.dict [("path", .text "Shop::Cart"), ("docstring", .text "A cart."),
        ("file", .text "cart.py")]]),
      ("methods", .list [.dict [("namespace", .text "Shop::Cart"), ("name", .text "total")]]),
      ("attributes", .list [.dict [("namespace", .text "Shop::Cart"), ("name", .text "total"),
        ("read", .text "Shop::Cart#total")]]),
      ("aliases", .list [.dict [("namespace", .text "Shop::Cart"),
        ("method", .text "Shop::Cart#total"), ("aliases", .text "sum")]])]
    let second : Value := .dict [
      ("namespaces", .list [.dict [("path", .text "Shop::Cart"), ("docstring", .text "The cart."),
        ("file", .text "cart.py")]]),
      ("methods", .list [.dict [("namespace", .text "Shop::Cart"), ("name", .text "total=")]]),
      ("attributes", .list [.dict [("namespace", .text "Shop::Cart"), ("name", .text "total"),
        ("write", .text "Shop::Cart#total=")]]),
      ("aliases", .list [.dict [("namespace", .text "Shop::Cart"),
        ("method", .text "Shop::Cart#total"), ("aliases", .text "amount")]])]
    let c₀ := (({} : Catalog).openRegistry {}).2
    let r := (({} : Catalog).openRegistry {}).1
    let c₁ := (load r first c₀).2
    let c₂ := (load r second c₁).2
    c₂.paths r = ["Shop", "Shop::Cart", "Shop::Cart#total", "Shop::Cart#total="] ∧
      ∃ c, load r (joined first second) c₀ = (.ok (), c) ∧
        ∀ fs, ∃ listing, c₂.listing r fs = .ok listing ∧ c.listing r fs = .ok listing := by
  intro first second c₀ r c₁ c₂
  have hfirst : (load r first c₀).1.toBool = true := by decide +kernel
  have hsecond : (load r second c₁).1.toBool = true := by decide +kernel
  obtain ⟨_, hrun₁⟩ := Action.exists_eq_ok hfirst
  obtain ⟨_, hrun₂⟩ := Action.exists_eq_ok hsecond
  have hclean₁ : ∀ part, ∀ entry ∈ entriesIn first part, Clean r part entry := by
    intro part
    cases part <;> decide +kernel
  have hclean₂ : ∀ part, ∀ entry ∈ entriesIn second part, Clean r part entry := by
    intro part
    cases part <;> decide +kernel
  have hnew : ({} : Session).Reachable := .refl
  exact ⟨by decide +kernel, load_joined hnew hnew {} hclean₁ hclean₂
    (by decide +kernel) hrun₁ hrun₂⟩

end DocCatalog.Manifest
