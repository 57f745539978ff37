/-
**The way to a namespace.**

A namespace path is cut into segments, and the namespaces on the way are those of its prefixes.  If
no segment is empty, joining the segments gives the path again.

Main definitions:

* `Separators.trail`: the paths of the namespaces on the way along some names;
* `Catalog.spaceNames`: the names along a namespace path, of which the root's has none.

Main results:

* `Separators.mem_trail`: the way passes exactly the prefixes;
* `Catalog.spacePath_spaceNames`: the way ends at the path;
* `Text.split_intercalate`, `Catalog.spaceNames_spacePath`: plain names are found again in the path
  that they are joined to.
-/

import DocCatalog.Manifest.Load
import DocCatalog.Proofs.Path.Rendering
import DocCatalog.Proofs.Path.Splitting

set_option autoImplicit false

namespace DocCatalog

/-! ### Splitting what was joined -/

namespace Text

variable {sep piece : List Char}

/-- A piece without any character of the separator does not begin with it. -/
theorem not_prefix_of_not_mem {c : Char} {cs : List Char} (hsep : sep ≠ []) (hc : c ∉ sep) :
    ¬ sep <+: c :: cs := by
  cases sep with
  | nil => exact absurd rfl hsep
  | cons s rest =>
      intro h
      obtain ⟨rfl, -⟩ := List.cons_prefix_cons.1 h
      exact hc (by simp)

/-- The separator does not occur in a piece without any character of it. -/
theorem not_occurs_of_not_mem (hsep : sep ≠ []) (hpiece : ∀ c ∈ piece, c ∉ sep) :
    ¬ sep <:+: piece := by
  obtain ⟨c, hc⟩ := List.exists_mem_of_ne_nil sep hsep
  exact fun hoccurs => hpiece c (hoccurs.subset hc) hc

/-- A piece without any character of the separator ends where the separator first occurs. -/
theorem endsFirst_of_not_mem (hsep : sep ≠ []) (hpiece : ∀ c ∈ piece, c ∉ sep) :
    EndsFirst sep piece := by
  induction piece with
  | nil => exact endsFirst_nil sep
  | cons c piece ih =>
      have hrest : EndsFirst sep piece := ih fun d hd => hpiece d (by simp [hd])
      exact (endsFirst_cons hsep).2 ⟨not_prefix_of_not_mem hsep (hpiece c (by simp)), hrest⟩

/-- Pieces without any character of the separator are found again when they are joined by it. -/
theorem split_intercalate (hsep : sep ≠ []) {pieces : List (List Char)} (hne : pieces ≠ [])
    (hpieces : ∀ piece ∈ pieces, ∀ c ∈ piece, c ∉ sep) :
    split sep (List.intercalate sep pieces) = pieces := by
  induction pieces with
  | nil => exact absurd rfl hne
  | cons piece rest ih =>
      have hpiece := hpieces piece (by simp)
      cases rest with
      | nil => simpa using split_of_absent (not_occurs_of_not_mem hsep hpiece)
      | cons next rest =>
          rw [List.intercalate_cons_cons, split_cut hsep (endsFirst_of_not_mem hsep hpiece),
            ih (by simp) fun q hq => hpieces q (by simp [hq])]

end Text

namespace Separators

/-- The paths of the namespaces that are passed on the way along some names, from a path on. -/
def trail (s : Separators) (base : String) : List String → List String
  | [] => []
  | name :: rest => s.namespacePath name base :: s.trail (s.namespacePath name base) rest

/-- The way passes exactly the prefixes of the names. -/
theorem mem_trail (s : Separators) {p : String} (names : List String) :
    ∀ base, p ∈ s.trail (s.spacePath base) names ↔
      ∃ pre, pre ≠ [] ∧ pre <+: names ∧ p = s.spacePath (base ++ pre) := by
  induction names with
  | nil =>
      intro base
      simp only [trail, List.not_mem_nil, List.prefix_nil, false_iff, not_exists]
      rintro pre ⟨hne, hpre, -⟩
      exact hne hpre
  | cons name rest ih =>
      intro base
      rw [trail, ← spacePath_concat, List.mem_cons, ih (base ++ [name])]
      constructor
      · rintro (rfl | ⟨pre, -, hpre, rfl⟩)
        · exact ⟨[name], by simp, by simp, rfl⟩
        · refine ⟨name :: pre, by simp, ?_, by simp⟩
          exact (List.prefix_cons_inj name).2 hpre
      · rintro ⟨pre, hne, hpre, rfl⟩
        cases pre with
        | nil => exact absurd rfl hne
        | cons name' pre =>
            obtain ⟨rfl, hrest⟩ := List.cons_prefix_cons.1 hpre
            by_cases h : pre = []
            · exact .inl (by rw [h])
            · exact .inr ⟨pre, h, hrest, by simp⟩

/-- Names joined one by one below a path are joined by the separator between namespaces. -/
theorem toList_foldl_namespacePath (s : Separators) (names : List String) :
    ∀ {base : String}, base ≠ "" →
      (names.foldl (fun path name => s.namespacePath name path) base).toList =
        List.intercalate s.nested.toList (base.toList :: names.map String.toList) := by
  -- a first piece may be joined to the second before the others
  have hjoin : ∀ (sep a b : List Char) (l : List (List Char)),
      List.intercalate sep ((a ++ sep ++ b) :: l) = a ++ sep ++ List.intercalate sep (b :: l) := by
    intro sep a b l
    cases l with
    | nil => simp
    | cons d l => simp [List.intercalate_cons_cons]
  induction names with
  | nil => simp
  | cons name rest ih =>
      intro base hb
      have hpath : s.namespacePath name base = base ++ s.nested ++ name := by
        simp [namespacePath, isTopLevel, hb]
      rw [List.foldl_cons, ih (by rw [hpath]; simp [hb]), hpath, List.map_cons,
        List.intercalate_cons_cons, String.toList_append, String.toList_append, hjoin]

end Separators

namespace Catalog

/-- The names along a namespace path, from the top level down. -/
def spaceNames (r : Registry) (path : String) : List String :=
  if path = "" then [] else segments r path

/-- The way along a path ends at the path, if no name along it is empty. -/
theorem spacePath_spaceNames {r : Registry} {path : String}
    (h : ∀ name ∈ spaceNames r path, name ≠ "") :
    r.separators.spacePath (spaceNames r path) = path := by
  unfold spaceNames at *
  split at h
  · next hp => simp [hp]
  · next hp =>
      have hne : r.separators.nested ≠ "" := r.config.distinct.1
      have hsep : r.separators.nested.toList ≠ [] := by simpa using hne
      cases hs : segments r path with
      | nil => simp [segments, Text.split_ne_nil] at hs
      | cons name rest =>
          have hname : name ≠ "" := h name (by simp [hs])
          have hpieces : (name :: rest).map String.toList =
              Text.split r.separators.nested.toList path.toList := by
            rw [← hs, segments, List.map_map]
            simp [Function.comp_def]
          rw [if_neg hp, ← String.toList_inj, Separators.spacePath, List.foldl_cons,
            Separators.namespacePath_empty, Separators.toList_foldl_namespacePath _ _ hname,
            ← List.map_cons, hpieces, Text.intercalate_split _ _ hsep]

/-- Plain names are found again in the path that they are joined to. -/
theorem spaceNames_spacePath {r : Registry} {names : List String}
    (h : ∀ name ∈ names, r.separators.Plain name) :
    spaceNames r (r.separators.spacePath names) = names := by
  cases names with
  | nil => rfl
  | cons name rest =>
      have hne : r.separators.nested ≠ "" := r.config.distinct.1
      have hsep : r.separators.nested.toList ≠ [] := by simpa using hne
      have hpath : (r.separators.spacePath (name :: rest)).toList =
          List.intercalate r.separators.nested.toList ((name :: rest).map String.toList) := by
        rw [Separators.spacePath, List.foldl_cons, Separators.namespacePath_empty,
          Separators.toList_foldl_namespacePath _ _ (h name (by simp)).1, List.map_cons]
      have hpieces : ∀ piece ∈ (name :: rest).map String.toList, ∀ c ∈ piece,
          c ∉ r.separators.nested.toList := by
        intro piece hpiece c hc hmem
        obtain ⟨n, hn, rfl⟩ := List.mem_map.1 hpiece
        exact (h n hn).2 c hc (by simp [Separators.chars, hmem])
      rw [spaceNames, if_neg (Separators.spacePath_ne_empty (by simp) h), segments, hpath,
        Text.split_intercalate hsep (by simp) hpieces, List.map_map]
      simp [Function.comp_def]

end Catalog

end DocCatalog
