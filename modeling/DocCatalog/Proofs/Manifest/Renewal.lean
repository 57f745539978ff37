/-
**A cleared registry is as good as a new one.**

Clearing a registry leaves every entity of the old tree as it was: its namespaces still know their
members and their registry, and old methods still know their owners.  But nothing leads from the new
root to any of them, because what is made from then on refers only to what was made from then on.
So a manifest does in a cleared registry what it does in a new one with the same settings, in the
same catalog or in any other, and no question that is asked of the two tells them apart.

Main definitions:

* `Catalog.renewal`: a cleared registry and a new one, and which of their entities correspond: those
  that were made at the same point after the beginning.

Main results:

* `Catalog.mirrors_renewal`: to begin with, the two hold nothing but their roots;
* `Manifest.load_renewed`: **a manifest is loaded or refused alike, and the two answer alike
  afterwards**.
-/

import DocCatalog.Proofs.Export.SameAnswers
import DocCatalog.Proofs.Manifest.SideBySide

set_option autoImplicit false

namespace DocCatalog

namespace Catalog

variable {c : Catalog} {r : Registry}

/-- A cleared registry and a new one with its settings.  Their entities correspond in the order in
which they are made, root to root. -/
def renewal (c : Catalog) (r : Registry) (d : Catalog) : Pairing where
  left := r
  right := (d.openRegistry r.config).1
  config_eq := rfl
  twins e e' := ∃ i, e = ⟨c.entities.size + i⟩ ∧ e' = ⟨d.entities.size + i⟩
  biUnique := by
    constructor
    · rintro _ _ _ ⟨i, rfl, he⟩ ⟨j, rfl, he'⟩
      have hij := EntityId.mk.inj (he.symm.trans he')
      rw [show i = j by omega]
    · rintro _ _ _ ⟨i, he, rfl⟩ ⟨j, he', rfl⟩
      have hij := EntityId.mk.inj (he.symm.trans he')
      rw [show i = j by omega]

/-- To begin with, a cleared registry and a new one hold nothing but their roots. -/
theorem mirrors_renewal (hr : r.index < c.stock.size) (d : Catalog) :
    (c.renewal r d).Mirrors (c.clear r) (d.openRegistry r.config).2 where
  lt := by simpa [renewal, clear, updateHoldings, add] using hr
  lt' := by simp [renewal, openRegistry, add]
  knows := by
    rintro _ _ ⟨i, rfl, rfl⟩
    simp [Knows, clear, updateHoldings, openRegistry, add]
  next i := ⟨1 + i, by simp [clear, updateHoldings, add, Nat.add_assoc],
    by simp [openRegistry, add, Nat.add_assoc]⟩
  entity := by
    rintro _ _ ⟨i, rfl, rfl⟩
    rw [entity_clear, entity_openRegistry, entity_add, entity_add]
    -- the first that is made is the root, and more is not made yet
    cases i with
    | zero =>
        rw [if_pos (Nat.add_zero _), if_pos (Nat.add_zero _)]
        exact ⟨rfl, rfl, .nil, rfl, .some .empty⟩
    | succ i =>
        rw [if_neg (by simp), if_neg (by simp), entity_of_not_knows (by simp [Knows]),
          entity_of_not_knows (by simp [Knows])]
        exact .default
  home := by
    rintro _ _ ⟨i, rfl, rfl⟩ hk
    obtain rfl : i = 0 := by
      simp only [Knows, clear, updateHoldings, add, Array.size_push] at hk
      omega
    rw [entity_clear, entity_openRegistry, entity_add, entity_add, if_pos (Nat.add_zero _),
      if_pos (Nat.add_zero _)]
    exact ⟨rfl, rfl⟩
  entries := by
    have hleft : (c.clear r).entries r = ∅ := by rw [entries_clear r hr, if_pos rfl]
    have hright : (d.openRegistry r.config).2.entries (d.openRegistry r.config).1 = ∅ := by
      rw [entries_openRegistry]
      exact if_pos rfl
    rw [renewal, hleft, hright]
    exact .empty
  root := by
    rw [root_clear _ hr, root_openRegistry]
    exact ⟨0, if_pos rfl, if_pos rfl⟩
  knows_root := by
    rw [root_clear _ hr, if_pos (show r.index = (c.renewal r d).left.index from rfl)]
    simp [Knows, clear, updateHoldings, add]

end Catalog

namespace Manifest

open Catalog

/-- **A manifest does in a cleared registry what it does in a new one with the same settings.**  It
is accepted by both or refused by both with one fault, and then both answer alike, whatever else the
two catalogs hold: in the first, say, all that the registry held before. -/
theorem load_renewed {c : Catalog} {r : Registry} (hr : c.Opened r) (d : Catalog) (data : Value) :
    let renewed := load r data (c.clear r)
    let fresh := load (d.openRegistry r.config).1 data (d.openRegistry r.config).2
    renewed.1 = fresh.1 ∧ (c.renewal r d).SameAnswers renewed.2 fresh.2 := by
  intro renewed fresh
  have h := (mirrors_renewal hr.lt d).load data
  exact ⟨h.accord.eq, h.mirrors.sameAnswers⟩

/-- A shop that was cleared and is loaded again: the old method is still a member of the old
namespace, and what is found at its path is the new one. -/
theorem load_renewed_shop :
    let r : Registry := ⟨0, {}⟩
    let data : Value := .dict [("methods", .list [.dict
      [("namespace", .text "Shop"), ("name", .text "total")]])]
    let c : Catalog := (load r data (({} : Catalog).openRegistry {}).2).2
    let renewed := load r data (c.clear r)
    let fresh := load (({} : Catalog).openRegistry r.config).1 data
      (({} : Catalog).openRegistry r.config).2
    c.Opened r ∧ renewed.1 = fresh.1 ∧ (c.renewal r {}).SameAnswers renewed.2 fresh.2 ∧
      renewed.2.paths r = ["Shop", "Shop#total"] ∧ renewed.2.members ⟨1⟩ = [⟨2⟩] ∧
      renewed.2.lookup? r "Shop#total" = some ⟨5⟩ ∧ fresh.2.lookup? r "Shop#total" = some ⟨2⟩ := by
  intro r data c renewed fresh
  have ho : c.Opened r := ⟨by decide +kernel, by decide +kernel, by decide +kernel⟩
  obtain ⟨hsame, hanswers⟩ := load_renewed ho {} data
  exact ⟨ho, hsame, hanswers, by decide +kernel, by decide +kernel, by decide +kernel,
    by decide +kernel⟩

end Manifest

end DocCatalog
