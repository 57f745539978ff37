/-
**What is loaded can be shown.**

The parameters that a manifest gives are looked at before they are set, so that loading leaves
nothing that cannot be declared where nothing was before.  In a new registry loading is stopped by
nothing but the manifest, since there is no namespace that could belong to another registry, and
what it leaves there is shown by every listing and every table.

Main definitions:

* `Catalog.Declarable`: a catalog of which everything can be declared.

Main results:

* `Manifest.declarable_walk`: loading keeps everything declarable;
* `Catalog.Declarable.shown`: there are a listing and a table of any registry;
* `Manifest.load_into_new`: **a manifest is loaded into a new registry and can be shown, or is
  refused with a report**.
-/

import DocCatalog.Proofs.Export.Declaring
import DocCatalog.Proofs.Manifest.Refusal
import DocCatalog.Proofs.Manifest.Walking
import DocCatalog.Proofs.Registry.Discipline

set_option autoImplicit false

namespace DocCatalog

/-- Whether an entity can be declared is a matter of its profile. -/
theorem Entity.Declarable.congr {x y : Entity} (h : x.Declarable) (hxy : x.profile = y.profile) :
    y.Declarable := by
  have hmethod : x.method? = y.method? := congrArg Profile.method? hxy
  rwa [Entity.Declarable, ← hmethod]

namespace Catalog

variable {c : Catalog} {r : Registry}

/-- Everything in a catalog can be declared. -/
def Declarable (c : Catalog) : Prop := ∀ e, (c.entity e).Declarable

namespace Declarable

theorem shown (h : c.Declarable) (r : Registry) (fs : List Filter) (title : String) :
    (∃ l, c.listing r fs = .ok l) ∧ ∃ s, c.sheet r fs title = .ok s :=
  ⟨listing_ok_iff.2 fun x _ => h x, sheet_ok_iff.2 fun x _ => h x⟩

/-- A new entity that can be declared. -/
theorem founded (h : c.Declarable) {x : Entity} (hx : x.Declarable) : (c.founded x).Declarable := by
  intro e
  by_cases he : e.index = c.entities.size
  · exact hx.congr (Entity.profile_eq_of_bare (by rw [bare_founded, if_pos he])).symm
  · exact (h e).congr (Entity.profile_eq_of_bare (by rw [bare_founded, if_neg he])).symm

theorem enter (h : c.Declarable) (r : Registry) (e : EntityId) : (c.enter r e).Declarable :=
  fun e' => (h e').congr (Entity.profile_eq_of_bare (c.bare_enter r e e')).symm

theorem update (h : c.Declarable) (e : EntityId) {f : Entity → Entity}
    (hf : ∀ {x : Entity}, x.Declarable → (f x).Declarable) : (c.update e f).Declarable := by
  intro e'
  by_cases hk : c.Knows e
  · rw [entity_update c e e' f hk]
    split
    · exact hf (h e)
    · exact h e'
  · rw [update_of_not_knows hk]
    exact h e'

/-- There is nothing to declare in a catalog that has only a root. -/
theorem openRegistry (config : Config) : (openRegistry {} config).2.Declarable := by
  intro e
  rw [entity_openRegistry, entity_add]
  split
  · exact nofun
  · exact nofun

end Declarable

/-- Nothing but the root is found below the root of a new registry. -/
theorem eq_root_of_under {config : Config} {n : EntityId}
    (h : (c.openRegistry config).2.Under (c.openRegistry config).1 n) :
    n = (c.openRegistry config).2.root (c.openRegistry config).1 := by
  induction h with
  | refl => rfl
  | tail _ hm ih =>
      obtain ⟨⟨k, hk⟩, -⟩ := hm
      rw [ih, root_fresh, slots, entity_openRegistry, entity_add, if_pos rfl] at hk
      cases hk

end Catalog

namespace Manifest

open Catalog

variable {r : Registry}

/-- **Loading keeps everything declarable.** -/
theorem declarable_walk (r : Registry) :
    Walk r Catalog.Declarable (fun _ => Catalog.Declarable) fun _ => Catalog.Declarable where
  keeps h := h
  made_keeps h := h
  root h := h
  member h _ := h
  found h := h.founded nofun
  make h hnone := h.founded fun m hm => by
    obtain rfl := Option.some.inj hm
    rw [hnone]
    exact nofun
  enter {e _} h _ := h.enter r e
  made_enter {m _} h _ := h.enter r m
  touch {n _ _} h ht := h.update n ht.declarable
  made_touch {m _ _} h ht := h.update m ht.declarable
  loaded h := h

/-- **A manifest is loaded into a new registry and can be shown, or is refused with a report.** -/
theorem load_into_new (config : Config) (data : Value) :
    let new := openRegistry {} config
    (∃ c, load new.1 data new.2 = (.ok (), c) ∧ c.Declarable) ∨
      ∃ fault c report, load new.1 data new.2 = (.error fault, c) ∧
        fault.report? = some report := by
  intro new
  have ho : new.2.Opened new.1 := opened_openRegistry config
  have hcontained : Contained new.1 new.2 new.2 :=
    contained_of_own (wellFormed_openRegistry wellFormed_empty config) ho
      fun n hn => eq_root_of_under hn ▸ ho.home_root
  have hends := (upheld_contained new.1 data new.2).ends_load ⟨hcontained, .refl⟩
  have hkept := (declarable_walk new.1).ends_load data (.openRegistry config)
  unfold Action.Ends at hends hkept
  rcases hrun : load new.1 data new.2 with ⟨fault | _, c⟩
  · rw [hrun] at hends
    obtain ⟨report, hreport, -⟩ := hends.1.report
    exact .inr ⟨fault, c, report, rfl, hreport⟩
  · rw [hrun] at hkept
    exact .inl ⟨c, rfl, hkept⟩

end Manifest

end DocCatalog
