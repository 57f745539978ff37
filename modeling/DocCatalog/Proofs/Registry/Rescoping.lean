/-
**What giving other scopes leaves alone.**

A method that is given another scope gets another path and another key, and may take the place of
another method under both.  Names, owners and all that is written down stay, whether a value spells
a scope or not, and so does the path of every namespace.

Main definitions:

* `Catalog.setScopes`: scopes given to methods, one after the other.

Main results:

* `Catalog.settled_setScopes`, `Catalog.ledger_setScopes`: **what is settled and what is written
  down stays**;
* `Catalog.Lockstep.owner_setScopes`: the owner of a method stays at its path, with what is written
  there.
-/

import DocCatalog.Proofs.Registry.Notes

set_option autoImplicit false

namespace DocCatalog

theorem Entity.path_eq_of_settled {x y : Entity} (h : x.settled = y.settled)
    (hs : y.isSpace = true) : x.path = y.path := by
  have hspace : ∀ {z : Entity}, z.isSpace = true → z.scope? = none := by
    intro z hz
    unfold isSpace at hz
    split at hz
    · next hform => simp [scope?, method?, hform]
    · cases hz
  have hs' := (isSpace_eq_of_settled h).trans hs
  refine path_eq_of_identity ?_
  rw [identity, identity, h, hspace hs, hspace hs']

namespace Catalog

variable {c : Catalog} {r : Registry} {e m n : EntityId}

theorem ledger_moveInOwner (c : Catalog) (e n : EntityId) (old : String × Option Scope) :
    (c.moveInOwner e old).ledger n = c.ledger n := by
  unfold moveInOwner moveMember
  split
  · split
    · exact entity_update_congr Entity.ledger c _ n _ (Entity.ledger_updateTables fun _ => rfl)
    · rfl
  · rfl

theorem ledger_writeScope (c : Catalog) (e n : EntityId) (s : Scope) :
    (c.writeScope e s).ledger n = c.ledger n :=
  entity_update_congr Entity.ledger c e n _ fun x => x.ledger_updateMethod _

theorem ledger_rescope (c : Catalog) (e n : EntityId) (s : Scope) :
    (c.rescope e s).ledger n = c.ledger n := by
  rw [rescope_eq, ledger, entity_closeRekey, ← ledger, rescoped, ledger_moveInOwner,
    ledger_writeScope, ledger, entity_openRekey, ledger]

/-- A step of a scope leaves alone what any other scope of any method leaves alone. -/
theorem setScope_keeps {α : Type} {f : Catalog → α} (hf : ∀ c e s, f (c.rescope e s) = f c)
    (c : Catalog) (e : EntityId) (v : Value) : f (setScope e v c).2 = f c := by
  unfold setScope
  cases Scope.ofValue? v with
  | none => rfl
  | some s =>
      show f ((if (c.entity e).scope? = some s then pure () else set (c.rescope e s) :
        Action Unit) c).2 = f c
      split
      · rfl
      · exact hf c e s

/-- Scopes given to methods, one after the other.  A value that spells no scope changes nothing. -/
def setScopes (c : Catalog) (calls : List (EntityId × Value)) : Catalog :=
  calls.foldl (fun c call => (setScope call.1 call.2 c).2) c

theorem setScopes_keeps {α : Type} {f : Catalog → α} (hf : ∀ c e s, f (c.rescope e s) = f c)
    (calls : List (EntityId × Value)) : ∀ c : Catalog, f (c.setScopes calls) = f c := by
  induction calls with
  | nil => exact fun _ => rfl
  | cons call calls ih => exact fun c => (ih _).trans (setScope_keeps hf c call.1 call.2)

/-- **What is settled stays settled.** -/
theorem settled_setScopes (c : Catalog) (calls : List (EntityId × Value)) (e : EntityId) :
    ((c.setScopes calls).entity e).settled = (c.entity e).settled :=
  setScopes_keeps (f := fun c => (c.entity e).settled) (fun c e' s => c.settled_rescope e' e s)
    calls c

/-- **What is written down stays written down.** -/
theorem ledger_setScopes (c : Catalog) (calls : List (EntityId × Value)) (n : EntityId) :
    (c.setScopes calls).ledger n = c.ledger n :=
  setScopes_keeps (f := fun c => c.ledger n) (fun c e s => c.ledger_rescope e n s) calls c

/-- The owner of a method stays at its path, with what is written down there. -/
theorem Lockstep.owner_setScopes (h : Lockstep r c) (hk : c.Knows m) (hh : (c.entity m).home = r)
    (hkind : (c.entity m).kind = .method) (calls : List (EntityId × Value)) :
    ∃ n, ((c.setScopes calls).entity m).owner? = some n ∧
      (c.setScopes calls).ledger n = c.ledgerAt r ((c.setScopes calls).path n) := by
  obtain ⟨n, ho, hn, hs, hhome⟩ := (h.placed hk hh (h.ne_root_of_kind (.inr hkind))).owner
  have hstands : Stands r c n (c.path n) := ⟨hn, hs, hhome, rfl⟩
  have hpath : (c.setScopes calls).path n = c.path n :=
    Entity.path_eq_of_settled (c.settled_setScopes calls n) hs
  refine ⟨n, (Entity.owner?_eq_of_settled (c.settled_setScopes calls m)).trans ho, ?_⟩
  rw [hpath, h.ledgerAt_of_stands hstands, ledger_setScopes]

end Catalog

end DocCatalog
