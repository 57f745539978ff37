/-
**Scopes given to different methods commute.**

A method has two paths, one for each scope, and two keys in its owner's list.  A change of its scope
writes to these four places and to its own scope, and what it writes depends on them alone; together
they are the method's share of the catalog.  Where the paths of some methods are all different, so
are their keys, and the share of one is out of the reach of the others.  So in any order of calls
the share of a method goes through its own calls only, and all orders that keep the calls of each
method in their order end alike.

Main definitions:

* `Entity.pathAt`, `Catalog.pathsOf`: the path of a method in a scope, and all paths of some
  methods;
* `Catalog.Share`, `Share.move`: what a change of scope reads and writes, and what it does there;
* `Catalog.Interleaves`: an order of calls that keeps the calls of each method in their order.

Main results:

* `Catalog.Family.share_setScope`: a change of scope moves the method's own share and no other;
* `Catalog.Family.share_setScopes`: **the share of a method goes through its own calls only**;
* `Session.rescoping_commutes`: **all interleavings end alike**.
-/

import DocCatalog.Proofs.Registry.Rescoping
import Mathlib.Data.List.Nodup
import Mathlib.Data.List.Pairwise

set_option autoImplicit false

namespace DocCatalog

/-! ### Paths of a method -/

/-- The path that a method has in a scope. -/
def Entity.pathAt (x : Entity) (s : Scope) : String :=
  x.home.separators.methodPath x.name x.ownerPath s

theorem Entity.path_eq_pathAt {x : Entity} {s : Scope} (h : x.scope? = some s) :
    x.path = x.pathAt s := by
  rw [path_eq_kind_scope, h]
  rfl

theorem Entity.pathAt_eq_of_settled {x y : Entity} (h : x.settled = y.settled) (s : Scope) :
    x.pathAt s = y.pathAt s := by
  rw [pathAt, pathAt, ownerPath, ownerPath, home_eq_of_settled h, name_eq_of_settled h,
    lineage_eq_of_settled h]

namespace Catalog

variable {c c' : Catalog} {r : Registry} {family : List EntityId} {e m : EntityId} {s t : Scope}

/-- The paths that some methods have in each scope. -/
def pathsOf (c : Catalog) (family : List EntityId) : List String :=
  family.flatMap fun m => Scope.all.map (c.entity m).pathAt

/-! ### Shares -/

/-- What a change of the scope of a method reads and writes: the scope, who is held at the path that
the method has in each scope, and who is listed under the key that it has in each. -/
@[ext] structure Share where
  scope : Scope
  entry : Scope → Option EntityId
  slot : Scope → Option EntityId

/-- Who is in each place of a method after it went from one scope to another: where it had its own
place it leaves that and takes the other, whoever has it. -/
def relocate (m : EntityId) (old new : Scope) (place : Scope → Option EntityId) :
    Scope → Option EntityId :=
  if place old = some m then fun t => if new = t then some m else if old = t then none else place t
  else place

/-- What giving a method a scope does to its share. -/
def Share.move (m : EntityId) (x : Share) (v : Value) : Share :=
  match Scope.ofValue? v with
  | none => x
  | some s =>
      if x.scope = s then x
      else ⟨s, relocate m x.scope s x.entry, relocate m x.scope s x.slot⟩

/-- The share of a method. -/
def share (c : Catalog) (m : EntityId) : Share where
  scope := ((c.entity m).scope?).getD .onClass
  entry t := (c.entries (c.entity m).home).get? ((c.entity m).pathAt t)
  slot t := (c.entity m).owner?.bind fun n => (c.slots n).get? ((c.entity m).name, some t)

theorem entry_share (c : Catalog) (m : EntityId) (t : Scope) :
    (c.share m).entry t = (c.entries (c.entity m).home).get? ((c.entity m).pathAt t) := rfl

theorem slot_share (c : Catalog) (m : EntityId) (t : Scope) :
    (c.share m).slot t =
      (c.entity m).owner?.bind fun n => (c.slots n).get? ((c.entity m).name, some t) := rfl

/-- A method that has its own place keeps having it. -/
theorem relocate_eq_some_iff (m : EntityId) (old new : Scope) (place : Scope → Option EntityId) :
    relocate m old new place new = some m ↔
      place old = some m ∨ place new = some m := by
  unfold relocate
  split
  · next h => simp [h]
  · next h => simp [h]

/-! ### Families of methods -/

/-- Methods of a registry whose paths, in both scopes, are all different. -/
structure Family (r : Registry) (family : List EntityId) (c : Catalog) : Prop where
  wellFormed : c.WellFormed
  keysHold : c.KeysHold
  opened : c.Opened r
  knows : ∀ m ∈ family, c.Knows m
  home : ∀ m ∈ family, (c.entity m).home = r
  kind : ∀ m ∈ family, (c.entity m).kind = .method
  apart : (c.pathsOf family).Nodup

theorem pathsOf_eq_of_settled (h : ∀ e, (c'.entity e).settled = (c.entity e).settled)
    (family : List EntityId) : c'.pathsOf family = c.pathsOf family := by
  unfold pathsOf
  congr 1
  funext m
  exact List.map_congr_left fun s _ => Entity.pathAt_eq_of_settled (h m) s

theorem mem_pathsOf {p : String} :
    p ∈ c.pathsOf family ↔ ∃ m ∈ family, ∃ s, (c.entity m).pathAt s = p := by
  simp [pathsOf]

namespace Family

/-- What settles nothing anew keeps a family. -/
theorem of_writes (h : Family r family c) (hw : Writes c c')
    (hs : ∀ e, (c'.entity e).settled = (c.entity e).settled) : Family r family c' where
  wellFormed := hw.wellFormed h.wellFormed
  keysHold := hw.keysHold h.wellFormed h.keysHold
  opened := hw.later.opened h.opened
  knows m hm := hw.later.knows (h.knows m hm)
  home m hm := (Entity.home_eq_of_settled (hs m)).trans (h.home m hm)
  kind m hm := (Entity.kind_eq_of_settled (hs m)).trans (h.kind m hm)
  apart := by rw [pathsOf_eq_of_settled hs]; exact h.apart

theorem rescope (h : Family r family c) (hm : m ∈ family) (s : Scope) :
    Family r family (c.rescope m s) :=
  h.of_writes (writes_rescope (h.knows m hm) s) fun e => c.settled_rescope m e s

theorem scope?_eq (h : Family r family c) (hm : m ∈ family) :
    (c.entity m).scope? = some (c.share m).scope := by
  obtain ⟨s, hs⟩ := scope?_of_kind_method (h.kind m hm)
  simp [share, hs]

theorem path_eq (h : Family r family c) (hm : m ∈ family) :
    c.path m = (c.entity m).pathAt (c.share m).scope :=
  Entity.path_eq_pathAt (h.scope?_eq hm)

/-- A method has different paths in different scopes. -/
theorem pathAt_inj (h : Family r family c) (hm : m ∈ family) :
    (c.entity m).pathAt s = (c.entity m).pathAt t ↔ s = t := by
  have hnodup : (Scope.all.map (c.entity m).pathAt).Nodup :=
    (List.nodup_flatMap.1 h.apart).1 m hm
  refine ⟨fun hp => ?_, congrArg _⟩
  exact List.inj_on_of_nodup_map hnodup (Scope.mem_all s) (Scope.mem_all t) hp

/-- Different methods have different paths, whatever their scopes. -/
theorem pathAt_ne (h : Family r family c) (hm : m ∈ family) (he : e ∈ family) (hne : m ≠ e) :
    (c.entity m).pathAt s ≠ (c.entity e).pathAt t := by
  have hsymm : Std.Symm (Function.onFun List.Disjoint fun m =>
      Scope.all.map (c.entity m).pathAt) := ⟨fun _ _ hd => List.disjoint_symm hd⟩
  have hdisjoint := (List.nodup_flatMap.1 h.apart).2.forall hm he hne
  intro hp
  exact hdisjoint (List.mem_map_of_mem (Scope.mem_all s))
    (hp ▸ List.mem_map_of_mem (Scope.mem_all t))

/-- Different methods of one owner have different names. -/
theorem name_ne (h : Family r family c) (hm : m ∈ family) (he : e ∈ family) (hne : m ≠ e)
    (ho : (c.entity m).owner? = (c.entity e).owner?) : (c.entity m).name ≠ (c.entity e).name := by
  intro hname
  refine h.pathAt_ne (s := .onClass) (t := .onClass) hm he hne ?_
  have hlineage : (c.entity m).lineage = (c.entity e).lineage := by
    rw [h.wellFormed.lineage (h.knows m hm), h.wellFormed.lineage (h.knows e he), ho]
  rw [Entity.pathAt, Entity.pathAt, Entity.ownerPath, Entity.ownerPath, hlineage, hname,
    h.home m hm, h.home e he]

/-- A method is registered where its own place is its own. -/
theorem isRegistered_iff (h : Family r family c) (hm : m ∈ family) :
    c.isRegistered r m = true ↔ (c.share m).entry (c.share m).scope = some m := by
  rw [isRegistered, decide_eq_true_eq, h.path_eq hm, share, h.home m hm]

/-- A method that is registered has one place only. -/
theorem entry_eq_some_iff (h : Family r family c) (hm : m ∈ family) :
    (c.share m).entry t = some m ↔
      t = (c.share m).scope ∧ (c.share m).entry (c.share m).scope = some m := by
  constructor
  · intro ht
    have hp : c.path m = (c.entity m).pathAt t := h.keysHold.path_eq ht
    rw [h.path_eq hm] at hp
    have hst := (h.pathAt_inj hm).1 hp
    exact ⟨hst.symm, hst ▸ ht⟩
  · rintro ⟨rfl, ht⟩
    exact ht

end Family

/-! ### What a change of scope reads and writes -/

theorem entries_updateEntries_of_ne (c : Catalog) {r r' : Registry}
    (f : OrderedTable String EntityId → OrderedTable String EntityId) (h : r'.index ≠ r.index) :
    (c.updateEntries r' f).entries r = c.entries r := by
  simp [entries, holdings, updateEntries, updateHoldings, Array.getElem?_modify, h]

theorem entries_openRekey_of_ne (c : Catalog) {r r' : Registry} (e : EntityId)
    (h : r'.index ≠ r.index) : (c.openRekey r' e).2.entries r = c.entries r := by
  simp only [openRekey]
  split
  · exact c.entries_updateEntries_of_ne _ h
  · rfl

theorem entries_closeRekey_of_ne (c : Catalog) {k : Rekeying} (h : k.registry.index ≠ r.index) :
    (c.closeRekey k).entries r = c.entries r := by
  unfold closeRekey
  split
  · exact c.entries_updateEntries_of_ne (fun t => t.insert (c.path k.entity) k.entity) h
  · rfl

/-- A registry to which a method does not belong holds what it held. -/
theorem entries_rescope_of_ne (c : Catalog) (m : EntityId) (s : Scope)
    (h : (c.entity m).home.index ≠ r.index) : (c.rescope m s).entries r = c.entries r := by
  rw [rescope_eq, entries_closeRekey_of_ne _ h, rescoped, entries_congr (stock_moveInOwner _ _ _),
    entries_congr (stock_writeScope _ _ _), entries_openRekey_of_ne _ _ h]

/-- What a call leaves: a value that spells no scope changes nothing, nor does the scope that the
method has. -/
theorem setScope_eq (c : Catalog) (m : EntityId) (v : Value) :
    (setScope m v c).2 =
      match Scope.ofValue? v with
      | none => c
      | some s => if (c.entity m).scope? = some s then c else c.rescope m s := by
  unfold setScope
  cases Scope.ofValue? v with
  | none => rfl
  | some s =>
      show ((if (c.entity m).scope? = some s then pure ()
        else set (c.rescope m s) : Action Unit) c).2 = _
      split
      · next h => simp only [h, if_true]; rfl
      · next h => simp only [h, if_false]; rfl

theorem pathAt_rescope (c : Catalog) (m e : EntityId) (s t : Scope) :
    ((c.rescope m s).entity e).pathAt t = (c.entity e).pathAt t :=
  Entity.pathAt_eq_of_settled (c.settled_rescope m e s) t

namespace Family

variable (h : Family r family c)
include h

theorem scope?_rescope (hm : m ∈ family) (s : Scope) :
    ((c.rescope m s).entity m).scope? = some s := by
  rw [Entity.scope?_eq_of_identity (c.identity_rescope m m s), writeScope,
    entity_update c m m _ (h.knows m hm), if_pos rfl]
  obtain ⟨t, ht⟩ := scope?_of_kind_method (h.kind m hm)
  obtain ⟨f, hf, -⟩ := Option.map_eq_some_iff.1 ht
  simp [Entity.scope?, hf]

/-- What is at a path of a registry after one of its methods got another scope. -/
theorem get?_entries_rescope (hm : m ∈ family) (s : Scope) (p : String) :
    ((c.rescope m s).entries r).get? p =
      if (c.share m).entry (c.share m).scope = some m then
        if (c.entity m).pathAt s = p then some m
        else if (c.entity m).pathAt (c.share m).scope = p then none else (c.entries r).get? p
      else (c.entries r).get? p := by
  have hpath : (c.rescope m s).path m = (c.entity m).pathAt s := by
    rw [path, Entity.path_eq_pathAt (h.scope?_rescope hm s), pathAt_rescope]
  rw [Catalog.get?_entries_rescope (h.home m hm) h.opened.lt, hpath, h.path_eq hm]
  simp only [h.isRegistered_iff hm]

/-- What is under a key of a namespace after a method got another scope. -/
theorem get?_slots_rescope (hm : m ∈ family) (s : Scope) (n : EntityId)
    (k : String × Option Scope) :
    ((c.rescope m s).slots n).get? k =
      if (c.entity m).owner? = some n ∧
          (c.slots n).get? ((c.entity m).name, some (c.share m).scope) = some m then
        if ((c.entity m).name, some s) = k then some m
        else if ((c.entity m).name, some (c.share m).scope) = k then none
        else (c.slots n).get? k
      else (c.slots n).get? k := by
  have hkey : ((c.rescope m s).entity m).memberKey = ((c.entity m).name, some s) := by
    rw [Entity.memberKey, h.scope?_rescope hm s,
      Entity.name_eq_of_settled (c.settled_rescope m m s)]
  rw [Catalog.get?_slots_rescope, hkey, Entity.memberKey, h.scope?_eq hm]

/-- A change of scope moves the method's own share. -/
theorem share_rescope_self (hm : m ∈ family) (s : Scope) :
    (c.rescope m s).share m =
      ⟨s, relocate m (c.share m).scope s (c.share m).entry,
        relocate m (c.share m).scope s (c.share m).slot⟩ := by
  have hset := c.settled_rescope m m s
  ext1
  · rw [share, h.scope?_rescope hm s]
    rfl
  · funext t
    rw [entry_share, Entity.home_eq_of_settled hset, h.home m hm, pathAt_rescope,
      h.get?_entries_rescope hm]
    unfold relocate
    split <;> simp [h.pathAt_inj hm, entry_share, h.home m hm]
  · funext t
    rw [slot_share, Entity.owner?_eq_of_settled hset, Entity.name_eq_of_settled hset]
    unfold relocate
    rw [slot_share]
    cases ho : (c.entity m).owner? with
    | none => simp [slot_share, ho]
    | some n =>
        rw [Option.bind_some, h.get?_slots_rescope hm, ho, Option.bind_some]
        simp only [true_and]
        split <;> simp [slot_share, ho]

/-- The shares of the other methods are out of its reach. -/
theorem share_rescope_of_ne (hm : m ∈ family) (he : e ∈ family) (hne : m ≠ e) (s : Scope) :
    (c.rescope m s).share e = c.share e := by
  have hset := c.settled_rescope m e s
  have hscope : ((c.rescope m s).entity e).scope? = (c.entity e).scope? := by
    rw [Entity.scope?_eq_of_identity (c.identity_rescope m e s), entity_writeScope_of_ne c s hne]
  rw [share, share, hscope, Entity.home_eq_of_settled hset, Entity.owner?_eq_of_settled hset,
    Entity.name_eq_of_settled hset, h.home e he]
  congr 1
  · funext t
    rw [pathAt_rescope, h.get?_entries_rescope hm, if_neg (h.pathAt_ne hm he hne),
      if_neg (h.pathAt_ne hm he hne), ite_self]
  · funext t
    cases ho : (c.entity e).owner? with
    | none => rfl
    | some n =>
        rw [Option.bind_some, Option.bind_some, h.get?_slots_rescope hm]
        split
        · next hown =>
            have hname := h.name_ne hm he hne (hown.1.trans ho.symm)
            rw [if_neg fun hk => hname (congrArg Prod.fst hk),
              if_neg fun hk => hname (congrArg Prod.fst hk)]
        · rfl

/-! ### Calls in any order -/

theorem setScope (hm : m ∈ family) (v : Value) : Family r family (setScope m v c).2 := by
  rw [setScope_eq]
  split
  · exact h
  · split
    · exact h
    · exact h.rescope hm _

/-- **A call moves the method's own share and no other.** -/
theorem share_setScope (hm : m ∈ family) (he : e ∈ family) (v : Value) :
    (Catalog.setScope m v c).2.share e =
      if m = e then (c.share e).move e v else c.share e := by
  rw [setScope_eq, Share.move]
  split
  · exact (ite_self _).symm
  · next s _ =>
      rw [h.scope?_eq hm]
      simp only [Option.some.injEq]
      by_cases hne : m = e
      · subst hne
        rw [if_pos rfl]
        split
        · rfl
        · exact h.share_rescope_self hm s
      · rw [if_neg hne]
        split
        · rfl
        · exact h.share_rescope_of_ne hm he hne s

end Family

/-- An order of calls in which every method of a family gets the values that are meant for it, in
their order, and no other entity gets any. -/
structure Interleaves (calls : List (EntityId × Value)) (family : List EntityId)
    (turns : EntityId → List Value) : Prop where
  mem : ∀ call ∈ calls, call.1 ∈ family
  turns : ∀ m ∈ family, (calls.filter fun call => call.1 = m).map Prod.snd = turns m

namespace Family

theorem setScopes {calls : List (EntityId × Value)} (hmem : ∀ call ∈ calls, call.1 ∈ family) :
    ∀ {c : Catalog}, Family r family c → Family r family (c.setScopes calls) := by
  induction calls with
  | nil => exact fun h => h
  | cons call calls ih =>
      intro c h
      exact ih (fun call' hc => hmem call' (by simp [hc])) (h.setScope (hmem call (by simp)) call.2)

/-- **The share of a method goes through its own calls only.** -/
theorem share_setScopes {calls : List (EntityId × Value)} (hmem : ∀ call ∈ calls, call.1 ∈ family)
    (he : e ∈ family) : ∀ {c : Catalog}, Family r family c →
      (c.setScopes calls).share e =
        ((calls.filter fun call => call.1 = e).map Prod.snd).foldl (Share.move e) (c.share e) := by
  induction calls with
  | nil => exact fun _ => rfl
  | cons call calls ih =>
      intro c h
      have hcall : call.1 ∈ family := hmem call (by simp)
      rw [Catalog.setScopes, List.foldl_cons, ← Catalog.setScopes,
        ih (fun call' hc => hmem call' (by simp [hc])) (h.setScope hcall call.2),
        h.share_setScope hcall he]
      by_cases hce : call.1 = e
      · simp [hce]
      · simp [hce]

/-- What no change of scope of a method of the family touches, no calls touch. -/
theorem setScopes_keeps {α : Type} {f : Catalog → α} {calls : List (EntityId × Value)}
    (hmem : ∀ call ∈ calls, call.1 ∈ family)
    (hf : ∀ {d : Catalog}, Family r family d →
      (∀ e, (d.entity e).settled = (c.entity e).settled) →
        ∀ m ∈ family, ∀ s, f (d.rescope m s) = f d) :
    ∀ {d : Catalog}, Family r family d → (∀ e, (d.entity e).settled = (c.entity e).settled) →
      f (d.setScopes calls) = f d := by
  induction calls with
  | nil => exact fun _ _ => rfl
  | cons call calls ih =>
      intro d h hset
      have hcall : call.1 ∈ family := hmem call (by simp)
      rw [Catalog.setScopes, List.foldl_cons, ← Catalog.setScopes,
        ih (fun call' hc => hmem call' (by simp [hc])) (h.setScope hcall call.2) fun e => ?_]
      · rw [setScope_eq]
        split
        · rfl
        · split
          · rfl
          · exact hf h hset call.1 hcall _
      · exact (setScope_keeps (f := fun c => (c.entity e).settled)
          (fun c e' s => c.settled_rescope e' e s) d call.1 call.2).trans (hset e)

variable (h : Family r family c) {calls : List (EntityId × Value)}
  (hmem : ∀ call ∈ calls, call.1 ∈ family)
include h hmem

/-- What is held at a path of no method of the family stays. -/
theorem get?_entries_setScopes {r' : Registry} {p : String}
    (hp : r.index = r'.index → p ∉ c.pathsOf family) :
    ((c.setScopes calls).entries r').get? p = (c.entries r').get? p := by
  refine setScopes_keeps (f := fun d => (d.entries r').get? p) hmem ?_ h fun _ => rfl
  intro d hd hset m hm s
  by_cases hi : r.index = r'.index
  · have hne : ∀ t, (d.entity m).pathAt t ≠ p := by
      intro t ht
      rw [← pathsOf_eq_of_settled hset] at hp
      exact hp hi (mem_pathsOf.2 ⟨m, hm, t, ht⟩)
    rw [← Catalog.entries_eq_of_index _ hi, ← Catalog.entries_eq_of_index _ hi,
      hd.get?_entries_rescope hm, if_neg (hne _), if_neg (hne _), ite_self]
  · rw [entries_rescope_of_ne d m s (by rwa [hd.home m hm])]

/-- What is listed under a key of no method of the family stays. -/
theorem get?_slots_setScopes {n : EntityId} {k : String × Option Scope}
    (hk : ∀ m ∈ family, (c.entity m).owner? = some n → ∀ t, ((c.entity m).name, some t) ≠ k) :
    ((c.setScopes calls).slots n).get? k = (c.slots n).get? k := by
  refine setScopes_keeps (f := fun d => (d.slots n).get? k) hmem ?_ h fun _ => rfl
  intro d hd hset m hm s
  rw [hd.get?_slots_rescope hm]
  split
  · next hown =>
      rw [Entity.owner?_eq_of_settled (hset m)] at hown
      have hne := hk m hm hown.1
      rw [← Entity.name_eq_of_settled (hset m)] at hne
      rw [if_neg (hne _), if_neg (hne _)]
  · rfl

/-- An entity outside of the family keeps its scope. -/
theorem scope?_setScopes (he : e ∉ family) :
    ((c.setScopes calls).entity e).scope? = (c.entity e).scope? := by
  refine setScopes_keeps (f := fun d => (d.entity e).scope?) hmem ?_ h fun _ => rfl
  intro d hd _ m hm s
  have hne : m ≠ e := fun hme => he (hme ▸ hm)
  rw [Entity.scope?_eq_of_identity (d.identity_rescope m e s), entity_writeScope_of_ne d s hne]

/-- A method of the family is registered exactly if it was. -/
theorem isRegistered_setScopes (hm : m ∈ family) :
    (c.setScopes calls).isRegistered r m = c.isRegistered r m := by
  refine setScopes_keeps (f := fun d => d.isRegistered r m) hmem ?_ h fun _ => rfl
  intro d hd _ e he s
  rw [Bool.eq_iff_iff, (hd.rescope he s).isRegistered_iff hm, hd.isRegistered_iff hm]
  by_cases hem : e = m
  · subst hem
    rw [hd.share_rescope_self he]
    show relocate e _ s _ s = some e ↔ _
    rw [relocate_eq_some_iff, hd.entry_eq_some_iff he (t := s)]
    exact or_iff_left_of_imp And.right
  · rw [hd.share_rescope_of_ne he hm hem]

end Family

/-- Where the shares of all methods of a family agree after calls to these methods, all scopes, all
entries and all slots agree. -/
theorem Family.agree (h : Family r family c) {calls calls' : List (EntityId × Value)}
    (hmem : ∀ call ∈ calls, call.1 ∈ family) (hmem' : ∀ call ∈ calls', call.1 ∈ family)
    (hshare : ∀ m ∈ family, (c.setScopes calls).share m = (c.setScopes calls').share m) :
    (∀ e, ((c.setScopes calls).entity e).scope? = ((c.setScopes calls').entity e).scope?) ∧
    (∀ r' p, ((c.setScopes calls).entries r').get? p = ((c.setScopes calls').entries r').get? p) ∧
    ∀ n k, ((c.setScopes calls).slots n).get? k = ((c.setScopes calls').slots n).get? k := by
  have hd := h.setScopes hmem
  have hd' := h.setScopes hmem'
  have hset := c.settled_setScopes calls
  have hset' := c.settled_setScopes calls'
  refine ⟨fun e => ?_, fun r' p => ?_, fun n k => ?_⟩
  · by_cases he : e ∈ family
    · rw [hd.scope?_eq he, hd'.scope?_eq he, hshare e he]
    · rw [h.scope?_setScopes hmem he, h.scope?_setScopes hmem' he]
  · by_cases hp : r.index = r'.index ∧ p ∈ c.pathsOf family
    · obtain ⟨hi, m, hm, t, rfl⟩ := hp.imp_right mem_pathsOf.1
      have hentry := congrArg (fun x => x.entry t) (hshare m hm)
      simp only [entry_share, hd.home m hm, hd'.home m hm,
        Entity.pathAt_eq_of_settled (hset m), Entity.pathAt_eq_of_settled (hset' m)] at hentry
      rwa [← Catalog.entries_eq_of_index _ hi, ← Catalog.entries_eq_of_index _ hi]
    · rw [not_and] at hp
      rw [h.get?_entries_setScopes hmem hp, h.get?_entries_setScopes hmem' hp]
  · by_cases hk : ∃ m ∈ family, (c.entity m).owner? = some n ∧
        ∃ t, ((c.entity m).name, some t) = k
    · obtain ⟨m, hm, ho, t, rfl⟩ := hk
      have hslot := congrArg (fun x => x.slot t) (hshare m hm)
      simpa only [slot_share, Entity.owner?_eq_of_settled (hset m),
        Entity.owner?_eq_of_settled (hset' m), Entity.name_eq_of_settled (hset m),
        Entity.name_eq_of_settled (hset' m), ho, Option.bind_some] using hslot
    · have hout : ∀ m ∈ family, (c.entity m).owner? = some n →
          ∀ t, ((c.entity m).name, some t) ≠ k :=
        fun m hm ho t ht => hk ⟨m, hm, ho, t, ht⟩
      rw [h.get?_slots_setScopes hmem hout, h.get?_slots_setScopes hmem' hout]

end Catalog

/-! ### Sessions -/

namespace Session

open Catalog

variable {s : Session} {r : Registry} {family : List EntityId}

/-- **Scopes given to different methods commute.**  In every session that can be come to, and for
methods of one registry whose paths in both scopes are all different, all interleavings of the calls
of the methods leave the same scopes, the same entity at every path and the same member under every
key; and every method of them that is registered is held at its path and at no other. -/
theorem rescoping_commutes (hs : s.Reachable) (hr : s.catalog.Opened r)
    (hmethods : ∀ m ∈ family, s.catalog.Knows m ∧ (s.catalog.entity m).home = r ∧
      (s.catalog.entity m).kind = .method)
    (hpaths : (s.catalog.pathsOf family).Nodup) {turns : EntityId → List Value}
    {calls calls' : List (EntityId × Value)} (h : Interleaves calls family turns)
    (h' : Interleaves calls' family turns) :
    let c := s.catalog.setScopes calls
    let c' := s.catalog.setScopes calls'
    (∀ e, (c.entity e).scope? = (c'.entity e).scope?) ∧
    (∀ r' p, (c.entries r').get? p = (c'.entries r').get? p) ∧
    (∀ n k, (c.slots n).get? k = (c'.slots n).get? k) ∧
    ∀ m ∈ family, c.isRegistered r m = s.catalog.isRegistered r m ∧
      (s.catalog.isRegistered r m = true → ∀ p, (c.entries r).get? p = some m ↔ p = c.path m) := by
  intro c c'
  obtain ⟨hwf, hkeys, -⟩ := Reachable.sound hs
  have hf : Family r family s.catalog :=
    ⟨hwf, hkeys, hr, fun m hm => (hmethods m hm).1, fun m hm => (hmethods m hm).2.1,
      fun m hm => (hmethods m hm).2.2, hpaths⟩
  have hshare : ∀ m ∈ family, c.share m = c'.share m := fun m hm => by
    rw [hf.share_setScopes h.mem hm, hf.share_setScopes h'.mem hm, h.turns m hm, h'.turns m hm]
  obtain ⟨hscopes, hentries, hslots⟩ := hf.agree h.mem h'.mem hshare
  refine ⟨hscopes, hentries, hslots, fun m hm => ?_⟩
  have hreg := hf.isRegistered_setScopes h.mem hm
  refine ⟨hreg, fun hwas p => ⟨fun hp => ?_, ?_⟩⟩
  · exact ((hf.setScopes h.mem).keysHold.path_eq hp).symm
  · rintro rfl
    rw [← hreg] at hwas
    simpa [isRegistered] using hwas

/-- Two methods of the class, of which one goes to the instances and back and drives another method
from its path there, while the other stays with the instances. -/
theorem rescoping_commutes_driving :
    let r : Registry := ⟨0, {}⟩
    let act (s : Session) (op : Operation) : Session :=
      { s with catalog := (op.action s.catalog).2 }
    let method (name : String) (scope : Scope) : Operation :=
      .makeMethod { owner? := some ⟨0⟩, name := .text name } (.scope scope)
    let s₁ := act {} (.openRegistry {})
    let s₂ := act s₁ (method "run" .onClass)
    let s₃ := act s₂ (.register r ⟨1⟩)
    let s₄ := act s₃ (method "stop" .onClass)
    let s₅ := act s₄ (.register r ⟨2⟩)
    let s₆ := act s₅ (method "run" .onInstance)
    let s₇ := act s₆ (.register r ⟨3⟩)
    let calls : List (EntityId × Value) :=
      [(⟨1⟩, .text "instance"), (⟨1⟩, .scope .onClass), (⟨2⟩, .text ":Instance")]
    let calls' : List (EntityId × Value) :=
      [(⟨2⟩, .text ":Instance"), (⟨1⟩, .text "instance"), (⟨1⟩, .scope .onClass)]
    s₇.Reachable ∧ s₇.catalog.paths r = ["::run", "::stop", "#run"] ∧
      (s₇.catalog.setScopes calls).paths r = ["::run", "#stop"] ∧
      (s₇.catalog.setScopes calls').paths r = ["#stop", "::run"] ∧
      ∀ r' p, ((s₇.catalog.setScopes calls).entries r').get? p =
        ((s₇.catalog.setScopes calls').entries r').get? p := by
  intro r act method s₁ s₂ s₃ s₄ s₅ s₆ s₇ calls calls'
  have hmake : ∀ {s : Session} (name : String) (scope : Scope), s.Reachable →
      s.catalog.Knows ⟨0⟩ ∧ (s.catalog.entity ⟨0⟩).isSpace = true →
        (act s (method name scope)).Reachable := fun _ _ hs howner =>
    .tail hs (.act _ ⟨fun n h => by cases h; exact howner, fun _ h => by cases h⟩)
  have ho₂ : s₂.catalog.Opened r := ⟨by decide +kernel, by decide +kernel, by decide +kernel⟩
  have ho₄ : s₄.catalog.Opened r := ⟨by decide +kernel, by decide +kernel, by decide +kernel⟩
  have ho₆ : s₆.catalog.Opened r := ⟨by decide +kernel, by decide +kernel, by decide +kernel⟩
  have ho₇ : s₇.catalog.Opened r := ⟨by decide +kernel, by decide +kernel, by decide +kernel⟩
  have h₁ : s₁.Reachable := .single (.act (.openRegistry {}) trivial)
  have h₂ : s₂.Reachable := hmake _ _ h₁ (by decide +kernel)
  have h₃ : s₃.Reachable := .tail h₂ (.act (.register r ⟨1⟩) ⟨ho₂, by decide +kernel⟩)
  have h₄ : s₄.Reachable := hmake _ _ h₃ (by decide +kernel)
  have h₅ : s₅.Reachable := .tail h₄ (.act (.register r ⟨2⟩) ⟨ho₄, by decide +kernel⟩)
  have h₆ : s₆.Reachable := hmake _ _ h₅ (by decide +kernel)
  have h₇ : s₇.Reachable := .tail h₆ (.act (.register r ⟨3⟩) ⟨ho₆, by decide +kernel⟩)
  have hfamily : ∀ m ∈ [(⟨1⟩ : EntityId), ⟨2⟩], s₇.catalog.Knows m ∧
      (s₇.catalog.entity m).home = r ∧ (s₇.catalog.entity m).kind = .method := by decide +kernel
  have hturns : Interleaves calls [⟨1⟩, ⟨2⟩] fun m =>
      if m = ⟨1⟩ then [.text "instance", .scope .onClass] else [.text ":Instance"] :=
    ⟨by decide +kernel, by decide +kernel⟩
  have hturns' : Interleaves calls' [⟨1⟩, ⟨2⟩] fun m =>
      if m = ⟨1⟩ then [.text "instance", .scope .onClass] else [.text ":Instance"] :=
    ⟨by decide +kernel, by decide +kernel⟩
  refine ⟨h₇, by decide +kernel, by decide +kernel, by decide +kernel, ?_⟩
  exact (rescoping_commutes h₇ ho₇ hfamily (by decide +kernel) hturns hturns').2.1

end Session

end DocCatalog
