/-
**Registries that are shown alike.**

What is shown of a registry is told by what is found at its paths and by what its namespaces have
written down.  Everything else shows through these: the name of an entity and the path of its owner
by its own path, the order of the entities by the order of their paths, aliases by the paths of the
methods that they are.  So two registries in which the same is found and the same is written down
have one listing, however they came about.

Main definitions:

* `Profile.shown`: a profile as far as it is shown;
* `Catalog.Alike`: the same is found, as far as it is shown, and the same is written down;
* `Notes.aliasesAt`: the paths of the aliases of a method;
* `Profile.Printable`: a method whose parameters have texts for names.

Main results:

* `Catalog.Alike.record_eq`: entities with one path have one record;
* `Catalog.Alike.listing_eq`: **registries that are alike have one listing**;
* `MethodFields.signature_ok_iff`, `Catalog.record_ok_iff`, `Catalog.listing_ok_iff`: when a method,
  an entity and a registry can be shown;
* `Catalog.KeysHold.listing_ok`: a registry of printable methods has a listing.
-/

import DocCatalog.Export.Listing
import DocCatalog.Proofs.Registry.Notes

set_option autoImplicit false

namespace DocCatalog

/-! ### Lists in order -/

/-- Whether a path is listed before another, or is the same. -/
def listedBefore (p q : String) : Bool := !decide (q < p)

theorem listedBefore_iff {p q : String} : listedBefore p q = true ↔ p ≤ q := by
  rw [listedBefore, Bool.not_eq_true', decide_eq_false_iff_not, String.not_lt]

/-- Paths are listed from the first to the last. -/
theorem pairwise_mergeSort_listedBefore (l : List String) :
    (l.mergeSort listedBefore).Pairwise fun p q => p ≤ q := by
  have htrans : ∀ a b c, listedBefore a b = true → listedBefore b c = true →
      listedBefore a c = true := by
    simp only [listedBefore_iff]
    exact fun a b c => String.le_trans
  have htotal : ∀ a b, (listedBefore a b || listedBefore b a) = true := by
    simp only [Bool.or_eq_true, listedBefore_iff]
    exact String.le_total
  exact (List.pairwise_mergeSort htrans htotal l).imp listedBefore_iff.1

/-- Paths are listed in one order, whatever the order they come in. -/
theorem mergeSort_eq_of_perm {l l' : List String} (h : l.Perm l') :
    l.mergeSort listedBefore = l'.mergeSort listedBefore := by
  have hperm : (l.mergeSort listedBefore).Perm (l'.mergeSort listedBefore) :=
    ((List.mergeSort_perm l _).trans h).trans (List.mergeSort_perm l' _).symm
  exact hperm.eq_of_pairwise (fun a b _ _ => String.le_antisymm)
    (pairwise_mergeSort_listedBefore l) (pairwise_mergeSort_listedBefore l')

/-- Two lists that agree in their keys are worked through alike, if what has one key is. -/
theorem mapM_eq_of_map_eq {α β γ κ : Type} {f : α → Except Fault γ} {g : β → Except Fault γ}
    {key : α → κ} {key' : β → κ} :
    ∀ {l : List α} {l' : List β}, l.map key = l'.map key' →
      (∀ a ∈ l, ∀ b ∈ l', key a = key' b → f a = g b) → l.mapM f = l'.mapM g := by
  intro l
  induction l with
  | nil =>
      intro l' h _
      rw [List.map_nil, eq_comm, List.map_eq_nil_iff] at h
      rw [h]
      rfl
  | cons a l ih =>
      intro l' h hfg
      cases l' with
      | nil => cases h
      | cons b l' =>
          obtain ⟨hhead, htail⟩ := List.cons.inj h
          rw [List.mapM_cons, List.mapM_cons, hfg a (by simp) b (by simp) hhead,
            ih htail fun a ha b hb => hfg a (by simp [ha]) b (by simp [hb])]

/-! ### What is shown of a profile -/

/-- A method as far as it is shown: only whether it counts as written out matters. -/
def MethodFields.shown (m : MethodFields) : MethodFields := { m with explicit := .bool m.isExplicit }

/-- A profile as far as it is shown. -/
def Profile.shown (f : Profile) : Profile := { f with method? := f.method?.map MethodFields.shown }

/-- The scope of a method. -/
def Profile.scope? (f : Profile) : Option Scope := f.method?.map MethodFields.scope

theorem MethodFields.shown_eq_iff {m m' : MethodFields} : m'.shown = m.shown ↔
    m'.scope = m.scope ∧ m'.visibility = m.visibility ∧ m'.parameters = m.parameters ∧
      m'.isExplicit = m.isExplicit := by
  simp [shown]

@[simp] theorem Profile.scope?_shown (f : Profile) : f.shown.scope? = f.scope? := by
  cases hm : f.method? <;> simp [Profile.scope?, Profile.shown, hm, MethodFields.shown]

/-- The paths of the methods that a namespace knows as aliases of another of its scope. -/
def Notes.aliasesAt (w : Notes) (scopeAt : String → Option Scope) (owner path name : String)
    (scope? : Option Scope) : List String :=
  ((((w.aliases owner).filter fun a => a.2 = name).filterMap Prod.fst).filter fun p =>
    p ≠ path && scopeAt p = scope?)

namespace Catalog

variable {c c' : Catalog} {r r' : Registry} {e e' n : EntityId} {p path : String}

/-! ### What is held at its path -/

theorem Lockstep.placed_of_get? (h : Lockstep r c) (hget : (c.entries r).get? p = some e) :
    Placed r c (c.entity e) := by
  have hhome := h.keysHold.home h.wellFormed h.opened hget
  refine h.placed (h.wellFormed.knows_entry hget) hhome ?_
  rintro rfl
  rw [← h.keysHold.path_eq hget, h.path_root, h.vacant] at hget
  cases hget

/-- The namespace that owns what is held stands at the path of its names. -/
theorem Lockstep.owner_of_get? (h : Lockstep r c) (hget : (c.entries r).get? p = some e) :
    ∃ n, (c.entity e).owner? = some n ∧
      Stands r c n (r.separators.spacePath (ownerNames (c.entity e).lineage)) := by
  have hx := h.placed_of_get? hget
  obtain ⟨n, ho, hk, hs, hh⟩ := hx.owner
  refine ⟨n, ho, hk, hs, hh, ?_⟩
  rw [← ownerPath_eq_path hs (ho ▸ hx.lineage), Entity.ownerPath,
    lineagePath_eq_spacePath fun a ha => by rw [(h.plainIn hx).owners_home a ha]]

/-- Two registries with one kind of paths in which the same is found, as far as it is shown, and the
same is written down. -/
structure Alike (r : Registry) (c : Catalog) (r' : Registry) (c' : Catalog) : Prop where
  separators : r'.separators = r.separators
  view : ∀ p, (c'.view r' p).map Profile.shown = (c.view r p).map Profile.shown
  notes : c'.notes r' = c.notes r

namespace Alike

section Counterparts

variable (ha : Alike r c r' c') (h : Lockstep r c) (h' : Lockstep r' c')
  (hget : (c.entries r).get? p = some e) (hget' : (c'.entries r').get? p = some e')
include ha hget hget'

theorem profile_eq : (c'.entity e').profile.shown = (c.entity e).profile.shown := by
  have hview := ha.view p
  simpa [Catalog.view, hget, hget'] using hview

include h h'

/-- What is held under one path has one name, one scope and owners of one path. -/
theorem parts_eq : (c.entity e).name = (c'.entity e').name ∧
    (c.entity e).scope? = (c'.entity e').scope? ∧ ∃ q n n',
      (c.entity e).owner? = some n ∧ Stands r c n q ∧
      (c'.entity e').owner? = some n' ∧ Stands r' c' n' q := by
  have hx := h.placed_of_get? hget
  have hy := h'.placed_of_get? hget'
  have hpx := h.plainIn hx
  have hpy := h'.plainIn hy
  have hp : (c.entity e).path = (c'.entity e').path :=
    (h.keysHold.path_eq hget).trans (h'.keysHold.path_eq hget').symm
  have howners := hpy.ownerNames_plain
  have hplain := hy.plain
  rw [hpx.path_eq (kind_ne_root_of_scope hx.kind), hpy.path_eq (kind_ne_root_of_scope hy.kind),
    ha.separators] at hp
  rw [ha.separators] at howners hplain
  obtain ⟨hnames, hname, hscope⟩ := Separators.render_parts (s := r.separators) r.config.distinct
    hpx.ownerNames_plain howners hx.plain hplain hp
  obtain ⟨n, ho, hn⟩ := h.owner_of_get? hget
  obtain ⟨n', ho', hn'⟩ := h'.owner_of_get? hget'
  rw [ha.separators, ← hnames] at hn'
  exact ⟨hname, hscope, _, n, n', ho, hn, ho', hn'⟩

end Counterparts

end Alike

/-! ### Attributes and aliases -/

/-- The scope of what is found at a path. -/
def scopeAt (c : Catalog) (r : Registry) (p : String) : Option Scope :=
  (c.view r p).bind Profile.scope?

theorem scopeAt_path (hreg : c.isRegistered r e = true) :
    c.scopeAt r (c.path e) = (c.entity e).scope? := by
  rw [scopeAt, view_path hreg]
  rfl

/-- Whether a method bears the name of an attribute is read at the path of its owner. -/
theorem isAttribute_eq (h : Lockstep r c) (ho : (c.entity e).owner? = some n)
    (hn : Stands r c n path) : c.isAttribute e = (c.entity e).scope?.any fun s =>
      (c.notes r).declares path s (c.entity e).attributeName := by
  rw [isAttribute, accessors?, ho, declares_notes, h.ledgerAt_of_stands hn]
  cases hs : (c.entity e).scope? with
  | none => simp
  | some s => cases hat : (c.tables n).attributes? s <;> simp [Tables.declares, ledger_eq, hat]

section Aliases

variable (h : Lockstep r c) (hget : (c.entries r).get? p = some e) (hn : Stands r c n path)
  (ha : AliasesHeld r c) (ho : (c.entity e).owner? = some n)
include h hget hn ha

/-- A registered alias is known by its path. -/
theorem alias_of_mem {a : Option EntityId × String} (hmem : a ∈ (c.tables n).aliases.toList) :
    ∃ e', a.1 = some e' ∧ c.isRegistered r e' = true ∧ (c.path e' = p ↔ e' = e) := by
  have hkey : a.1 ∈ (c.ledgerAt r path).aliases.keys := by
    rw [h.ledgerAt_of_stands hn]
    exact List.mem_map.2 ⟨a, hmem, rfl⟩
  obtain ⟨e', he', hreg, -⟩ := ha path a.1 hkey
  refine ⟨e', he', hreg, fun hp => ?_, fun he => he ▸ h.keysHold.path_eq hget⟩
  have hget' := get?_of_isRegistered hreg
  rw [hp, hget] at hget'
  exact (Option.some.inj hget').symm

include ho

/-- Whether a method is an alias is read at the path of its owner. -/
theorem isAlias_iff :
    c.isAlias e = true ↔ ∃ name, (some p, name) ∈ (c.notes r).aliases path := by
  have hkeys : c.isAlias e = true ↔ some e ∈ (c.tables n).aliases.keys := by
    rw [isAlias, ho]
    simp only [OrderedTable.contains, Option.isSome_iff_ne_none, Ne,
      OrderedTable.get?_eq_none_iff, not_not]
  rw [hkeys, aliases_notes, h.ledgerAt_of_stands hn]
  constructor
  · intro hmem
    obtain ⟨a, ha, he⟩ := List.mem_map.1 hmem
    refine ⟨a.2, List.mem_map.2 ⟨a, ha, ?_⟩⟩
    rw [he, Option.map_some, h.keysHold.path_eq hget]
  · rintro ⟨name, hmem⟩
    obtain ⟨a, hmem, hpath⟩ := List.mem_map.1 hmem
    obtain ⟨e', he', -, hp⟩ := alias_of_mem h hget hn ha hmem
    rw [he'] at hpath
    obtain rfl := hp.1 (Option.some.inj (congrArg Prod.fst hpath))
    exact List.mem_map.2 ⟨a, hmem, he'⟩

/-- The aliases of a method are read at the path of its owner. -/
theorem map_path_aliasesOf : (c.aliasesOf e).map c.path =
    (c.notes r).aliasesAt (c.scopeAt r) path p (c.entity e).name (c.entity e).scope? := by
  have hall := fun a => alias_of_mem h hget hn ha (a := a)
  rw [aliasesOf, ho, Notes.aliasesAt, aliases_notes, h.ledgerAt_of_stands hn, aliasPaths]
  change _ = List.filter _ (List.filterMap _ (List.filter _
    (List.map _ (c.tables n).aliases.toList)))
  simp only
  generalize (c.tables n).aliases.toList = l at hall ⊢
  induction l with
  | nil => rfl
  | cons a l ih =>
      obtain ⟨e', he', hreg, hp⟩ := hall a (by simp)
      have hrest := ih fun b hb => hall b (by simp [hb])
      by_cases hname : a.2 = (c.entity e).name <;> by_cases hself : e' = e <;>
        by_cases hscope : (c.entity e').scope? = (c.entity e).scope? <;>
        simp_all [scopeAt_path]

end Aliases

/-! ### Records and listings -/

theorem Alike.scopeAt_eq (halike : Alike r c r' c') : c'.scopeAt r' = c.scopeAt r := by
  funext p
  have hview := congrArg (Option.bind · Profile.scope?) (halike.view p)
  simpa [scopeAt, Option.bind_map, Function.comp_def] using hview

section Records

variable (halike : Alike r c r' c') (h : Lockstep r c) (h' : Lockstep r' c')
  (ha : AliasesHeld r c) (ha' : AliasesHeld r' c')
include halike h h' ha ha'

/-- **What is held under one path has one record.** -/
theorem Alike.record_eq (hget : (c.entries r).get? p = some e)
    (hget' : (c'.entries r').get? p = some e') : c'.record e' = c.record e := by
  obtain ⟨hname, hscope, q, n, n', ho, hn, ho', hn'⟩ := halike.parts_eq h h' hget hget'
  have hattribute : c'.isAttribute e' = c.isAttribute e := by
    rw [isAttribute_eq h' ho' hn', isAttribute_eq h ho hn, halike.notes, hscope,
      Entity.attributeName, Entity.attributeName, hname]
  have halias : c'.isAlias e' = c.isAlias e := by
    rw [Bool.eq_iff_iff, isAlias_iff h' hget' hn' ha' ho', isAlias_iff h hget hn ha ho,
      halike.notes]
  have haliases : (c'.aliasesOf e').map c'.path = (c.aliasesOf e).map c.path := by
    rw [map_path_aliasesOf h' hget' hn' ha' ho', map_path_aliasesOf h hget hn ha ho, halike.notes,
      halike.scopeAt_eq, hname, hscope]
  -- what is shown of two methods is the same
  have hmethod : ∀ {m m' : MethodFields}, m'.shown = m.shown →
      c'.methodRecord e' m' = c.methodRecord e m := by
    intro m m' hm
    obtain ⟨hsame, hvisibility, hparameters, hexplicit⟩ := MethodFields.shown_eq_iff.1 hm
    simp only [methodRecord, MethodFields.signature, hattribute, halias, haliases, hname, hexplicit,
      hvisibility, hparameters, hsame]
  have hprofile := halike.profile_eq hget hget'
  have hkind : (c'.entity e').kind = (c.entity e).kind := congrArg Profile.kind hprofile
  have hdocstring : (c'.entity e').docstring = (c.entity e).docstring :=
    congrArg Profile.docstring hprofile
  have hfiles : (c'.entity e').files = (c.entity e).files := congrArg Profile.files hprofile
  have hfields : (c'.entity e').method?.map MethodFields.shown =
      (c.entity e).method?.map MethodFields.shown := congrArg Profile.method? hprofile
  have hpath : (c'.entity e').path = (c.entity e).path :=
    (h'.keysHold.path_eq hget').trans (h.keysHold.path_eq hget).symm
  have howner : (c'.entity e').owner?.map c'.path = (c.entity e).owner?.map c.path := by
    rw [ho, ho', Option.map_some, Option.map_some, hn.path_eq, hn'.path_eq]
  cases hm : (c.entity e).method? with
  | none =>
      rw [hm, Option.map_none, Option.map_eq_none_iff] at hfields
      simp only [record, hm, hfields, hkind, hdocstring, hfiles, hpath, howner, hname]
  | some m =>
      rw [hm, Option.map_some, Option.map_eq_some_iff] at hfields
      obtain ⟨m', hm', hshown⟩ := hfields
      simp only [record, hm, hm', hmethod hshown, hkind, hdocstring, hfiles, hpath, howner, hname]

end Records

/-- What some filters admit. -/
def admits (fs : List Filter) (kind : EntityKind) : Prop :=
  fs = [] ∨ fs.any (fun f => f.admits kind) = true

theorem mem_held_iff (hk : c.KeysHold) {fs : List Filter} : e ∈ c.held r fs ↔
    (c.entries r).get? (c.path e) = some e ∧ admits fs (c.entity e).kind := by
  have hvalues : e ∈ (c.entries r).values ↔ (c.entries r).get? (c.path e) = some e := by
    constructor
    · intro hmem
      obtain ⟨a, hlisted, rfl⟩ := List.mem_map.1 hmem
      have hget : (c.entries r).get? a.1 = some a.2 :=
        (OrderedTable.get?_eq_some_iff _ _ _).2 hlisted
      rw [hk.path_eq hget, hget]
    · exact fun hget => List.mem_map.2 ⟨_, (OrderedTable.get?_eq_some_iff _ _ _).1 hget, rfl⟩
  rw [← hvalues, held, admits]
  by_cases hfs : fs = [] <;> simp [hfs]

/-- The paths under which a registry holds what some filters admit are those where it is found. -/
theorem mem_map_path_held (h : Lockstep r c) {fs : List Filter} :
    p ∈ (c.held r fs).map c.path ↔ ∃ f, c.view r p = some f ∧ admits fs f.kind := by
  simp only [List.mem_map, mem_held_iff h.keysHold, view]
  constructor
  · rintro ⟨e, ⟨hget, hadmits⟩, rfl⟩
    exact ⟨_, by rw [hget]; rfl, hadmits⟩
  · rintro ⟨f, hview, hadmits⟩
    obtain ⟨e, hget, rfl⟩ := Option.map_eq_some_iff.1 hview
    have hpath := h.keysHold.path_eq hget
    exact ⟨e, ⟨by rw [hpath, hget], hadmits⟩, hpath⟩

theorem map_path_values (hk : c.KeysHold) : (c.entries r).values.map c.path = c.paths r := by
  rw [OrderedTable.values, paths, OrderedTable.keys, List.map_map]
  refine List.map_congr_left fun a hmem => ?_
  exact hk.path_eq ((OrderedTable.get?_eq_some_iff _ _ _).2 hmem)

theorem nodup_map_path_held (hk : c.KeysHold) (fs : List Filter) :
    ((c.held r fs).map c.path).Nodup := by
  have hsub : (c.held r fs).Sublist (c.entries r).values := by
    unfold held
    split
    · exact .refl _
    · exact List.filter_sublist
  have hnodup : ((c.entries r).values.map c.path).Nodup := by
    rw [map_path_values hk]
    exact (c.entries r).nodup
  exact (hsub.map c.path).nodup hnodup

theorem map_path_inOrder (c : Catalog) (r : Registry) (fs : List Filter) :
    (c.inOrder r fs).map c.path = ((c.held r fs).map c.path).mergeSort listedBefore :=
  List.map_mergeSort fun _ _ _ _ => rfl

/-- What some filters admit is found under the same paths. -/
theorem Alike.perm_map_path_held (halike : Alike r c r' c') (h : Lockstep r c)
    (h' : Lockstep r' c') (fs : List Filter) :
    ((c'.held r' fs).map c'.path).Perm ((c.held r fs).map c.path) := by
  rw [List.perm_ext_iff_of_nodup (nodup_map_path_held h'.keysHold fs)
    (nodup_map_path_held h.keysHold fs)]
  intro p
  have hkind : (c'.view r' p).map Profile.kind = (c.view r p).map Profile.kind := by
    simpa [Function.comp_def, Profile.shown] using congrArg (Option.map Profile.kind) (halike.view p)
  have hfound : ∀ v : Option Profile, (∃ f, v = some f ∧ admits fs f.kind) ↔
      ∃ k, v.map Profile.kind = some k ∧ admits fs k := by
    intro v
    cases v <;> simp
  rw [mem_map_path_held h', mem_map_path_held h, hfound, hfound, hkind]

theorem mem_inOrder_iff_held {fs : List Filter} : e ∈ c.inOrder r fs ↔ e ∈ c.held r fs :=
  (List.mergeSort_perm _ _).mem_iff

theorem get?_of_mem_inOrder (hk : c.KeysHold) {fs : List Filter} (he : e ∈ c.inOrder r fs) :
    (c.entries r).get? (c.path e) = some e :=
  ((mem_held_iff hk).1 (mem_inOrder_iff_held.1 he)).1

/-- **Registries in step that are alike have one listing**, whatever kinds are asked for. -/
theorem Alike.listing_eq (halike : Alike r c r' c') (h : Lockstep r c) (h' : Lockstep r' c')
    (ha : AliasesHeld r c) (ha' : AliasesHeld r' c') (fs : List Filter) :
    c'.listing r' fs = c.listing r fs := by
  have hpaths : (c'.inOrder r' fs).map c'.path = (c.inOrder r fs).map c.path := by
    rw [map_path_inOrder, map_path_inOrder]
    exact mergeSort_eq_of_perm (halike.perm_map_path_held h h' fs)
  have hsize : (c'.entries r').size = (c.entries r).size := by
    have hperm := (halike.perm_map_path_held h h' []).length_eq
    simpa [held, OrderedTable.values, OrderedTable.size] using hperm
  have hrecords : (c'.inOrder r' fs).mapM c'.record = (c.inOrder r fs).mapM c.record := by
    refine mapM_eq_of_map_eq hpaths fun e' he' e he hp => ?_
    exact halike.record_eq h h' ha ha' (get?_of_mem_inOrder h.keysHold he)
      (hp ▸ get?_of_mem_inOrder h'.keysHold he')
  rw [listing, listing, hrecords, hsize]

/-! ### Listings that can be shown -/

/-- A list is worked through exactly if each of its elements is. -/
theorem mapM_ok_iff {α β : Type} {f : α → Except Fault β} {l : List α} :
    (∃ bs, l.mapM f = .ok bs) ↔ ∀ a ∈ l, ∃ b, f a = .ok b := by
  induction l with
  | nil => exact iff_of_true ⟨[], rfl⟩ (List.forall_mem_nil _)
  | cons a l ih =>
      rw [List.forall_mem_cons, ← ih, List.mapM_cons]
      cases f a <;> cases l.mapM f <;> simp [bind, Except.bind, pure, Except.pure]

end Catalog

/-- A profile whose parameters, if it is a method, have texts for names. -/
def Profile.Printable (f : Profile) : Prop :=
  ∀ m, f.method? = some m → ∀ p ∈ m.parameters, ∃ s, p.name = .text s

/-- What is printable can be declared, with defaults and without. -/
theorem Profile.Printable.declarable {x : Entity} (h : x.profile.Printable) : x.Declarable :=
  fun m hm p hp => .inr (h m hm p hp)

/-- A method has a signature exactly if its parameters can be declared. -/
theorem MethodFields.signature_ok_iff (m : MethodFields) (name : String) :
    (∃ s, m.signature name = .ok s) ↔ ∀ p ∈ m.parameters, p.Declarable := by
  simp only [← Parameter.render_ok_iff, ← Catalog.mapM_ok_iff, signature]
  cases m.parameters.mapM Parameter.render <;> simp [bind, Except.bind, pure, Except.pure]

namespace Catalog

variable {c : Catalog} {r : Registry} {e : EntityId}

/-- The record of an entity, given what is shown of it as a method. -/
def recordWith (c : Catalog) (e : EntityId) (method? : Option MethodRecord) : EntityRecord where
  path := c.path e
  kind := (c.entity e).kind
  name := (c.entity e).name
  namespacePath? := (c.entity e).owner?.map c.path
  docstring := (c.entity e).docstring
  files := (c.entity e).files
  method?

theorem record_of_not_method (hm : (c.entity e).method? = none) :
    c.record e = .ok (c.recordWith e none) := by
  rw [record, hm]
  rfl

theorem record_of_method {m : MethodFields} {shown : MethodRecord}
    (hm : (c.entity e).method? = some m) (hshown : c.methodRecord e m = .ok shown) :
    c.record e = .ok (c.recordWith e (some shown)) := by
  simp only [record, hm, hshown]
  rfl

theorem declarable_iff_of_method {m : MethodFields} (hm : (c.entity e).method? = some m) :
    (c.entity e).Declarable ↔ ∀ p ∈ m.parameters, p.Declarable := by
  simp [Entity.Declarable, hm]

/-- An entity has a record exactly if it can be declared. -/
theorem record_ok_iff : (∃ x, c.record e = .ok x) ↔ (c.entity e).Declarable := by
  cases hm : (c.entity e).method? with
  | none => exact iff_of_true ⟨_, record_of_not_method hm⟩ (by simp [Entity.Declarable, hm])
  | some m =>
      rw [declarable_iff_of_method hm, ← m.signature_ok_iff (c.entity e).name]
      simp only [record, hm, methodRecord]
      cases m.signature (c.entity e).name <;>
        simp [bind, Except.bind, pure, Except.pure, Except.map]

/-- A registry has a listing exactly if all that is shown of it can be declared. -/
theorem listing_ok_iff {fs : List Filter} :
    (∃ l, c.listing r fs = .ok l) ↔ ∀ x ∈ c.held r fs, (c.entity x).Declarable := by
  simp only [← record_ok_iff, ← mem_inOrder_iff_held (c := c), ← mapM_ok_iff, listing]
  cases (c.inOrder r fs).mapM c.record <;> simp [bind, Except.bind, pure, Except.pure]

/-- A registry in which all methods are printable has a listing. -/
theorem KeysHold.listing_ok (hk : c.KeysHold)
    (hprintable : ∀ p f, c.view r p = some f → f.Printable) (fs : List Filter) :
    ∃ l, c.listing r fs = .ok l := by
  refine listing_ok_iff.2 fun e he => (hprintable (c.path e) _ ?_).declarable
  rw [view, get?_of_mem_inOrder hk (mem_inOrder_iff_held.2 he)]
  rfl

end Catalog

end DocCatalog
