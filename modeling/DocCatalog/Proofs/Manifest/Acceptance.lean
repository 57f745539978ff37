/-
**Which manifests are accepted.**

A manifest is accepted or refused for what it says, not for how a registry came about: it must have
the shape of a manifest, every entry must be legible by itself, and the methods that its attributes
and aliases refer to must be among those that were found before or that it describes itself.

Main definitions:

* `Action.Succeeds`: a step succeeds in a catalog;
* `Manifest.Legible`: an entry can be read;
* `Manifest.references`: the paths of the methods that an entry refers to;
* `View.HasMethod`: a method is found at a path;
* `Manifest.Admissible`: a manifest has its shape, is legible, and refers to methods that are known.

Main results:

* `Manifest.load_eq_ok_iff`: loading a manifest is loading its entries one by one;
* `Manifest.loadEntry_succeeds_iff`: **an entry is accepted exactly when it is legible and the
  methods that it refers to are found**;
* `Manifest.load_succeeds_iff`: **a manifest is accepted exactly when it is admissible**.
-/

import DocCatalog.Proofs.Manifest.Meaning

set_option autoImplicit false

namespace DocCatalog

open Catalog

/-! ### Steps that succeed -/

namespace Action

variable {α β : Type} {c c' : Catalog} {a : Action α} {f : α → Action β}

/-- A step succeeds in a catalog. -/
def Succeeds (a : Action α) (c : Catalog) : Prop := ∃ x c', a c = (.ok x, c')

theorem succeeds_pure (x : α) (c : Catalog) : (Pure.pure x : Action α).Succeeds c := ⟨x, c, rfl⟩

theorem succeeds_change (g : Catalog → Catalog) (c : Catalog) : (change g).Succeeds c :=
  ⟨(), g c, rfl⟩

theorem succeeds_bind :
    (a >>= f).Succeeds c ↔ ∃ x c₁, a c = (.ok x, c₁) ∧ (f x).Succeeds c₁ := by
  constructor
  · rintro ⟨y, c', h⟩
    obtain ⟨x, c₁, ha, hf⟩ := bind_eq_ok h
    exact ⟨x, c₁, ha, y, c', hf⟩
  · rintro ⟨x, c₁, ha, y, c', hf⟩
    exact ⟨y, c', (bind_of_ok ha).trans hf⟩

theorem succeeds_bind_of_ok {x : α} (h : a c = (.ok x, c')) :
    (a >>= f).Succeeds c ↔ (f x).Succeeds c' := by
  unfold Succeeds
  rw [bind_of_ok h]

theorem succeeds_get_bind {f : Catalog → Action β} :
    (MonadState.get >>= f).Succeeds c ↔ (f c).Succeeds c := Iff.rfl

/-- Plain data is read first, which changes nothing. -/
theorem succeeds_lift_bind {q : Except Fault α} :
    ((liftM q : Action α) >>= f).Succeeds c ↔ ∃ x, q = .ok x ∧ (f x).Succeeds c := by
  rw [succeeds_bind]
  constructor
  · rintro ⟨x, c₁, hq, hf⟩
    obtain ⟨rfl, rfl⟩ := lift_eq_ok hq
    exact ⟨x, rfl, hf⟩
  · rintro ⟨x, rfl, hf⟩
    exact ⟨x, c, rfl, hf⟩

/-- All of some steps succeed one after the other exactly when what makes each of them succeed
holds of each, if that does not depend on the catalog as long as all keep something. -/
theorem succeeds_forM {l : List α} {f : α → Action Unit} {P : Catalog → Prop} {Q : α → Prop}
    (hf : ∀ x ∈ l, ∀ {c}, P c → ((f x).Succeeds c ↔ Q x))
    (hP : ∀ x ∈ l, ∀ {c c'}, P c → f x c = (.ok (), c') → P c') :
    ∀ {c}, P c → ((l.forM f).Succeeds c ↔ ∀ x ∈ l, Q x) := by
  induction l with
  | nil =>
      intro c _
      simpa using succeeds_pure () c
  | cons x l ih =>
      intro c hc
      have hrest := @ih (fun y hy => hf y (by simp [hy])) fun y hy => hP y (by simp [hy])
      rw [List.forall_mem_cons, ← hf x (by simp) hc]
      refine (succeeds_bind (a := f x) (f := fun _ => l.forM f)).trans ?_
      constructor
      · rintro ⟨_, c₁, hx, hl⟩
        exact ⟨⟨_, c₁, hx⟩, (hrest (hP x (by simp) hc hx)).1 hl⟩
      · rintro ⟨⟨_, c₁, hx⟩, hl⟩
        exact ⟨_, c₁, hx, (hrest (hP x (by simp) hc hx)).2 hl⟩

end Action

/-! ### Methods at paths -/

/-- A method is found at a path. -/
def View.HasMethod (v : View) (p : String) : Prop := ∃ f, v p = some f ∧ f.kind = .method

namespace Manifest

open DocCatalog.Action (Succeeds)

variable {c c' : Catalog} {r : Registry} {m : EntityId} {entry : Fields} {part : Part}
  {data : Value} {p : String} {v : View}

/-- Namespaces on the way are made where nothing is found. -/
theorem hasMethod_reach (v : View) (paths : List String) (p : String) :
    (v.reach paths).HasMethod p ↔ v.HasMethod p := by
  unfold View.HasMethod View.reach
  by_cases hp : p ∈ paths
  · cases hv : v p <;> simp [hp]
  · simp [hp]

theorem hasMethod_amend {g : Profile → Profile} (hg : ∀ f, (g f).kind = f.kind) (v : View)
    (path p : String) : (v.amend path g).HasMethod p ↔ v.HasMethod p := by
  unfold View.HasMethod View.amend
  by_cases hp : path = p
  · subst hp
    cases v path <;> simp [hg]
  · simp [hp]

theorem hasMethod_put {f : Profile} (hf : f.kind = .method) (v : View) (path p : String) :
    (v.put path f).HasMethod p ↔ v.HasMethod p ∨ path = p := by
  unfold View.HasMethod View.put
  by_cases hp : path = p <;> simp [hp, hf]

theorem kind_of_methodProfile? {f : Profile} (h : methodProfile? r entry = some f) :
    f.kind = .method := by
  obtain ⟨fields, -, rfl⟩ := Option.map_eq_some_iff.1 h
  rfl

/-- After an entry the methods of before are found, and that of the entry if it describes one. -/
theorem hasMethod_step (haccepted : Accepted r part entry) (p : String) :
    (step r v part entry).HasMethod p ↔
      v.HasMethod p ∨ (part = .methods ∧ methodPath? r entry = some p) := by
  cases part with
  | methods =>
      obtain ⟨path, f, hpath, hf⟩ := haccepted.method rfl
      simp only [step, arrive, hpath, hf]
      rw [hasMethod_put (kind_of_methodProfile? hf), hasMethod_reach]
      simp
  | namespaces =>
      rw [step, arrive, hasMethod_amend (g := (Profile.annotate · entry)) (fun _ => rfl),
        hasMethod_reach]
      simp
  | attributes => simp [step, arrive, hasMethod_reach]
  | aliases => simp [step, arrive, hasMethod_reach]

/-! ### Legible entries -/

/-- A reading succeeds. -/
def Reads {α : Type} (q : Except Fault α) : Prop := ∃ x, q = .ok x

theorem reads_and {α : Type} {q : Except Fault α} {P : Prop} :
    Reads q ∧ P ↔ ∃ x, q = .ok x ∧ P := exists_and_right.symm

/-- The documentation and the place of an entry can be read. -/
structure Annotated (part : Part) (entry : Fields) : Prop where
  docstring : (Value.field? entry "docstring").isSome = true → Reads (text entry "docstring" part)
  place : Reads (place? entry part)

/-- What an entry says about a method can be read. -/
structure Described (entry : Fields) : Prop where
  visibility : ∀ v, Value.field? entry "visibility" = some v → (Visibility.ofValue? v).isSome = true
  parameters : Reads (parameters entry)
  annotated : Annotated .methods entry

/-- An entry can be read: the fields that it needs are there, and those that it has are what they
must be. -/
def Legible : Part → Fields → Prop
  | .namespaces, entry => Reads (text entry "path" .namespaces) ∧ Annotated .namespaces entry
  | .methods, entry => Reads (textOr "" entry "namespace" .methods) ∧
      Reads (text entry "name" .methods) ∧ (scopeOf? entry).isSome = true ∧ Described entry
  | .attributes, entry => Reads (textOr "" entry "namespace" .attributes) ∧
      Reads (text entry "name" .attributes) ∧ Reads (textOrNull entry "read" .attributes) ∧
      Reads (textOrNull entry "write" .attributes) ∧ (scopeOf? entry).isSome = true
  | .aliases, entry => Reads (textOr "" entry "namespace" .aliases) ∧
      Reads (text entry "method" .aliases) ∧ Reads (text entry "aliases" .aliases)

/-- The text of a field, if it is there and is one. -/
def textAt? (entry : Fields) (key : String) : Option String :=
  (Value.field? entry key).bind Value.text?

/-- The paths of the methods that an entry refers to. -/
def references : Part → Fields → List String
  | .attributes, entry => ["read", "write"].filterMap (textAt? entry)
  | .aliases, entry => (textAt? entry "method").toList
  | _, _ => []

theorem textAt?_of_text {key s : String} (h : text entry key part = .ok s) :
    textAt? entry key = some s := by
  simp [textAt?, text_eq_ok h, Value.text?]

theorem textAt?_of_textOrNull {key : String} {s? : Option String}
    (h : textOrNull entry key part = .ok s?) : textAt? entry key = s? := by
  unfold textOrNull at h
  unfold textAt?
  split at h
  · next hv => rw [hv, ← Except.ok.inj h]; rfl
  · next hv => rw [hv, ← Except.ok.inj h]; rfl
  · next v _ hv =>
      cases ht : textOf key part v with
      | error fault => rw [ht] at h; cases h
      | ok s =>
          rw [ht] at h
          rw [hv, textOf_eq_ok ht, ← Except.ok.inj h]
          rfl

/-! ### Describing -/

theorem document_succeeds_iff {e : EntityId} : (document e entry part).Succeeds c ↔
    ((Value.field? entry "docstring").isSome = true → Reads (text entry "docstring" part)) := by
  unfold document
  split
  · next h =>
      rw [Action.succeeds_lift_bind]
      simp [h, Reads, Action.succeeds_change]
  · next h => simp [h, Action.succeeds_pure]

theorem locate_succeeds_iff {e : EntityId} :
    (locate e entry part).Succeeds c ↔ Reads (place? entry part) := by
  unfold locate
  rw [Action.succeeds_lift_bind]
  refine exists_congr fun place => and_iff_left_of_imp fun _ => ?_
  cases place with
  | some place => exact Action.succeeds_change _ c
  | none => exact Action.succeeds_pure _ c

/-- Whether documentation and place are accepted depends on the entry alone. -/
theorem annotate_succeeds_iff {e : EntityId} :
    (annotate e entry part).Succeeds c ↔ Annotated part entry := by
  unfold annotate
  rw [Action.succeeds_bind]
  constructor
  · rintro ⟨_, c₁, hdoc, hloc⟩
    exact ⟨document_succeeds_iff.1 ⟨_, c₁, hdoc⟩, locate_succeeds_iff.1 hloc⟩
  · rintro ⟨hdoc, hplace⟩
    obtain ⟨_, c₁, hrun⟩ := document_succeeds_iff.2 hdoc
    exact ⟨_, c₁, hrun, locate_succeeds_iff.2 hplace⟩

theorem expose_succeeds_iff : (expose m entry).Succeeds c ↔
    ∀ v, Value.field? entry "visibility" = some v → (Visibility.ofValue? v).isSome = true := by
  unfold expose setVisibility
  cases hv : Value.field? entry "visibility" with
  | none => simp [Action.succeeds_pure]
  | some v =>
      cases hw : Visibility.ofValue? v with
      | none =>
          simp only [Option.some.injEq, forall_eq', hw, Option.isSome_none, Bool.false_eq_true,
            iff_false]
          rintro ⟨_, _, h⟩
          cases h
      | some w => simp [hw, Action.succeeds_change]

/-- What is found right as parameters can be made parameters. -/
theorem ofItems_of_isParameter {items : List Value} (h : ∀ item ∈ items, isParameter item = true) :
    Reads (Parameter.ofItems items) := by
  induction items with
  | nil => exact ⟨[], rfl⟩
  | cons item items ih =>
      obtain ⟨ps, hps⟩ := ih fun i hi => h i (by simp [hi])
      have hitem := h item (by simp)
      have hp : ∃ q, Parameter.ofItem? item = some q := by
        unfold isParameter at hitem
        split at hitem
        · exact ⟨_, rfl⟩
        · exact ⟨_, rfl⟩
        · exact ⟨_, rfl⟩
        · cases hitem
      obtain ⟨q, hq⟩ := hp
      exact ⟨q :: ps, by rw [ofItems_cons, hq, hps]; rfl⟩

theorem isParameter_of_parameters {items : List Value} (h : parameters entry = .ok items) :
    ∀ item ∈ items, isParameter item = true := by
  unfold parameters at h
  split at h
  · split at h
    · cases h
    · next hno =>
        obtain rfl := Except.ok.inj h
        simpa using hno
  · cases h

/-- A parameter that is found right is so as a list of its name and its default. -/
theorem isParameter_of_ofItem? {item : Value} {q : Parameter} (hitem : isParameter item = true)
    (hq : Parameter.ofItem? item = some q) : isParameter (.list [q.name, q.default]) = true := by
  unfold isParameter at hitem
  split at hitem
  · rw [← Option.some.inj hq]
    rfl
  · rw [← Option.some.inj hq]
    rfl
  · rw [← Option.some.inj hq]
    exact hitem
  · cases hitem

theorem isParameter_of_mapM {items : List Value} (h : ∀ item ∈ items, isParameter item = true) :
    ∀ {ps}, items.mapM Parameter.ofItem? = some ps →
      ∀ q ∈ ps, isParameter (.list [q.name, q.default]) = true := by
  induction items with
  | nil =>
      intro ps hps
      rw [← Option.some.inj hps]
      simp
  | cons item items ih =>
      intro ps hps
      rw [List.mapM_cons] at hps
      obtain ⟨q, hq, hrest⟩ := Option.bind_eq_some_iff.1 hps
      obtain ⟨qs, hqs, hlist⟩ := Option.bind_eq_some_iff.1 hrest
      rw [← Option.some.inj hlist, List.forall_mem_cons]
      exact ⟨isParameter_of_ofItem? (h item (by simp)) hq, ih (fun i hi => h i (by simp [hi])) hqs⟩

theorem name_of_isParameter {q : Parameter} (h : isParameter (.list [q.name, q.default]) = true) :
    ∃ s, q.name = .text s := by
  cases hq : q.name with
  | text s => exact ⟨s, rfl⟩
  | _ => simp [isParameter, hq] at h

theorem setParameters_succeeds {items : List Value} (h : parameters entry = .ok items) :
    (setParameters m (.list items)).Succeeds c := by
  obtain ⟨ps, hps⟩ := ofItems_of_isParameter (isParameter_of_parameters h)
  have hvalue : Parameter.ofValue (.list items) = .ok ps := hps
  rw [setParameters, hvalue]
  exact Action.succeeds_change _ c

/-- Whether a description is accepted depends on the entry alone. -/
theorem describe_succeeds_iff : (describe m entry).Succeeds c ↔ Described entry := by
  unfold describe
  rw [Action.succeeds_bind]
  constructor
  · rintro ⟨_, c₁, hexpose, hrest⟩
    obtain ⟨items, hitems, hrest⟩ := Action.succeeds_lift_bind.1 hrest
    obtain ⟨_, c₂, -, hrest⟩ := Action.succeeds_bind.1 hrest
    obtain ⟨_, c₃, -, hannotate⟩ := Action.succeeds_bind.1 hrest
    exact ⟨expose_succeeds_iff.1 ⟨_, c₁, hexpose⟩, ⟨items, hitems⟩,
      annotate_succeeds_iff.1 hannotate⟩
  · rintro ⟨hvisibility, ⟨items, hitems⟩, hannotated⟩
    obtain ⟨_, c₁, hexpose⟩ := expose_succeeds_iff.2 hvisibility
    obtain ⟨_, c₂, hset⟩ := setParameters_succeeds (c := c₁) (m := m) hitems
    refine ⟨_, c₁, hexpose, Action.succeeds_lift_bind.2 ⟨items, hitems, ?_⟩⟩
    exact Action.succeeds_bind.2 ⟨_, c₂, hset,
      Action.succeeds_bind.2 ⟨_, _, rfl, annotate_succeeds_iff.2 hannotated⟩⟩

/-! ### Entries -/

theorem reads_methodAt_iff (h : Lockstep r c) :
    Reads (methodAt c r p part) ↔ (c.view r).HasMethod p := by
  unfold methodAt lookup? View.HasMethod view
  by_cases hp : p = ""
  · -- at the empty path the root is found, which is no method
    subst hp
    simp only [if_true, h.root_kind, h.vacant]
    simp [Reads, refuse]
  · simp only [hp, if_false]
    cases hget : (c.entries r).get? p with
    | none => simp [Reads, refuse]
    | some e =>
        by_cases hkind : (c.entity e).kind = .method <;>
          simp [Reads, refuse, hkind, Entity.profile]

theorem reads_methodAt?_iff (h : Lockstep r c) {path? : Option String} :
    Reads (methodAt? c r path? part) ↔ ∀ p, path? = some p → (c.view r).HasMethod p := by
  cases path? with
  | none => simp [methodAt?, Reads]
  | some path =>
      have hiff : Reads (methodAt c r path part) ↔ (c.view r).HasMethod path := reads_methodAt_iff h
      simp only [Option.some.injEq, forall_eq', ← hiff, methodAt?]
      cases methodAt c r path part <;> simp [Reads, Except.map]

theorem addAttribute_succeeds_iff {n : EntityId} {name : String} {read write : Option EntityId} :
    (addAttribute n (scopeField entry) (.text name) read write).Succeeds c ↔
      (scopeOf? entry).isSome = true := by
  unfold addAttribute scopeOf?
  cases hs : Scope.ofValue? (scopeField entry) with
  | none =>
      simp only [Option.isSome_none, Bool.false_eq_true, iff_false]
      rintro ⟨_, _, h⟩
      cases h
  | some s => exact ⟨fun _ => rfl, fun _ => ⟨_, _, rfl⟩⟩

theorem loadNamespace_succeeds_iff (h : Lockstep r c) (hclean : Clean r .namespaces entry) :
    (loadNamespace r entry).Succeeds c ↔ Legible .namespaces entry := by
  unfold loadNamespace
  rw [Legible]
  rw [Action.succeeds_lift_bind, reads_and]
  refine exists_congr fun path => and_congr_right fun hread => ?_
  obtain ⟨n, c₁, hreach, -⟩ := ensureNamespace_ok h (spaceOf_of_text hread ▸ hclean.space)
  rw [Action.succeeds_bind_of_ok hreach, annotate_succeeds_iff]

/-- A method that is made below a namespace can be registered once it is described. -/
theorem enrol_succeeds_iff {n : EntityId} {path name : String} (hn : Stands r c n path) :
    (do
      let m ← makeMethod { owner? := some n, name := .text name } (scopeField entry)
      describe m entry
      register r m : Action Unit).Succeeds c ↔
        (scopeOf? entry).isSome = true ∧ Described entry := by
  have hhome : c.homeOf? { owner? := some n, name := .text name } = some r := by
    simp [homeOf?, hn.home]
  rw [Action.succeeds_bind]
  constructor
  · rintro ⟨m, c₁, hmake, hrest⟩
    obtain ⟨s, hs, -⟩ := makeMethod_eq_ok hhome hmake
    obtain ⟨_, c₂, hdescribe, -⟩ := Action.succeeds_bind.1 hrest
    exact ⟨Option.isSome_iff_exists.2 ⟨s, hs⟩, describe_succeeds_iff.1 ⟨_, c₂, hdescribe⟩⟩
  · rintro ⟨hscope, hdescribed⟩
    obtain ⟨s, hs⟩ := Option.isSome_iff_exists.1 hscope
    let x : Entity := c.newEntity { owner? := some n, name := .text name } r fun home =>
      .method { scope := s, visibility := home.config.visibility }
    have hmake : makeMethod { owner? := some n, name := .text name } (scopeField entry) c =
        (.ok ⟨c.entities.size⟩, c.founded x) := by
      unfold makeMethod
      rw [show Scope.ofValue? (scopeField entry) = some s from hs]
      exact make_of_homeOf? hhome
    obtain ⟨_, c₂, hdescribe⟩ := (describe_succeeds_iff (m := ⟨c.entities.size⟩)
      (c := c.founded x)).2 hdescribed
    obtain ⟨ht, -⟩ := describe_eq_ok (r := r) hs (c.knows_founded x)
      (Entity.profile_eq_of_bare (c.bare_founded_self x)) hdescribe
    have hhome₂ : (c₂.entity ⟨c.entities.size⟩).home = r :=
      Entity.home_eq_of_settled (Entity.settled_eq_of_identity (identity_welcome ht))
    exact ⟨_, _, hmake, Action.succeeds_bind.2 ⟨_, c₂, hdescribe, _, _, register_of_home hhome₂⟩⟩

theorem loadMethod_succeeds_iff (h : Lockstep r c) (hclean : Clean r .methods entry) :
    (loadMethod r entry).Succeeds c ↔ Legible .methods entry := by
  unfold loadMethod
  rw [Legible]
  rw [Action.succeeds_lift_bind, reads_and]
  refine exists_congr fun path => and_congr_right fun hread => ?_
  have hpath : spaceOf .methods entry = path := spaceOf_of_textOr (by simp) hread
  obtain ⟨n, c₁, hreach, -, hn, -⟩ := ensureNamespace_ok h (hpath ▸ hclean.space)
  rw [Action.succeeds_bind_of_ok hreach, Action.succeeds_lift_bind, reads_and]
  exact exists_congr fun name => and_congr_right fun _ => enrol_succeeds_iff hn

/-- A method that is referred to is looked up where the reference is read. -/
theorem refer_succeeds_iff (h : Lockstep r c) {key : String} {f : Option EntityId → Action Unit}
    {R : Prop} (hf : ∀ m?, (f m?).Succeeds c ↔ R) :
    (do
      let m? ← methodAt? (← get) r (← textOrNull entry key part) part
      f m? : Action Unit).Succeeds c ↔
        (Reads (textOrNull entry key part) ∧
          ∀ p, textAt? entry key = some p → (c.view r).HasMethod p) ∧ R := by
  change (liftM (textOrNull entry key part) >>= fun path? =>
    liftM (methodAt? c r path? part) >>= f : Action Unit).Succeeds c ↔ _
  rw [Action.succeeds_lift_bind, and_assoc, reads_and]
  refine exists_congr fun path? => and_congr_right fun hread => ?_
  have hmethod : Reads (methodAt? c r path? part) ↔ ∀ p, path? = some p → (c.view r).HasMethod p :=
    reads_methodAt?_iff h
  rw [Action.succeeds_lift_bind, textAt?_of_textOrNull hread, ← hmethod, reads_and]
  exact exists_congr fun m? => and_congr_right fun _ => hf m?

theorem loadAttribute_succeeds_iff (h : Lockstep r c) (hclean : Clean r .attributes entry) :
    (loadAttribute r entry).Succeeds c ↔ Legible .attributes entry ∧
      ∀ p ∈ references .attributes entry, (c.view r).HasMethod p := by
  unfold loadAttribute
  rw [Legible, and_assoc, Action.succeeds_lift_bind, reads_and]
  refine exists_congr fun path => and_congr_right fun hread => ?_
  have hpath : spaceOf .attributes entry = path := spaceOf_of_textOr (by simp) hread
  obtain ⟨n, c₁, hreach, h₁, -, hv, -⟩ := ensureNamespace_ok h (hpath ▸ hclean.space)
  have hmethod : ∀ p, (c₁.view r).HasMethod p ↔ (c.view r).HasMethod p := by
    intro p
    rw [hv, hasMethod_reach]
  rw [Action.succeeds_bind_of_ok hreach, Action.succeeds_lift_bind, and_assoc, reads_and]
  refine exists_congr fun name => and_congr_right fun _ => ?_
  have hadd : ∀ read write, (do
      let _ ← addAttribute n (scopeField entry) (.text name) read write : Action Unit).Succeeds c₁ ↔
        (scopeOf? entry).isSome = true := by
    intro read write
    have hiff : (addAttribute n (scopeField entry) (.text name) read write).Succeeds c₁ ↔ _ :=
      addAttribute_succeeds_iff
    rw [← hiff, Action.succeeds_bind]
    exact ⟨fun ⟨a, c₂, hrun, _⟩ => ⟨a, c₂, hrun⟩, fun ⟨a, c₂, hrun⟩ => ⟨a, c₂, hrun, _, _, rfl⟩⟩
  refine (refer_succeeds_iff h₁ fun read => refer_succeeds_iff h₁ fun write =>
    hadd read write).trans ?_
  simp only [hmethod, references, List.mem_filterMap]
  constructor
  · rintro ⟨⟨hread, hr⟩, ⟨hwrite, hw⟩, hs⟩
    refine ⟨⟨hread, hwrite, hs⟩, ?_⟩
    rintro p ⟨key, hkey, hp⟩
    rcases List.mem_pair.1 hkey with rfl | rfl
    · exact hr p hp
    · exact hw p hp
  · rintro ⟨⟨hread, hwrite, hs⟩, hrefs⟩
    exact ⟨⟨hread, fun p hp => hrefs p ⟨"read", by simp, hp⟩⟩,
      ⟨hwrite, fun p hp => hrefs p ⟨"write", by simp, hp⟩⟩, hs⟩

theorem loadAlias_succeeds_iff (h : Lockstep r c) (hclean : Clean r .aliases entry) :
    (loadAlias r entry).Succeeds c ↔ Legible .aliases entry ∧
      ∀ p ∈ references .aliases entry, (c.view r).HasMethod p := by
  unfold loadAlias
  rw [Legible, and_assoc, Action.succeeds_lift_bind, reads_and]
  refine exists_congr fun path => and_congr_right fun hread => ?_
  have hpath : spaceOf .aliases entry = path := spaceOf_of_textOr (by simp) hread
  obtain ⟨n, c₁, hreach, h₁, -, hv, -⟩ := ensureNamespace_ok h (hpath ▸ hclean.space)
  have hmethod : ∀ p, (c₁.view r).HasMethod p ↔ (c.view r).HasMethod p := by
    intro p
    rw [hv, hasMethod_reach]
  rw [Action.succeeds_bind_of_ok hreach, and_assoc, reads_and, Action.succeeds_get_bind,
    Action.succeeds_lift_bind]
  refine exists_congr fun target => and_congr_right fun htext => ?_
  have hrefs : (∀ p ∈ references .aliases entry, (c.view r).HasMethod p) ↔
      Reads (methodAt c₁ r target .aliases) := by
    simp [references, textAt?_of_text htext, reads_methodAt_iff h₁, hmethod]
  rw [hrefs, and_comm, Action.succeeds_lift_bind, reads_and]
  refine exists_congr fun m => and_congr_right fun _ => ?_
  rw [Action.succeeds_lift_bind]
  exact exists_congr fun name => and_iff_left (Action.succeeds_change _ _)

/-- **An entry with plain names is accepted exactly when it is legible and the methods that it
refers to are found.** -/
theorem loadEntry_succeeds_iff (h : Lockstep r c) (hclean : Clean r part entry) :
    (loadEntry r part entry).Succeeds c ↔ Legible part entry ∧
      ∀ p ∈ references part entry, (c.view r).HasMethod p := by
  cases part with
  | namespaces => simpa [references, loadEntry] using loadNamespace_succeeds_iff h hclean
  | methods => simpa [references, loadEntry] using loadMethod_succeeds_iff h hclean
  | attributes => exact loadAttribute_succeeds_iff h hclean
  | aliases => exact loadAlias_succeeds_iff h hclean

/-! ### Manifests -/

/-- A manifest has the shape of one: a mapping of sections, each a list of mappings. -/
def Shaped (data : Value) : Prop :=
  ∃ fields, sections data = .ok fields ∧ ∀ part, Reads (entriesOf fields part)

/-- The entry of a row. -/
def loadRow (r : Registry) (row : Part × Fields) : Action Unit := loadEntry r row.1 row.2

theorem loadPart_of_reads {fields : Fields} (hfields : sections data = .ok fields)
    (hread : Reads (entriesOf fields part)) :
    loadPart r fields part = (entriesIn data part).forM (loadEntry r part) := by
  obtain ⟨entries, hentries⟩ := hread
  rw [entriesIn, hfields]
  simp only [hentries]
  rw [loadPart, hentries]
  rfl

theorem forM_rows (r : Registry) (data : Value) :
    (rows data).forM (loadRow r) = Part.all.forM fun part =>
      (entriesIn data part).forM (loadEntry r part) := by
  have hflat : ∀ parts : List Part, (parts.flatMap fun part =>
      (entriesIn data part).map fun entry => (part, entry)).forM (loadRow r) =
        parts.forM fun part => (entriesIn data part).forM (loadEntry r part) := by
    intro parts
    induction parts with
    | nil => rfl
    | cons part parts ih =>
        rw [List.flatMap_cons]
        refine List.forM_append.trans ?_
        exact congrArg₂ _ List.forM_map (funext fun _ => ih)
  exact hflat Part.all

/-- **Loading a manifest is loading its entries one by one**, section after section. -/
theorem load_eq_ok_iff : load r data c = (.ok (), c') ↔ Shaped data ∧
    ∃ c₁, (rows data).forM (loadRow r) c = (.ok (), c₁) ∧
      c' = c₁.note r (.loaded (c₁.entries r).size) := by
  have hparts : ∀ {fields}, sections data = .ok fields → (∀ part, Reads (entriesOf fields part)) →
      Part.all.forM (loadPart r fields) = (rows data).forM (loadRow r) := by
    intro fields hfields hread
    rw [forM_rows]
    exact congrArg (Part.all.forM ·) (funext fun part => loadPart_of_reads hfields (hread part))
  constructor
  · intro h
    obtain ⟨fields, c₁, hsections, h₁⟩ := Action.bind_eq_ok h
    obtain ⟨hfields, rfl⟩ := Action.lift_eq_ok hsections
    obtain ⟨_, c₂, hrun, hnote⟩ := Action.bind_eq_ok h₁
    have hread := Action.forM_all (P := fun _ => True) (Q := fun part => Reads (entriesOf fields part))
      (fun part _ {c c'} _ hpart => by
        obtain ⟨entries, _, hentries, -⟩ := Action.bind_eq_ok
          (show (liftM (entriesOf fields part) >>= fun entries =>
            entries.forM (loadEntry r part)) c = (.ok (), c') from hpart)
        exact ⟨trivial, entries, (Action.lift_eq_ok hentries).1⟩) trivial hrun
    have hread : ∀ part, Reads (entriesOf fields part) := fun part => hread part part.mem_all
    rw [hparts hfields hread] at hrun
    cases hnote
    exact ⟨⟨fields, hfields, hread⟩, c₂, hrun, rfl⟩
  · rintro ⟨⟨fields, hfields, hread⟩, c₁, hrun, rfl⟩
    have hsections : (liftM (sections data) : Action Fields) c = (.ok fields, c) := by
      rw [hfields]
      rfl
    rw [← hparts hfields hread] at hrun
    exact (Action.bind_of_ok hsections).trans (Action.bind_of_ok hrun)

/-! ### Entries one by one -/

variable {l : List (Part × Fields)}

/-- Rows that are accepted do what they say, one after the other. -/
theorem loadRows_ok (h : Lockstep r c) (hclean : ∀ row ∈ l, Clean r row.1 row.2)
    (hok : l.forM (loadRow r) c = (.ok (), c')) :
    (∀ row ∈ l, Accepted r row.1 row.2) ∧ Lockstep r c' ∧
      c'.view r = l.foldl (fun v row => step r v row.1 row.2) (c.view r) := by
  refine ⟨Action.forM_all (P := Lockstep r) ?_ h hok,
    Action.forM_fold (P := fun c v => Lockstep r c ∧ c.view r = v) ?_ ⟨h, rfl⟩ hok⟩
  · intro row hrow c c' h hrun
    have happlied := loadEntry_ok h (hclean row hrow) hrun
    exact ⟨happlied.lockstep, happlied.accepted⟩
  · rintro row hrow c c' v ⟨h, rfl⟩ hrun
    have happlied := loadEntry_ok h (hclean row hrow) hrun
    exact ⟨happlied.lockstep, happlied.view_eq⟩

/-- After some rows the methods of before are found, and those that the rows describe. -/
theorem hasMethod_foldl_step (haccepted : ∀ row ∈ l, Accepted r row.1 row.2) :
    ∀ v : View, (l.foldl (fun v row => step r v row.1 row.2) v).HasMethod p ↔
      v.HasMethod p ∨ ∃ entry ∈ sectionOf .methods l, methodPath? r entry = some p := by
  induction l with
  | nil => simp [sectionOf]
  | cons row l ih =>
      intro v
      rw [List.foldl_cons, ih (fun row' h => haccepted row' (by simp [h])),
        hasMethod_step (haccepted row (by simp)), or_assoc]
      refine or_congr_right ?_
      simp only [mem_sectionOf, List.mem_cons]
      constructor
      · rintro (⟨hpart, hpath⟩ | ⟨entry, hmem, hpath⟩)
        · exact ⟨row.2, .inl (by rw [← hpart]), hpath⟩
        · exact ⟨entry, .inr hmem, hpath⟩
      · rintro ⟨entry, rfl | hmem, hpath⟩
        · exact .inl ⟨rfl, hpath⟩
        · exact .inr ⟨entry, hmem, hpath⟩

/-- Rows that refer to no method are accepted exactly when they are legible. -/
theorem describing_succeeds_iff (h : Lockstep r c) (hclean : ∀ row ∈ l, Clean r row.1 row.2)
    (hl : ∀ row ∈ l, references row.1 row.2 = []) :
    (l.forM (loadRow r)).Succeeds c ↔ ∀ row ∈ l, Legible row.1 row.2 := by
  refine Action.succeeds_forM (P := Lockstep r) (fun row hrow c hc => ?_)
    (fun row hrow c c' hc hrun => (loadEntry_ok hc (hclean row hrow) hrun).lockstep) h
  have hiff := loadEntry_succeeds_iff hc (hclean row hrow)
  rw [hl row hrow] at hiff
  simpa using hiff

/-- Rows that describe no method are accepted exactly when they are legible and refer to methods
that are found before all of them. -/
theorem referring_succeeds_iff (h : Lockstep r c) (hclean : ∀ row ∈ l, Clean r row.1 row.2)
    (hl : ∀ row ∈ l, row.1 ≠ .methods) : (l.forM (loadRow r)).Succeeds c ↔
      ∀ row ∈ l, Legible row.1 row.2 ∧ ∀ p ∈ references row.1 row.2, (c.view r).HasMethod p := by
  -- none of the rows changes which methods are found
  refine Action.succeeds_forM
    (P := fun c₁ => Lockstep r c₁ ∧ ∀ p, (c₁.view r).HasMethod p ↔ (c.view r).HasMethod p)
    (fun row hrow c₁ h₁ => ?_) (fun row hrow c₁ c₂ h₁ hrun => ?_) ⟨h, fun p => Iff.rfl⟩
  · rw [loadRow, loadEntry_succeeds_iff h₁.1 (hclean row hrow)]
    simp only [h₁.2]
  · have happlied := loadEntry_ok h₁.1 (hclean row hrow) hrun
    refine ⟨happlied.lockstep, fun p => ?_⟩
    rw [happlied.view_eq, hasMethod_step happlied.accepted, h₁.2]
    simp [hl row hrow]

/-! ### Whole manifests -/

/-- The entries that describe namespaces and methods. -/
def describing (data : Value) : List (Part × Fields) :=
  ((entriesIn data .namespaces).map fun entry => (Part.namespaces, entry)) ++
    (entriesIn data .methods).map fun entry => (Part.methods, entry)

/-- The entries that describe attributes and aliases, which refer to methods. -/
def referring (data : Value) : List (Part × Fields) :=
  ((entriesIn data .attributes).map fun entry => (Part.attributes, entry)) ++
    (entriesIn data .aliases).map fun entry => (Part.aliases, entry)

theorem rows_eq_append (data : Value) : rows data = describing data ++ referring data := by
  simp [rows, Part.all, describing, referring]

theorem sectionOf_describing (data : Value) :
    sectionOf .methods (describing data) = entriesIn data .methods := by
  simp [describing, sectionOf, List.filterMap_append, List.filterMap_map]

theorem references_of_describing {row : Part × Fields} (h : row ∈ describing data) :
    references row.1 row.2 = [] := by
  rcases List.mem_append.1 h with h | h <;> obtain ⟨entry, -, rfl⟩ := List.mem_map.1 h <;> rfl

theorem ne_methods_of_referring {row : Part × Fields} (h : row ∈ referring data) :
    row.1 ≠ .methods := by
  rcases List.mem_append.1 h with h | h <;> obtain ⟨entry, -, rfl⟩ := List.mem_map.1 h <;> simp

/-- A manifest has its shape, every entry can be read, and every method that is referred to is known
or described. -/
structure Admissible (r : Registry) (v : View) (data : Value) : Prop where
  shaped : Shaped data
  legible : ∀ part, ∀ entry ∈ entriesIn data part, Legible part entry
  referred : ∀ part, ∀ entry ∈ entriesIn data part, ∀ p ∈ references part entry,
    v.HasMethod p ∨ ∃ entry' ∈ entriesIn data .methods, methodPath? r entry' = some p

theorem load_succeeds_iff_rows :
    (load r data).Succeeds c ↔ Shaped data ∧ ((rows data).forM (loadRow r)).Succeeds c := by
  constructor
  · rintro ⟨_, c', h⟩
    obtain ⟨hshaped, c₁, hrun, -⟩ := load_eq_ok_iff.1 h
    exact ⟨hshaped, _, c₁, hrun⟩
  · rintro ⟨hshaped, _, c₁, hrun⟩
    exact ⟨_, _, load_eq_ok_iff.2 ⟨hshaped, c₁, hrun, rfl⟩⟩

/-- All rows of a manifest are accepted exactly when they are legible and refer to methods that are
known or described. -/
theorem rows_succeeds_iff (h : Lockstep r c) (hclean : ∀ row ∈ rows data, Clean r row.1 row.2) :
    ((rows data).forM (loadRow r)).Succeeds c ↔ ∀ row ∈ rows data, Legible row.1 row.2 ∧
      ∀ p ∈ references row.1 row.2, (c.view r).HasMethod p ∨
        ∃ entry ∈ entriesIn data .methods, methodPath? r entry = some p := by
  rw [rows_eq_append] at hclean ⊢
  have hfront : ∀ row ∈ describing data, Clean r row.1 row.2 := fun row hrow =>
    hclean row (List.mem_append_left _ hrow)
  have hback : ∀ row ∈ referring data, Clean r row.1 row.2 := fun row hrow =>
    hclean row (List.mem_append_right _ hrow)
  -- what is found when the first two sections are through
  have hknown : ∀ {c₁}, (describing data).forM (loadRow r) c = (.ok (), c₁) → Lockstep r c₁ ∧
      ∀ p, (c₁.view r).HasMethod p ↔ (c.view r).HasMethod p ∨
        ∃ entry ∈ entriesIn data .methods, methodPath? r entry = some p := by
    intro c₁ hrun
    obtain ⟨haccepted, h₁, hv⟩ := loadRows_ok h hfront hrun
    refine ⟨h₁, fun p => ?_⟩
    rw [hv, hasMethod_foldl_step haccepted, sectionOf_describing]
  have happend : (describing data ++ referring data).forM (loadRow r) =
      ((describing data).forM (loadRow r) >>= fun _ => (referring data).forM (loadRow r)) :=
    List.forM_append
  rw [happend, Action.succeeds_bind, List.forall_mem_append]
  constructor
  · rintro ⟨_, c₁, hrun, hrest⟩
    obtain ⟨h₁, hmethod⟩ := hknown hrun
    have hlegible := (describing_succeeds_iff h hfront fun _ => references_of_describing).1
      ⟨_, c₁, hrun⟩
    refine ⟨fun row hrow => ⟨hlegible row hrow, ?_⟩, ?_⟩
    · simp [references_of_describing hrow]
    · simpa only [hmethod] using
        (referring_succeeds_iff h₁ hback fun _ => ne_methods_of_referring).1 hrest
  · rintro ⟨hdescribing, hreferring⟩
    obtain ⟨_, c₁, hrun⟩ := (describing_succeeds_iff h hfront fun _ => references_of_describing).2
      fun row hrow => (hdescribing row hrow).1
    obtain ⟨h₁, hmethod⟩ := hknown hrun
    refine ⟨_, c₁, hrun, ?_⟩
    refine (referring_succeeds_iff h₁ hback fun _ => ne_methods_of_referring).2 ?_
    simpa only [hmethod] using hreferring

/-- **A manifest with plain names is accepted exactly when it is admissible.** -/
theorem load_succeeds_iff (h : Lockstep r c)
    (hclean : ∀ part, ∀ entry ∈ entriesIn data part, Clean r part entry) :
    (load r data).Succeeds c ↔ Admissible r (c.view r) data := by
  rw [load_succeeds_iff_rows,
    rows_succeeds_iff h fun row hrow => hclean row.1 row.2 (mem_rows.1 hrow)]
  constructor
  · rintro ⟨hshaped, hrows⟩
    exact ⟨hshaped, fun part entry he => (hrows (part, entry) (mem_rows.2 he)).1,
      fun part entry he => (hrows (part, entry) (mem_rows.2 he)).2⟩
  · rintro ⟨hshaped, hlegible, hreferred⟩
    exact ⟨hshaped, fun row hrow => ⟨hlegible row.1 row.2 (mem_rows.1 hrow),
      hreferred row.1 row.2 (mem_rows.1 hrow)⟩⟩

end Manifest

end DocCatalog
