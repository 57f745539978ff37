/-
**Every step leads by writes to its outcome.**

A step may fail, and keeps what it did before it failed; so what is said of a step is said of the
catalog that it leaves, whether it answers or fails, and of the answer if there is one.  The rules
of this module follow the ways in which steps are composed, and each operation is then walked
through once.

Main definitions:

* `Action.Leads`: from a well-formed catalog a step leads by writes to the catalog that it leaves,
  and its answer, if it gives one, has a property.

Main results:

* `Action.bind_eq_ok`, `Action.forM_fold`: what a step does that succeeds;
* `Action.Leads.bind`, `Action.Leads.forM`, `Action.Leads.foldlM`: the rules of composition;
* `Catalog.writes_enter`, `Catalog.writes_delete`, `Catalog.writes_rescope`: registering, deleting
  and giving another scope;
* `Catalog.leads_ensureNamespace`, `Manifest.leads_load`: **making namespaces and loading
  manifests**.
-/

import DocCatalog.Manifest.Load
import DocCatalog.Proofs.Catalog.Writes

set_option autoImplicit false

namespace DocCatalog

open Catalog

/-! ### Steps -/

namespace Action

variable {α β : Type}

theorem bind_run (a : Action α) (f : α → Action β) (c : Catalog) :
    (a >>= f) c = match a c with
      | (.ok x, c') => f x c'
      | (.error fault, c') => (.error fault, c') := by
  simp only [Bind.bind, ExceptT.bind, ExceptT.mk, StateT.bind]
  rcases a c with ⟨r, c'⟩
  cases r <;> rfl

/-- From a well-formed catalog a step leads by writes to the catalog that it leaves, and its answer,
if it gives one, has a property. -/
def Leads (a : Action α) (c : Catalog) (Q : α → Catalog → Prop) : Prop :=
  c.WellFormed → Writes c (a c).2 ∧ ∀ x, (a c).1 = .ok x → Q x (a c).2

namespace Leads

variable {c : Catalog} {Q : α → Catalog → Prop} {R : β → Catalog → Prop}

theorem of_wellFormed {a : Action α} (h : c.WellFormed → a.Leads c Q) : a.Leads c Q :=
  fun hc => h hc hc

theorem pure {x : α} (h : Q x c) : (Pure.pure x : Action α).Leads c Q := by
  intro _
  refine ⟨.refl, ?_⟩
  intro y hy
  cases hy
  exact h

theorem throw (fault : Fault) : (MonadExcept.throw fault : Action α).Leads c Q := by
  intro _
  exact ⟨.refl, fun y hy => by cases hy⟩

theorem bind {a : Action α} {f : α → Action β} (ha : a.Leads c Q)
    (hf : ∀ x c', c'.WellFormed → Later c c' → Q x c' → (f x).Leads c' R) :
    (a >>= f).Leads c R := by
  intro hc
  obtain ⟨hw, hq⟩ := ha hc
  rw [bind_run]
  rcases hac : a c with ⟨r, c'⟩
  rw [hac] at hw hq
  cases r with
  | error fault => exact ⟨hw, fun y hy => by cases hy⟩
  | ok x =>
      have hc' : c'.WellFormed := hw.wellFormed hc
      obtain ⟨hw', hr⟩ := hf x c' hc' hw.later (hq x rfl) hc'
      exact ⟨hw.trans hw', hr⟩

theorem get {f : Catalog → Action β} (hf : (f c).Leads c R) :
    (MonadState.get >>= f).Leads c R := hf

theorem set {c' : Catalog} {Q : Unit → Catalog → Prop} (hw : Writes c c') (hq : Q () c') :
    (MonadState.set c' : Action Unit).Leads c Q := by
  intro _
  exact ⟨hw, fun _ _ => hq⟩

theorem change {f : Catalog → Catalog} {Q : Unit → Catalog → Prop} (hw : Writes c (f c))
    (hq : Q () (f c)) : (Action.change f).Leads c Q := by
  intro _
  exact ⟨hw, fun _ _ => hq⟩

/-- Reading plain data changes nothing. -/
theorem lift {r : Except Fault α} (h : ∀ x, r = .ok x → Q x c) :
    (liftM r : Action α).Leads c Q := by
  intro _
  refine ⟨.refl, ?_⟩
  intro x hx
  exact h x hx

theorem weaken {Q' : α → Catalog → Prop} {a : Action α} (ha : a.Leads c Q)
    (h : ∀ x c', Later c c' → Q x c' → Q' x c') : a.Leads c Q' := by
  intro hc
  obtain ⟨hw, hq⟩ := ha hc
  exact ⟨hw, fun x hx => h x _ hw.later (hq x hx)⟩

theorem forM {l : List α} {f : α → Action Unit} :
    ∀ {c : Catalog}, (∀ x ∈ l, ∀ c', c'.WellFormed → Later c c' → (f x).Leads c' fun _ _ => True) →
      (l.forM f).Leads c fun _ _ => True := by
  induction l with
  | nil => intro c _; exact pure trivial
  | cons x l ih =>
      intro c h
      show (f x >>= fun _ => l.forM f).Leads c _
      intro hc
      refine bind (R := fun _ _ => True) (h x (by simp) c hc (.refl c)) (fun _ c' _ hl _ => ?_) hc
      exact ih fun y hy c'' hc'' hl' => h y (by simp [hy]) c'' hc'' (hl.trans hl')

theorem foldlM {l : List α} {f : β → α → Action β} {I : β → Catalog → Prop} :
    ∀ {c : Catalog} {b : β}, I b c →
      (∀ x ∈ l, ∀ b c', c'.WellFormed → Later c c' → I b c' → (f b x).Leads c' I) →
      (l.foldlM f b).Leads c I := by
  induction l with
  | nil => intro c b hb _; exact pure hb
  | cons x l ih =>
      intro c b hb h
      rw [List.foldlM_cons]
      intro hc
      refine bind (h x (by simp) b c hc (.refl c) hb) ?_ hc
      intro b' c' _ hl hb'
      exact ih hb' fun y hy b c'' hc'' hl' => h y (by simp [hy]) b c'' hc'' (hl.trans hl')

end Leads

end Action

/-! ### Steps that succeed -/

namespace Action

variable {α β : Type} {c c' : Catalog}

/-- Two steps one after the other succeed only if both do. -/
theorem bind_eq_ok {a : Action α} {f : α → Action β} {y : β}
    (h : (a >>= f) c = (.ok y, c')) : ∃ x c₁, a c = (.ok x, c₁) ∧ f x c₁ = (.ok y, c') := by
  rw [bind_run] at h
  rcases hac : a c with ⟨_ | x, c₁⟩ <;> rw [hac] at h
  · cases h
  · exact ⟨x, c₁, rfl, h⟩

theorem exists_eq_ok {a : Action α} (h : (a c).1.toBool = true) : ∃ x, a c = (.ok x, (a c).2) := by
  rcases hac : a c with ⟨_ | x, c'⟩
  · rw [hac] at h
    cases h
  · exact ⟨x, rfl⟩

theorem bind_of_ok {a : Action α} {f : α → Action β} {x : α} (h : a c = (.ok x, c')) :
    (a >>= f) c = f x c' := by
  rw [bind_run, h]

theorem bind_get (f : Catalog → Action β) : (MonadState.get >>= f) c = f c c := rfl

theorem get_eq_ok {f : Catalog → Action β} {y : β}
    (h : (MonadState.get >>= f) c = (.ok y, c')) : f c c = (.ok y, c') := h

theorem lift_eq_ok {q : Except Fault α} {x : α} (h : (liftM q : Action α) c = (.ok x, c')) :
    q = .ok x ∧ c' = c := by
  obtain ⟨hq, hc⟩ := Prod.mk.inj (show (q, c) = (.ok x, c') from h)
  exact ⟨hq, hc.symm⟩

/-- What each of some steps keeps, all of them keep one after the other, if they succeed. -/
theorem forM_fold {σ : Type} {l : List α} {f : α → Action Unit} {g : σ → α → σ}
    {P : Catalog → σ → Prop}
    (hf : ∀ x ∈ l, ∀ {c c' v}, P c v → f x c = (.ok (), c') → P c' (g v x)) :
    ∀ {c v}, P c v → l.forM f c = (.ok (), c') → P c' (l.foldl g v) := by
  induction l with
  | nil =>
      intro c v hv h
      cases h
      exact hv
  | cons x l ih =>
      intro c v hv h
      obtain ⟨_, c₁, hx, hl⟩ := bind_eq_ok (show (f x >>= fun _ => l.forM f) c = _ from h)
      exact ih (fun y hy => hf y (by simp [hy])) (hf x (by simp) hv hx) hl

/-- What each of some steps keeps as it is, all of them keep. -/
theorem forM_keeps {l : List α} {f : α → Action Unit} {P : Catalog → Prop}
    (hf : ∀ x ∈ l, ∀ {c c'}, P c → f x c = (.ok (), c') → P c') :
    ∀ {c}, P c → l.forM f c = (.ok (), c') → P c' := fun hc =>
  forM_fold (P := fun c _ => P c) (g := fun _ _ => ()) (v := ())
    (fun x hx {_ _ _} hc h => hf x hx hc h) hc

/-- What is found out about each of some steps when it succeeds holds of all of them. -/
theorem forM_all {l : List α} {f : α → Action Unit} {P : Catalog → Prop} {Q : α → Prop}
    (hf : ∀ x ∈ l, ∀ {c c'}, P c → f x c = (.ok (), c') → P c' ∧ Q x) :
    ∀ {c}, P c → l.forM f c = (.ok (), c') → ∀ x ∈ l, Q x := by
  induction l with
  | nil => simp
  | cons x l ih =>
      intro c hc h y hy
      obtain ⟨_, c₁, hx, hl⟩ := bind_eq_ok (show (f x >>= fun _ => l.forM f) c = _ from h)
      obtain ⟨hc₁, hq⟩ := hf x (by simp) hc hx
      rcases List.mem_cons.1 hy with rfl | hy
      · exact hq
      · exact ih (fun z hz => hf z (by simp [hz])) hc₁ hl y hy

end Action

namespace Catalog

variable {c : Catalog} {e n : EntityId} {r : Registry}

/-! ### Registering, deleting and giving another scope -/

theorem writes_enter (hk : c.Knows e) (hh : (c.entity e).home = r) : Writes c (c.enter r e) := by
  have h₁ : Write c (c.put r e) := .put hk hh
  have h₂ : Write (c.put r e) ((c.put r e).adoptByOwner e) := .list hk
  exact ((Relation.ReflTransGen.single h₁).tail h₂).tail (.note r _)

theorem writes_dismissByOwner (c : Catalog) (e : EntityId) : Writes c (c.dismissByOwner e) := by
  unfold dismissByOwner
  split
  · exact .single (.strike _ e)
  · exact .refl

theorem writes_delete (c : Catalog) (r : Registry) (e : EntityId) : Writes c (c.delete r e) := by
  simp only [delete]
  split
  · refine .tail ?_ (.note r _)
    exact .head (.take r _) (writes_dismissByOwner _ e)
  · exact .refl

theorem writes_openRekey (c : Catalog) (r : Registry) (e : EntityId) :
    Writes c (c.openRekey r e).2 := by
  simp only [openRekey]
  split
  · exact .single (.take r _)
  · exact .refl

theorem writes_closeRekey {k : Rekeying} (hk : c.Knows k.entity)
    (hh : k.wasRegistered = true → (c.entity k.entity).home = k.registry) :
    Writes c (c.closeRekey k) := by
  simp only [closeRekey]
  split
  · next hw => exact .tail (.single (.put hk (hh hw))) (.note k.registry _)
  · exact .refl

/-- While a change of path goes on, the registry does not hold the entity. -/
theorem isRegistered_openRekey (c : Catalog) (r : Registry) (e : EntityId) :
    (c.openRekey r e).2.isRegistered r e = false := by
  simp only [openRekey]
  split
  · simp [isRegistered, path, get?_entries_take]
  · next h => simpa using h

theorem entity_openRekey (c : Catalog) (r : Registry) (e e' : EntityId) :
    (c.openRekey r e).2.entity e' = c.entity e' := by
  simp only [openRekey]
  split <;> rfl

theorem knows_openRekey (r : Registry) (h : c.Knows e) : (c.openRekey r n).2.Knows e := by
  simp only [openRekey]
  split <;> exact h

theorem writes_rescope (hk : c.Knows e) (s : Scope) : Writes c (c.rescope e s) := by
  have hb : Writes c (c.openRekey (c.entity e).home e).2 := writes_openRekey c _ e
  have hent := entity_openRekey c (c.entity e).home e e
  have hw := Write.rescope (c := (c.openRekey (c.entity e).home e).2) s
    (knows_openRekey (c.entity e).home hk) (by rw [hent]; exact isRegistered_openRekey c _ e)
  rw [hent] at hw
  have hm : Writes c _ := hb.tail hw
  exact hm.trans (writes_closeRekey (hm.later.knows hk) fun _ => hm.later.home hk)

theorem leads_register (hk : c.Knows e) : (register r e).Leads c fun _ _ => True := by
  refine Action.Leads.get ?_
  split
  · next hh => exact .set (writes_enter hk hh) trivial
  · exact .throw _

theorem leads_setScope (hk : c.Knows e) (v : Value) : (setScope e v).Leads c fun _ _ => True := by
  unfold setScope
  split
  · exact .throw _
  · refine Action.Leads.get ?_
    split
    · exact .pure trivial
    · exact .set (writes_rescope hk _) trivial

/-! ### Making entities -/

/-- The entity that is made, apart from the reference to it. -/
def newEntity (c : Catalog) (o : Origin) (home : Registry) (form : Registry → Form) : Entity where
  name := o.name.display
  home := home
  lineage := c.lineageOf o.owner?
  docstring := o.docstring
  form := form home

/-- Whether what a new entity is given was given out. -/
structure Origin.Known (o : Origin) (c : Catalog) : Prop where
  owner : ∀ n, o.owner? = some n → c.Knows n ∧ (c.entity n).isSpace = true
  registry : ∀ r, o.registry? = some r → c.Opened r

theorem owner?_newEntity (c : Catalog) (o : Origin) (home : Registry) (form : Registry → Form) :
    (c.newEntity o home form).owner? = o.owner? := by
  unfold Entity.owner? newEntity lineageOf
  cases o.owner? <;> rfl

theorem opened_of_homeOf? (hc : c.WellFormed) {o : Origin} (ho : o.Known c)
    (hh : c.homeOf? o = some r) : c.Opened r := by
  unfold homeOf? at hh
  cases hr : o.registry? with
  | some r' =>
      simp only [hr, Option.some_or, Option.some.injEq] at hh
      exact hh ▸ ho.registry r' hr
  | none =>
      simp only [hr, Option.none_or, Option.map_eq_some_iff] at hh
      obtain ⟨n, hn, rfl⟩ := hh
      exact hc.opened_home (ho.owner n hn).1

theorem make_of_homeOf? {kind : EntityKind} {form : Registry → Form} {o : Origin}
    (hh : c.homeOf? o = some r) :
    make kind form o c =
      (.ok ⟨c.entities.size⟩,
        (c.add (c.newEntity o r form)).2.adoptByOwner ⟨c.entities.size⟩) := by
  rw [make, Action.bind_get]
  simp only [hh]
  rfl

theorem make_of_homeless {kind : EntityKind} {form : Registry → Form} {o : Origin}
    (hh : c.homeOf? o = none) : make kind form o c = (.error (.homeless kind o.name), c) := by
  rw [make, Action.bind_get]
  simp only [hh]
  rfl

/-- A new entity is known, and is what it was made as but for what it keeps about members. -/
theorem leads_make {kind : EntityKind} {form : Registry → Form} {o : Origin} (ho : o.Known c)
    (hk : ∀ home, (c.newEntity o home form).kind ≠ .root)
    (hs : ∀ home, (c.newEntity o home form).slots = ∅) :
    (make kind form o).Leads c fun e c' =>
      ∃ home, c.homeOf? o = some home ∧ c'.Knows e ∧
        (c'.entity e).bare = (c.newEntity o home form).bare := by
  intro hc
  cases hh : c.homeOf? o with
  | none =>
      rw [make_of_homeless hh]
      exact ⟨.refl, fun e he => by cases he⟩
  | some home =>
      rw [make_of_homeOf? hh]
      have hown := c.owner?_newEntity o home form
      have hk' : (c.add (c.newEntity o home form)).2.Knows ⟨c.entities.size⟩ := knows_push rfl
      have h₁ : Write c (c.add (c.newEntity o home form)).2 :=
        .add (hk home) (hs home) (opened_of_homeOf? hc ho hh) (by rw [hown]; rfl)
          (by rw [hown]; exact ho.owner)
      refine ⟨.tail (.single h₁) (.list hk'), ?_⟩
      intro e he
      cases he
      refine ⟨home, rfl, by simpa [Knows] using hk', ?_⟩
      simp [entity_add]

theorem leads_makeEntry {o : Origin} (ho : o.Known c) :
    (makeEntry o).Leads c fun _ _ => True :=
  (leads_make ho (fun _ => by simp [newEntity, Entity.kind]) fun _ => rfl).weaken
    fun _ _ _ _ => trivial

theorem leads_makeSpace {o : Origin} (ho : o.Known c) :
    (makeSpace o).Leads c fun e c' => c'.Knows e ∧ (c'.entity e).isSpace = true := by
  refine (leads_make ho (fun _ => by simp [newEntity, Entity.kind]) fun _ => rfl).weaken ?_
  rintro e c' - ⟨home, -, hk, hb⟩
  have hs := Entity.settled_eq_of_identity (Entity.identity_eq_of_bare hb)
  exact ⟨hk, by rw [Entity.isSpace_eq_of_settled hs]; rfl⟩

theorem leads_makeMethod {o : Origin} (ho : o.Known c) (scope : Value) :
    (makeMethod o scope).Leads c fun e c' => c'.Knows e := by
  unfold makeMethod
  split
  · exact .throw _
  · refine (leads_make ho (fun _ => by simp [newEntity, Entity.kind]) fun _ => rfl).weaken ?_
    rintro e c' - ⟨home, -, hk, -⟩
    exact hk

/-! ### Plain fields and tables -/

/-- A change that touches neither the scope of a method nor anything settled. -/
theorem write_updateMethod (c : Catalog) (e : EntityId) {f : MethodFields → MethodFields}
    (h : ∀ m, (f m).scope = m.scope) : Write c (c.update e fun x => x.updateMethod f) :=
  .alter e (Entity.identity_updateMethod h) fun x => x.slots_updateMethod f

theorem write_updateTables (c : Catalog) (n : EntityId) {f : Tables → Tables}
    (h : ∀ t, (f t).members = t.members) : Write c (c.updateTables n f) :=
  .alter n (fun x => x.identity_updateTables f) (Entity.slots_updateTables_of_members h)

theorem write_setDocstring (c : Catalog) (e : EntityId) (v : Value) :
    Write c (c.setDocstring e v) :=
  .alter e (fun _ => rfl) fun _ => rfl

theorem write_addFile (c : Catalog) (e : EntityId) (file line : Value) :
    Write c (c.addFile e file line) :=
  .alter e (fun x => x.identity_addFile file line) fun x => x.slots_addFile file line

theorem leads_setVisibility (c : Catalog) (e : EntityId) (v : Value) :
    (setVisibility e v).Leads c fun _ _ => True := by
  unfold setVisibility
  split
  · exact .throw _
  · exact .change (.single (c.write_updateMethod e fun _ => rfl)) trivial

theorem leads_setParameters (c : Catalog) (e : EntityId) (v : Value) :
    (setParameters e v).Leads c fun _ _ => True := by
  unfold setParameters
  split
  · exact .throw _
  · exact .change (.single (c.write_updateMethod e fun _ => rfl)) trivial

theorem leads_addAttribute (c : Catalog) (n : EntityId) (scope name : Value)
    (read write : Option EntityId) :
    (addAttribute n scope name read write).Leads c fun _ _ => True := by
  unfold addAttribute
  split
  · exact .throw _
  · next s _ =>
      refine Action.Leads.get ?_
      refine .bind (Q := fun _ _ => True)
        (.change (.single (c.write_updateTables n fun t => by simp)) trivial) ?_
      intro _ c' _ _ _
      split
      · exact .throw _
      · refine .bind (Q := fun _ _ => True)
          (.change (.single (c'.write_updateTables n fun t => by simp)) trivial) ?_
        exact fun _ _ _ _ _ => .pure trivial

/-! ### Namespaces on the way -/

theorem slot_of_nestedSpace? {name : String} (h : c.nestedSpace? n name = some e) :
    (∃ k, k.1 = name ∧ (c.slots n).get? k = some e) ∧ (c.entity e).isSpace = true := by
  simp only [nestedSpace?, Tables.member?, Option.filter_eq_some_iff, Option.or_eq_some_iff] at h
  obtain ⟨hm, hs⟩ := h
  refine ⟨?_, hs⟩
  rcases hm with hm | ⟨-, hm | ⟨-, hm⟩⟩ <;> exact ⟨_, rfl, hm⟩

theorem leads_ensureNested (r : Registry) (hk : c.Knows n) (hs : (c.entity n).isSpace = true)
    (name : String) :
    (ensureNested r n name).Leads c fun e c' => c'.Knows e ∧ (c'.entity e).isSpace = true := by
  refine .of_wellFormed fun hc => Action.Leads.get ?_
  split
  · next e he =>
      obtain ⟨⟨k, -, hm⟩, hspace⟩ := slot_of_nestedSpace? he
      exact .pure ⟨hc.knows_slot hm, hspace⟩
  · refine .bind (leads_makeSpace ⟨?_, fun _ h => by cases h⟩) ?_
    · rintro m h
      cases h
      exact ⟨hk, hs⟩
    · rintro e c' - - ⟨hk', hs'⟩
      refine .bind (leads_register hk') ?_
      intro _ c'' _ hl _
      exact .pure ⟨hl.knows hk', by rw [hl.isSpace hk', hs']⟩

/-- **Making the namespaces of a path leads by writes to its outcome.** -/
theorem leads_ensureNamespace (ho : c.Opened r) (path : String) :
    (ensureNamespace r path).Leads c fun e c' => c'.Knows e ∧ (c'.entity e).isSpace = true := by
  refine .of_wellFormed fun hc => Action.Leads.get ?_
  have hroot : c.Knows (c.root r) ∧ (c.entity (c.root r)).isSpace = true := by
    obtain ⟨hk, hkind⟩ := hc.root ho.lt
    exact ⟨hk, by rw [Entity.isSpace_eq_kind, hkind]; rfl⟩
  split
  · exact .pure hroot
  · refine .foldlM hroot ?_
    rintro name - n c' - - ⟨hk, hs⟩
    split
    · exact .throw _
    · exact leads_ensureNested r hk hs name

end Catalog

/-! ### Loading -/

namespace Manifest

variable {c : Catalog} {r : Registry}

theorem leads_annotate (c : Catalog) (e : EntityId) (entry : Fields) (part : Part) :
    (annotate e entry part).Leads c fun _ _ => True := by
  have hdocument : (document e entry part).Leads c fun _ _ => True := by
    unfold document
    split
    · refine .bind (Q := fun _ _ => True) (.lift fun _ _ => trivial) ?_
      intro docstring c' _ _ _
      exact .change (.single (c'.write_setDocstring e _)) trivial
    · exact .pure trivial
  refine .bind hdocument ?_
  intro _ c' _ _ _
  refine .bind (Q := fun _ _ => True) (.lift fun _ _ => trivial) ?_
  intro p c'' _ _ _
  split
  · exact .change (.single (c''.write_addFile e _ _)) trivial
  · exact .pure trivial

theorem leads_loadNamespace (ho : c.Opened r) (entry : Fields) :
    (loadNamespace r entry).Leads c fun _ _ => True := by
  unfold loadNamespace
  refine .bind (Q := fun _ _ => True) (.lift fun _ _ => trivial) ?_
  intro path c' _ hl _
  refine .bind (leads_ensureNamespace (hl.opened ho) path) ?_
  intro n c'' _ _ _
  exact leads_annotate c'' n entry .namespaces

theorem leads_describe (c : Catalog) (m : EntityId) (entry : Fields) :
    (describe m entry).Leads c fun _ _ => True := by
  have hexpose : (expose m entry).Leads c fun _ _ => True := by
    unfold expose
    split
    · exact leads_setVisibility c m _
    · exact .pure trivial
  refine .bind hexpose ?_
  intro _ c₁ _ _ _
  refine .bind (Q := fun _ _ => True) (.lift fun _ _ => trivial) ?_
  intro items c₂ _ _ _
  refine .bind (leads_setParameters c₂ m _) ?_
  intro _ c₃ _ _ _
  refine .bind (Q := fun _ _ => True)
    (.change (.single (c₃.write_updateMethod m fun _ => rfl)) trivial) ?_
  exact fun _ c₄ _ _ _ => leads_annotate c₄ m entry .methods

theorem leads_loadMethod (ho : c.Opened r) (entry : Fields) :
    (loadMethod r entry).Leads c fun _ _ => True := by
  unfold loadMethod
  refine .bind (Q := fun _ _ => True) (.lift fun _ _ => trivial) ?_
  intro path c₁ _ hl₁ _
  refine .bind (leads_ensureNamespace (hl₁.opened ho) path) ?_
  rintro n c₂ - - ⟨hn, hs⟩
  refine .bind (Q := fun _ _ => True) (.lift fun _ _ => trivial) ?_
  intro name c₃ _ hl₃ _
  refine .bind (leads_makeMethod ⟨?_, fun _ h => by cases h⟩ (scopeField entry)) ?_
  · rintro m h
    cases h
    exact ⟨hl₃.knows hn, by rw [hl₃.isSpace hn, hs]⟩
  intro m c₄ _ _ hm
  refine .bind (leads_describe c₄ m entry) ?_
  exact fun _ c₅ _ hl₅ _ => leads_register (hl₅.knows hm)

theorem leads_loadAttribute (ho : c.Opened r) (entry : Fields) :
    (loadAttribute r entry).Leads c fun _ _ => True := by
  unfold loadAttribute
  refine .bind (Q := fun _ _ => True) (.lift fun _ _ => trivial) ?_
  intro path c₁ _ hl₁ _
  refine .bind (leads_ensureNamespace (hl₁.opened ho) path) ?_
  intro n c₂ _ _ _
  refine .bind (Q := fun _ _ => True) (.lift fun _ _ => trivial) ?_
  intro name c₃ _ _ _
  -- the two accessors are looked up, which changes nothing
  refine Action.Leads.get ?_
  refine .bind (Q := fun _ _ => True) (.lift fun _ _ => trivial) ?_
  intro readPath? c₄ _ _ _
  refine .bind (Q := fun _ _ => True) (.lift fun _ _ => trivial) ?_
  intro read c₅ _ _ _
  refine Action.Leads.get ?_
  refine .bind (Q := fun _ _ => True) (.lift fun _ _ => trivial) ?_
  intro writePath? c₆ _ _ _
  refine .bind (Q := fun _ _ => True) (.lift fun _ _ => trivial) ?_
  intro write c₇ _ _ _
  refine .bind (leads_addAttribute c₇ n _ _ read write) ?_
  exact fun _ _ _ _ _ => .pure trivial

theorem leads_loadAlias (ho : c.Opened r) (entry : Fields) :
    (loadAlias r entry).Leads c fun _ _ => True := by
  unfold loadAlias
  refine .bind (Q := fun _ _ => True) (.lift fun _ _ => trivial) ?_
  intro path c₁ _ hl₁ _
  refine .bind (leads_ensureNamespace (hl₁.opened ho) path) ?_
  intro n c₂ _ _ _
  refine Action.Leads.get ?_
  refine .bind (Q := fun _ _ => True) (.lift fun _ _ => trivial) ?_
  intro methodPath c₃ _ _ _
  refine .bind (Q := fun _ _ => True) (.lift fun _ _ => trivial) ?_
  intro m c₄ _ _ _
  refine .bind (Q := fun _ _ => True) (.lift fun _ _ => trivial) ?_
  intro name c₅ _ _ _
  exact .change (.single (c₅.write_updateTables n fun _ => rfl)) trivial

theorem leads_loadEntry (ho : c.Opened r) (part : Part) (entry : Fields) :
    (loadEntry r part entry).Leads c fun _ _ => True := by
  cases part with
  | namespaces => exact leads_loadNamespace ho entry
  | methods => exact leads_loadMethod ho entry
  | attributes => exact leads_loadAttribute ho entry
  | aliases => exact leads_loadAlias ho entry

theorem leads_loadParts (ho : c.Opened r) (fields : Fields) :
    (loadParts r fields).Leads c fun _ _ => True := by
  unfold loadParts
  refine .bind (Q := fun _ _ => True) (.forM ?_) ?_
  · intro part _ c' _ hl
    refine .bind (Q := fun _ _ => True) (.lift fun _ _ => trivial) ?_
    intro entries c'' _ hl' _
    refine .forM fun entry _ c₃ _ hl'' => ?_
    exact leads_loadEntry (hl''.opened (hl'.opened (hl.opened ho))) part entry
  · intro _ c' _ _ _
    exact .change (.single (.note r _)) trivial

/-- **Loading a manifest leads by writes to its outcome, whether it is accepted or refused.** -/
theorem leads_load (ho : c.Opened r) (data : Value) : (load r data).Leads c fun _ _ => True := by
  unfold load
  refine .bind (Q := fun _ _ => True) (.lift fun _ _ => trivial) ?_
  intro fields c' _ hl _
  exact leads_loadParts (hl.opened ho) fields

theorem leads_loadFresh (c : Catalog) (data : Value) :
    (loadFresh data).Leads c fun r c' => c'.Opened r := by
  unfold loadFresh
  refine .bind (Q := fun _ _ => True) (.lift fun _ _ => trivial) ?_
  intro fields c' _ _ _
  refine Action.Leads.get ?_
  have ho := opened_openRegistry (c := c') {}
  refine .bind (Q := fun _ c'' => c''.Opened (c'.openRegistry {}).1)
    (.set (.single (.openRegistry {})) ho) ?_
  intro _ c'' _ _ ho
  refine .bind (leads_loadParts ho fields) ?_
  exact fun _ _ _ hl _ => .pure (hl.opened ho)

end Manifest

end DocCatalog
