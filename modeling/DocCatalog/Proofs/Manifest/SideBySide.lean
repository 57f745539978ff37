/-
**A manifest loaded on two sides.**

Loading reads a catalog only through the registry that it loads into: the root, the members of the
namespaces on the way, and what the registry holds at a path.  So where two registries hold the same
up to the correspondence of their entities, each step of loading does the same on both sides, and
where one side stops the other stops too, with the same fault.

Main definitions:

* `Pairing.InStep`: two steps that end alike and keep the correspondence.

Main results:

* `Pairing.InStep.bind`, `Pairing.InStep.forM`, `Pairing.InStep.foldlM`: the rules of composition;
* `Pairing.Mirrors.ensureNamespace`: the namespace of a path is come to on both sides;
* `Pairing.Mirrors.load`: **a manifest is loaded alike on both sides, or refused alike**.
-/

import DocCatalog.Manifest.Load
import DocCatalog.Proofs.Catalog.Leading
import DocCatalog.Proofs.Registry.Twins

set_option autoImplicit false

namespace DocCatalog

open Catalog

/-! ### Two steps -/

namespace Pairing

variable {ρ : Pairing} {c c' : Catalog} {α β γ δ : Type}

/-- Two steps end alike, keep the correspondence, and take back no reference. -/
structure InStep (ρ : Pairing) (a : Action α) (a' : Action β) (c c' : Catalog)
    (Q : α → β → Catalog → Prop) : Prop where
  size_le : c.entities.size ≤ (a c).2.entities.size
  mirrors : ρ.Mirrors (a c).2 (a' c').2
  accord : Accord (fun x y => Q x y (a c).2) (a c).1 (a' c').1

namespace InStep

variable {a : Action α} {a' : Action β} {Q : α → β → Catalog → Prop} {R : γ → δ → Catalog → Prop}

theorem pure (h : ρ.Mirrors c c') {x : α} {y : β} (hq : Q x y c) :
    ρ.InStep (Pure.pure x) (Pure.pure y) c c' Q := ⟨Nat.le_refl _, h, hq⟩

theorem throw (h : ρ.Mirrors c c') (fault : Fault) :
    ρ.InStep (MonadExcept.throw fault : Action α) (MonadExcept.throw fault : Action β) c c' Q :=
  ⟨Nat.le_refl _, h, rfl⟩

theorem get {f : Catalog → Action γ} {f' : Catalog → Action δ}
    (h : ρ.InStep (f c) (f' c') c c' R) :
    ρ.InStep (MonadState.get >>= f) (MonadState.get >>= f') c c' R :=
  ⟨h.size_le, h.mirrors, h.accord⟩

theorem set {d d' : Catalog} {Q : Unit → Unit → Catalog → Prop}
    (hle : c.entities.size ≤ d.entities.size) (h : ρ.Mirrors d d') (hq : Q () () d) :
    ρ.InStep (MonadState.set d : Action Unit) (MonadState.set d') c c' Q := ⟨hle, h, hq⟩

theorem change {g g' : Catalog → Catalog} {Q : Unit → Unit → Catalog → Prop}
    (hle : c.entities.size ≤ (g c).entities.size) (h : ρ.Mirrors (g c) (g' c'))
    (hq : Q () () (g c)) : ρ.InStep (Action.change g) (Action.change g') c c' Q := ⟨hle, h, hq⟩

theorem bind {f : α → Action γ} {f' : β → Action δ} (ha : ρ.InStep a a' c c' Q)
    (hf : ∀ x y d d', ρ.Mirrors d d' → c.entities.size ≤ d.entities.size → Q x y d →
      ρ.InStep (f x) (f' y) d d' R) : ρ.InStep (a >>= f) (a' >>= f') c c' R := by
  obtain ⟨hle, hm, hacc⟩ := ha
  have hrun := Action.bind_run a f c
  have hrun' := Action.bind_run a' f' c'
  rcases hac : a c with ⟨_ | x, d⟩ <;> rcases hac' : a' c' with ⟨_ | y, d'⟩ <;>
    simp only [hac, hac'] at hle hm hacc hrun hrun'
  · exact ⟨by rw [hrun]; exact hle, by rw [hrun, hrun']; exact hm, by rw [hrun, hrun']; exact hacc⟩
  · exact hacc.elim
  · exact hacc.elim
  · obtain ⟨hle', hm', hacc'⟩ := hf x y d d' hm hle hacc
    exact ⟨by rw [hrun]; exact Nat.le_trans hle hle', by rw [hrun, hrun']; exact hm',
      by rw [hrun, hrun']; exact hacc'⟩

/-- Plain data that is read alike changes neither side. -/
theorem bind_lift {q : Except Fault α} {q' : Except Fault β} {S : α → β → Prop}
    {f : α → Action γ} {f' : β → Action δ} (h : ρ.Mirrors c c') (hq : Accord S q q')
    (hf : ∀ x y, S x y → ρ.InStep (f x) (f' y) c c' R) :
    ρ.InStep (liftM q >>= f) (liftM q' >>= f') c c' R := by
  rcases q with fault | x <;> rcases q' with fault' | y
  · cases hq
    exact .throw h fault
  · exact hq.elim
  · exact hq.elim
  · exact hf x y hq

/-- The same plain data is read on both sides. -/
theorem bind_read {q : Except Fault α} {f : α → Action γ} {f' : α → Action δ}
    (h : ρ.Mirrors c c') (hf : ∀ x, ρ.InStep (f x) (f' x) c c' R) :
    ρ.InStep (liftM q >>= f) (liftM q >>= f') c c' R := by
  refine bind_lift (S := Eq) h ?_ fun x y hxy => hxy ▸ hf x
  cases q <;> rfl

theorem forM {l : List α} {f f' : α → Action Unit}
    (hf : ∀ x ∈ l, ∀ d d', ρ.Mirrors d d' → ρ.InStep (f x) (f' x) d d' fun _ _ _ => True) :
    ∀ {c c'}, ρ.Mirrors c c' → ρ.InStep (l.forM f) (l.forM f') c c' fun _ _ _ => True := by
  induction l with
  | nil => exact fun h => .pure h trivial
  | cons x l ih =>
      intro c c' h
      show ρ.InStep (f x >>= fun _ => l.forM f) (f' x >>= fun _ => l.forM f') c c' _
      exact (hf x (by simp) c c' h).bind fun _ _ d d' hd _ _ =>
        ih (fun y hy => hf y (by simp [hy])) hd

theorem foldlM {l : List α} {f : γ → α → Action γ} {f' : δ → α → Action δ}
    (hf : ∀ x ∈ l, ∀ b b' d d', ρ.Mirrors d d' → R b b' d → ρ.InStep (f b x) (f' b' x) d d' R) :
    ∀ {b b' c c'}, ρ.Mirrors c c' → R b b' c → ρ.InStep (l.foldlM f b) (l.foldlM f' b') c c' R := by
  induction l with
  | nil => exact fun h hb => .pure h hb
  | cons x l ih =>
      intro b b' c c' h hb
      rw [List.foldlM_cons, List.foldlM_cons]
      exact (hf x (by simp) b b' c c' h hb).bind fun b b' d d' hd _ hb =>
        ih (fun y hy => hf y (by simp [hy])) hd hb

end InStep

/-! ### Making and registering -/

/-- Two entities correspond and were made already. -/
def Known (ρ : Pairing) (e e' : EntityId) (c : Catalog) : Prop := ρ.twins e e' ∧ c.Knows e

theorem Known.mono {e e' : EntityId} {d : Catalog} (h : ρ.Known e e' c)
    (hle : c.entities.size ≤ d.entities.size) : ρ.Known e e' d :=
  ⟨h.1, Nat.lt_of_lt_of_le h.2 hle⟩

/-- What two new entities are given corresponds. -/
structure Origins (ρ : Pairing) (o o' : Origin) (c : Catalog) : Prop where
  owner : Option.Rel (fun n n' => ρ.Known n n' c) o.owner? o'.owner?
  name : o.name = o'.name
  registry : Option.Rel (fun r r' => r = ρ.left ∧ r' = ρ.right) o.registry? o'.registry?
  docstring : o.docstring = o'.docstring

theorem Origins.below {n n' : EntityId} (hn : ρ.Known n n' c) (name : Value) :
    ρ.Origins { owner? := some n, name } { owner? := some n', name } c :=
  ⟨.some hn, rfl, .none, rfl⟩

namespace Mirrors

variable {e e' n n' m m' : EntityId} {entry : Manifest.Fields} {part : Manifest.Part}

/-- The chain of owners of a new entity, and the registry that it belongs to, if it has one. -/
theorem origin (h : ρ.Mirrors c c') {o o' : Origin} (ho : ρ.Origins o o' c) :
    List.Forall₂ ρ.Ancestors (c.lineageOf o.owner?) (c'.lineageOf o'.owner?) ∧
      Option.Rel (fun r r' => r = ρ.left ∧ r' = ρ.right) (c.homeOf? o) (c'.homeOf? o') := by
  obtain ⟨owner?, name, registry?, docstring⟩ := o
  obtain ⟨owner?', name', registry?', docstring'⟩ := o'
  obtain ⟨howner, -, hregistry, -⟩ := ho
  simp only at howner hregistry
  constructor
  · cases howner with
    | none => exact .nil
    | some hn => exact .cons ((h.entity hn.1).asAncestor hn.1) (h.entity hn.1).lineage
  · exact rel_or hregistry (rel_map howner fun n n' hn => h.home hn.1 hn.2)

/-- The same is made on both sides, or nothing is. -/
theorem make (h : ρ.Mirrors c c') {o o' : Origin} (ho : ρ.Origins o o' c) {kind : EntityKind}
    {form : Registry → Form}
    (hprofile : (c.newEntity o ρ.left form).profile = (c'.newEntity o' ρ.right form).profile)
    (htables : Option.Rel ρ.Tables (c.newEntity o ρ.left form).tables?
      (c'.newEntity o' ρ.right form).tables?) :
    ρ.InStep (Catalog.make kind form o) (Catalog.make kind form o') c c' ρ.Known := by
  obtain ⟨hlineage, hhome⟩ := h.origin ho
  have hx : ρ.Entities (c.newEntity o ρ.left form) (c'.newEntity o' ρ.right form) :=
    ⟨congrArg Value.display ho.name, ρ.config_eq, hlineage, hprofile, htables⟩
  have hnew : ρ.twins ⟨c.entities.size⟩ ⟨c'.entities.size⟩ := h.next 0
  rcases hh : c.homeOf? o with _ | home <;> rcases hh' : c'.homeOf? o' with _ | home' <;>
    rw [hh, hh'] at hhome <;> cases hhome
  · have hrun : Catalog.make kind form o c = _ := make_of_homeless hh
    have hrun' : Catalog.make kind form o' c' = _ := make_of_homeless hh'
    exact ⟨by simp only [hrun, Nat.le_refl], by rw [hrun, hrun']; exact h,
      by rw [hrun, hrun']; exact congrArg (Fault.homeless kind) ho.name⟩
  · next hboth =>
      obtain ⟨rfl, rfl⟩ := hboth
      have hrun : Catalog.make kind form o c = _ := make_of_homeOf? hh
      have hrun' : Catalog.make kind form o' c' = _ := make_of_homeOf? hh'
      have hsize : ((c.add (c.newEntity o ρ.left form)).2.adoptByOwner
          ⟨c.entities.size⟩).entities.size = c.entities.size + 1 := by simp [Catalog.add]
      refine ⟨?_, ?_, ?_⟩
      · rw [hrun, hsize]
        exact Nat.le_succ _
      · rw [hrun, hrun']
        exact (h.add hx rfl rfl).adoptByOwner hnew
      · rw [hrun, hrun']
        exact ⟨hnew, by rw [Catalog.Knows, hsize]; exact Nat.lt_succ_self _⟩

theorem makeSpace (h : ρ.Mirrors c c') {o o' : Origin} (ho : ρ.Origins o o' c) :
    ρ.InStep (Catalog.makeSpace o) (Catalog.makeSpace o') c c' ρ.Known := by
  refine h.make ho ?_ (.some .empty)
  simp only [Entity.profile, Catalog.newEntity, Entity.kind, Entity.method?, ho.docstring]

theorem makeMethod (h : ρ.Mirrors c c') {o o' : Origin} (ho : ρ.Origins o o' c) (scope : Value) :
    ρ.InStep (Catalog.makeMethod o scope) (Catalog.makeMethod o' scope) c c' ρ.Known := by
  unfold Catalog.makeMethod
  split
  · exact .throw h _
  · refine h.make ho ?_ .none
    -- a new method is of the visibility that its registry gives, and both give the same
    simp only [Entity.profile, Catalog.newEntity, Entity.kind, Entity.method?, ρ.config_eq,
      ho.docstring]

theorem register (h : ρ.Mirrors c c') (he : ρ.Known e e' c) :
    ρ.InStep (Catalog.register ρ.left e) (Catalog.register ρ.right e') c c' fun _ _ _ => True := by
  obtain ⟨hhome, hhome'⟩ := h.home he.1 he.2
  refine .get ?_
  rw [if_pos hhome, if_pos hhome']
  refine .set (Nat.le_of_eq ?_) (h.enter he.1) trivial
  simp [Catalog.enter, Catalog.note, Catalog.updateEntries, Catalog.updateHoldings]

/-! ### Namespaces on the way -/

theorem nestedSpace? (h : ρ.Mirrors c c') (hn : ρ.twins n n') (name : String) :
    Option.Rel ρ.twins (c.nestedSpace? n name) (c'.nestedSpace? n' name) :=
  rel_filter ((h.tables hn).member? name) fun _ _ he => (h.entity he).isSpace_eq

theorem ensureNested (h : ρ.Mirrors c c') (hn : ρ.Known n n' c) (name : String) :
    ρ.InStep (Catalog.ensureNested ρ.left n name) (Catalog.ensureNested ρ.right n' name) c c'
      ρ.Known := by
  refine .get ?_
  have hnested := h.nestedSpace? hn.1 name
  rcases hs : c.nestedSpace? n name with _ | e <;>
    rcases hs' : c'.nestedSpace? n' name with _ | e' <;> rw [hs, hs'] at hnested <;> cases hnested
  · refine (h.makeSpace (.below hn (.text name))).bind fun e e' d d' hd _ he => ?_
    refine (hd.register he).bind fun _ _ b b' hb hle _ => ?_
    exact .pure hb (he.mono hle)
  · next he => exact .pure h ⟨he, knows_of_isSpace (slot_of_nestedSpace? hs).2⟩

/-- **The namespace of a path is come to on both sides, or on neither.** -/
theorem ensureNamespace (h : ρ.Mirrors c c') (path : String) :
    ρ.InStep (Catalog.ensureNamespace ρ.left path) (Catalog.ensureNamespace ρ.right path) c c'
      ρ.Known := by
  have hroot : ρ.Known (c.root ρ.left) (c'.root ρ.right) c := ⟨h.root, h.knows_root⟩
  have hsegments : segments ρ.left path = segments ρ.right path := by
    rw [segments, segments, Registry.separators, Registry.separators, ρ.config_eq]
  refine .get ?_
  split
  · exact .pure h hroot
  · rw [hsegments]
    refine .foldlM (fun name _ n n' d d' hd hn => ?_) h hroot
    split
    · exact .throw hd _
    · exact hd.ensureNested hn name

/-! ### What an entry says about an entity -/

theorem setDocstring (h : ρ.Mirrors c c') (he : ρ.twins e e') (v : Value) :
    ρ.InStep (Action.change fun c => c.setDocstring e v)
      (Action.change fun c => c.setDocstring e' v) c c' fun _ _ _ => True :=
  .change (by simp [Catalog.setDocstring])
    (h.update he (fun _ _ hx => hx.setDocstring _) (fun _ => rfl) fun _ => rfl) trivial

theorem addFile (h : ρ.Mirrors c c') (he : ρ.twins e e') (file line : Value) :
    ρ.InStep (Action.change fun c => c.addFile e file line)
      (Action.change fun c => c.addFile e' file line) c c' fun _ _ _ => True := by
  have hhome : ∀ x : Entity, (x.addFile file line).home = x.home := fun x =>
    Entity.home_eq_of_settled (Entity.settled_eq_of_identity (x.identity_addFile file line))
  exact .change (by simp [Catalog.addFile])
    (h.update he (fun _ _ hx => hx.addFile _ _) hhome hhome) trivial

theorem document (h : ρ.Mirrors c c') (he : ρ.twins e e') :
    ρ.InStep (Manifest.document e entry part) (Manifest.document e' entry part) c c'
      fun _ _ _ => True := by
  unfold Manifest.document
  split
  · exact .bind_read h fun docstring => h.setDocstring he _
  · exact .pure h trivial

theorem locate (h : ρ.Mirrors c c') (he : ρ.twins e e') :
    ρ.InStep (Manifest.locate e entry part) (Manifest.locate e' entry part) c c'
      fun _ _ _ => True := by
  unfold Manifest.locate
  refine .bind_read h fun place => ?_
  split
  · exact h.addFile he _ _
  · exact .pure h trivial

theorem annotate (h : ρ.Mirrors c c') (he : ρ.twins e e') :
    ρ.InStep (Manifest.annotate e entry part) (Manifest.annotate e' entry part) c c'
      fun _ _ _ => True :=
  (h.document he).bind fun _ _ _ _ hd _ _ => hd.locate he

/-- The same change to the fields of corresponding methods. -/
theorem changeMethod (h : ρ.Mirrors c c') (he : ρ.twins m m') (f : MethodFields → MethodFields) :
    ρ.InStep (Action.change fun c => c.update m fun x => x.updateMethod f)
      (Action.change fun c => c.update m' fun x => x.updateMethod f) c c' fun _ _ _ => True :=
  .change (by simp) (h.update he (fun _ _ hx => hx.updateMethod f)
    (fun x => x.home_updateMethod f) fun x => x.home_updateMethod f) trivial

theorem setVisibility (h : ρ.Mirrors c c') (hm : ρ.twins m m') (v : Value) :
    ρ.InStep (Catalog.setVisibility m v) (Catalog.setVisibility m' v) c c' fun _ _ _ => True := by
  unfold Catalog.setVisibility
  split
  · exact .throw h _
  · exact h.changeMethod hm _

theorem setParameters (h : ρ.Mirrors c c') (hm : ρ.twins m m') (v : Value) :
    ρ.InStep (Catalog.setParameters m v) (Catalog.setParameters m' v) c c' fun _ _ _ => True := by
  unfold Catalog.setParameters
  split
  · exact .throw h _
  · exact h.changeMethod hm _

theorem describe (h : ρ.Mirrors c c') (hm : ρ.twins m m') :
    ρ.InStep (Manifest.describe m entry) (Manifest.describe m' entry) c c' fun _ _ _ => True := by
  have hexpose : ρ.InStep (Manifest.expose m entry) (Manifest.expose m' entry) c c'
      fun _ _ _ => True := by
    unfold Manifest.expose
    split
    · exact h.setVisibility hm _
    · exact .pure h trivial
  refine hexpose.bind fun _ _ d d' hd _ _ => ?_
  refine .bind_read hd fun items => ?_
  refine (hd.setParameters hm _).bind fun _ _ d d' hd _ _ => ?_
  exact (hd.changeMethod hm _).bind fun _ _ d d' hd _ _ => hd.annotate hm

/-! ### Looking things up -/

theorem methodAt (h : ρ.Mirrors c c') (path : String) :
    Accord ρ.twins (Manifest.methodAt c ρ.left path part)
      (Manifest.methodAt c' ρ.right path part) := by
  unfold Manifest.methodAt
  have hlookup := h.lookup? path
  generalize c.lookup? ρ.left path = e?, c'.lookup? ρ.right path = e?' at hlookup
  cases hlookup with
  | none => rfl
  | some he =>
      simp only [(h.entity he).kind_eq]
      split
      · exact he
      · rfl

theorem methodAt? (h : ρ.Mirrors c c') (path? : Option String) :
    Accord (Option.Rel ρ.twins) (Manifest.methodAt? c ρ.left path? part)
      (Manifest.methodAt? c' ρ.right path? part) := by
  unfold Manifest.methodAt?
  cases path? with
  | none => exact .none
  | some path => exact (h.methodAt path).map fun _ _ he => .some he

/-! ### Attributes and aliases -/

/-- An attribute is written down on both sides, or refused on both. -/
theorem addAttribute (h : ρ.Mirrors c c') (hn : ρ.twins n n') (scope name : Value)
    {read read' write write' : Option EntityId} (hread : Option.Rel ρ.twins read read')
    (hwrite : Option.Rel ρ.twins write write') :
    ρ.InStep (Catalog.addAttribute n scope name read write)
      (Catalog.addAttribute n' scope name read' write') c c' fun a a' _ =>
        Accessors.Twins ρ.twins a a' := by
  unfold Catalog.addAttribute
  split
  · exact .throw h _
  · next s _ =>
      refine .get ?_
      have htable : AttributeTable.Twins ρ.twins (((c.tables n).attributes? s).getD ∅)
          (((c'.tables n').attributes? s).getD ∅) :=
        rel_getD ((h.tables hn).attributes s) .empty
      have hset : ∀ {d d' : Catalog} {t t' : AttributeTable}, ρ.Mirrors d d' →
          AttributeTable.Twins ρ.twins t t' →
          ρ.InStep (Action.change fun c => c.updateTables n fun u => u.setAttributes s (some t))
            (Action.change fun c => c.updateTables n' fun u => u.setAttributes s (some t')) d d'
            fun _ _ _ => True :=
        fun hd ht => .change (by simp)
          (hd.updateTables hn fun _ _ hu => hu.setAttributes s (.some ht)) trivial
      refine (hset h htable).bind fun _ _ d d' hd _ _ => ?_
      split
      · exact .throw hd _
      · have hextend := htable.extend name hread hwrite
        refine (hset hd hextend).bind fun _ _ b b' hb _ _ => ?_
        exact .pure hb (rel_getD (hextend.find? name) ⟨.none, .none⟩)

/-- An alias is written down on both sides. -/
theorem addAlias (h : ρ.Mirrors c c') (hn : ρ.twins n n') {e? e?' : Option EntityId}
    (he : Option.Rel ρ.twins e? e?') (name : Value) :
    ρ.InStep (Action.change fun c => c.addAlias n e? name)
      (Action.change fun c => c.addAlias n' e?' name) c c' fun _ _ _ => True :=
  .change (by simp [Catalog.addAlias]) (h.updateTables hn fun _ _ ht => ht.insertAlias he _) trivial

/-! ### Entries -/

theorem loadNamespace (h : ρ.Mirrors c c') :
    ρ.InStep (Manifest.loadNamespace ρ.left entry) (Manifest.loadNamespace ρ.right entry) c c'
      fun _ _ _ => True := by
  refine .bind_read h fun path => ?_
  exact (h.ensureNamespace path).bind fun _ _ _ _ hd _ hn => hd.annotate hn.1

theorem loadMethod (h : ρ.Mirrors c c') :
    ρ.InStep (Manifest.loadMethod ρ.left entry) (Manifest.loadMethod ρ.right entry) c c'
      fun _ _ _ => True := by
  refine .bind_read h fun path => ?_
  refine (h.ensureNamespace path).bind fun n n' d d' hd _ hn => ?_
  refine .bind_read hd fun name => ?_
  refine (hd.makeMethod (.below hn (.text name)) _).bind fun m m' d d' hd _ hm => ?_
  exact (hd.describe hm.1).bind fun _ _ _ _ hd hle _ => hd.register (hm.mono hle)

theorem loadAttribute (h : ρ.Mirrors c c') :
    ρ.InStep (Manifest.loadAttribute ρ.left entry) (Manifest.loadAttribute ρ.right entry) c c'
      fun _ _ _ => True := by
  refine .bind_read h fun path => ?_
  refine (h.ensureNamespace path).bind fun n n' d d' hd _ hn => ?_
  refine .bind_read hd fun name => ?_
  refine .get (.bind_read hd fun readPath? => ?_)
  refine .bind_lift hd (hd.methodAt? readPath?) fun read read' hread => ?_
  refine .get (.bind_read hd fun writePath? => ?_)
  refine .bind_lift hd (hd.methodAt? writePath?) fun write write' hwrite => ?_
  exact (hd.addAttribute hn.1 _ _ hread hwrite).bind fun _ _ _ _ hd _ _ => .pure hd trivial

theorem loadAlias (h : ρ.Mirrors c c') :
    ρ.InStep (Manifest.loadAlias ρ.left entry) (Manifest.loadAlias ρ.right entry) c c'
      fun _ _ _ => True := by
  refine .bind_read h fun path => ?_
  refine (h.ensureNamespace path).bind fun n n' d d' hd _ hn => ?_
  refine .get (.bind_read hd fun target => ?_)
  refine .bind_lift hd (hd.methodAt target) fun m m' hm => ?_
  exact .bind_read hd fun name => hd.addAlias hn.1 (.some hm) _

/-- **An entry does the same on both sides, or is refused on both.** -/
theorem loadEntry (h : ρ.Mirrors c c') :
    ρ.InStep (Manifest.loadEntry ρ.left part entry) (Manifest.loadEntry ρ.right part entry) c c'
      fun _ _ _ => True := by
  cases part with
  | namespaces => exact h.loadNamespace
  | methods => exact h.loadMethod
  | attributes => exact h.loadAttribute
  | aliases => exact h.loadAlias

/-- **A manifest does the same on both sides, or is refused on both.** -/
theorem load (h : ρ.Mirrors c c') (data : Value) :
    ρ.InStep (Manifest.load ρ.left data) (Manifest.load ρ.right data) c c' fun _ _ _ => True := by
  refine .bind_read h fun fields => ?_
  have hpart : ∀ part ∈ Manifest.Part.all, ∀ d d', ρ.Mirrors d d' →
      ρ.InStep (Manifest.loadPart ρ.left fields part) (Manifest.loadPart ρ.right fields part) d d'
        fun _ _ _ => True := fun part _ d d' hd =>
    .bind_read hd fun entries => .forM (fun entry _ _ _ hd => hd.loadEntry) hd
  refine (InStep.forM hpart h).bind fun _ _ d d' hd _ _ => ?_
  exact .change (Nat.le_refl _) (hd.note _ _ _ _) trivial

end Mirrors

end Pairing

end DocCatalog
