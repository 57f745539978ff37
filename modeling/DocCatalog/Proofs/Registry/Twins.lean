/-
**Two registries side by side.**

Two registries may hold the same although each stands in a catalog of its own, or was begun at
another time, so that the references to their entities differ.  Then the entities correspond: what
one refers to, its twin refers to the twin of, and all else about the two is the same.  A write on
one side is matched by the same write on the other, and what is made on both sides at once
corresponds from then on.  Whatever else the two catalogs hold takes no part in this.

Main definitions:

* `Accord`: two answers that correspond, or one fault;
* `OrderedTable.Twins`: tables that correspond key by key and value by value, in one order;
* `Tables.Twins`: attributes and aliases that correspond;
* `Pairing`: two registries with the same settings, and which references correspond;
* `Pairing.Entities`: two entities that differ only in references, and there correspond;
* `Pairing.Mirrors`: two registries that hold the same up to the correspondence.

Main results:

* `OrderedTable.Twins.get?`, `OrderedTable.Twins.insert`: reading and writing tables side by side;
* `Pairing.Mirrors.update`, `Pairing.Mirrors.enter`, `Pairing.Mirrors.add`: **the same write on both
  sides keeps the correspondence**.
-/

import DocCatalog.Catalog.Attributes
import DocCatalog.Catalog.Lookup
import DocCatalog.Proofs.Registry.View
import Mathlib.Data.List.Forall2

set_option autoImplicit false

namespace DocCatalog

/-! ### Answers and options that correspond -/

/-- Two answers correspond, or two faults are the same. -/
def Accord {α β : Type} (R : α → β → Prop) : Except Fault α → Except Fault β → Prop
  | .ok x, .ok y => R x y
  | .error fault, .error fault' => fault = fault'
  | _, _ => False

theorem Accord.map {α β γ δ : Type} {R : α → β → Prop} {S : γ → δ → Prop} {f : α → γ} {g : β → δ}
    {q : Except Fault α} {q' : Except Fault β} (h : Accord R q q')
    (hfg : ∀ x y, R x y → S (f x) (g y)) : Accord S (q.map f) (q'.map g) := by
  rcases q with fault | x <;> rcases q' with fault' | y
  · exact h
  · exact h
  · exact h
  · exact hfg x y h

theorem biUnique_eq {α : Type} : Relator.BiUnique (Eq : α → α → Prop) :=
  ⟨fun _ _ _ h h' => h.trans h'.symm, fun _ _ _ h h' => h.symm.trans h'⟩

section Options

variable {α β : Type} {R : α → β → Prop} {x : Option α} {y : Option β}

theorem biUnique_option (h : Relator.BiUnique R) : Relator.BiUnique (Option.Rel R) := by
  constructor
  · rintro x y z (hxz | _) (hyz | _)
    · exact congrArg some (h.1 hxz ‹_›)
    · rfl
  · rintro x y z (hxz | _) (hyz | _)
    · exact congrArg some (h.2 hxz ‹_›)
    · rfl

theorem rel_or {x' : Option α} {y' : Option β} (h : Option.Rel R x y) (h' : Option.Rel R x' y') :
    Option.Rel R (x.or x') (y.or y') := by
  cases h with
  | some h => exact .some h
  | none => exact h'

theorem rel_map {γ δ : Type} {S : γ → δ → Prop} {f : α → γ} {g : β → δ} (h : Option.Rel R x y)
    (hfg : ∀ a b, R a b → S (f a) (g b)) : Option.Rel S (x.map f) (y.map g) := by
  cases h with
  | some h => exact .some (hfg _ _ h)
  | none => exact .none

theorem rel_filter {p : α → Bool} {q : β → Bool} (h : Option.Rel R x y)
    (hpq : ∀ a b, R a b → p a = q b) : Option.Rel R (x.filter p) (y.filter q) := by
  cases h with
  | none => exact .none
  | @some a b hab =>
      rw [Option.filter_some, Option.filter_some, hpq a b hab]
      cases q b with
      | true => exact .some hab
      | false => exact .none

theorem rel_getD {a : α} {b : β} (h : Option.Rel R x y) (hab : R a b) :
    R (x.getD a) (y.getD b) := by
  cases h with
  | some h => exact h
  | none => exact hab

theorem rel_head? {l : List α} {l' : List β} (h : List.Forall₂ R l l') :
    Option.Rel R l.head? l'.head? := by
  cases h with
  | nil => exact .none
  | cons h _ => exact .some h

theorem rel_getLast? {l : List α} {l' : List β} (h : List.Forall₂ R l l') :
    Option.Rel R l.getLast? l'.getLast? := by
  rw [List.getLast?_eq_head?_reverse, List.getLast?_eq_head?_reverse]
  exact rel_head? (List.forall₂_reverse_iff.2 h)

end Options

/-- Answers without content that correspond are the same. -/
theorem Accord.eq {R : Unit → Unit → Prop} {q q' : Except Fault Unit} (h : Accord R q q') :
    q = q' := by
  rcases q with fault | _ <;> rcases q' with fault' | _
  · exact congrArg Except.error h
  · exact h.elim
  · exact h.elim
  · rfl

/-! ### Tables that correspond -/

namespace OrderedTable

variable {κ κ' α β : Type} {K : κ → κ' → Prop} {V : α → β → Prop}

/-- Two tables correspond key by key and value by value, in one order. -/
def Twins (K : κ → κ' → Prop) (V : α → β → Prop) (t : OrderedTable κ α) (t' : OrderedTable κ' β) :
    Prop := List.Forall₂ (fun p p' => K p.1 p'.1 ∧ V p.2 p'.2) t.toList t'.toList

namespace Twins

theorem empty : Twins K V (∅ : OrderedTable κ α) (∅ : OrderedTable κ' β) := .nil

variable {t : OrderedTable κ α} {t' : OrderedTable κ' β}

theorem keys (h : Twins K V t t') : List.Forall₂ K t.keys t'.keys :=
  List.rel_map (fun _ _ hp => hp.1) h

theorem values (h : Twins K V t t') : List.Forall₂ V t.values t'.values :=
  List.rel_map (fun _ _ hp => hp.2) h

variable [DecidableEq κ] [DecidableEq κ'] {k : κ} {k' : κ'}

theorem forall₂_write (hK : Relator.BiUnique K) (hk : K k k') {v : α} {v' : β} (hv : V v v')
    {l : List (κ × α)} {l' : List (κ' × β)}
    (h : List.Forall₂ (fun p p' => K p.1 p'.1 ∧ V p.2 p'.2) l l') :
    List.Forall₂ (fun p p' => K p.1 p'.1 ∧ V p.2 p'.2) (write k v l) (write k' v' l') := by
  induction h with
  | nil => exact .cons ⟨hk, hv⟩ .nil
  | @cons p p' l l' hp hl ih =>
      have hiff : p.1 = k ↔ p'.1 = k' := Relator.rel_eq hK hp.1 hk
      by_cases hkey : p.1 = k
      · rw [write, write, if_pos hkey, if_pos (hiff.1 hkey)]
        exact .cons ⟨hk, hv⟩ hl
      · rw [write, write, if_neg hkey, if_neg fun e => hkey (hiff.2 e)]
        exact .cons hp ih

theorem rel_find? (hK : Relator.BiUnique K) (hk : K k k') {l : List (κ × α)} {l' : List (κ' × β)}
    (h : List.Forall₂ (fun p p' => K p.1 p'.1 ∧ V p.2 p'.2) l l') :
    Option.Rel (fun p p' => K p.1 p'.1 ∧ V p.2 p'.2) (l.find? fun p => p.1 = k)
      (l'.find? fun p => p.1 = k') := by
  induction h with
  | nil => exact .none
  | @cons p p' l l' hp _ ih =>
      have hiff : p.1 = k ↔ p'.1 = k' := Relator.rel_eq hK hp.1 hk
      by_cases hkey : p.1 = k
      · rw [List.find?_cons_of_pos (by simpa using hkey),
          List.find?_cons_of_pos (by simpa using hiff.1 hkey)]
        exact .some hp
      · rw [List.find?_cons_of_neg (by simpa using hkey),
          List.find?_cons_of_neg (by simpa using fun e => hkey (hiff.2 e))]
        exact ih

/-- What is found at corresponding keys corresponds. -/
theorem get? (h : Twins K V t t') (hK : Relator.BiUnique K) (hk : K k k') :
    Option.Rel V (t.get? k) (t'.get? k') :=
  rel_map (rel_find? hK hk h) fun _ _ hp => hp.2

/-- What is written at corresponding keys takes the same place on both sides. -/
theorem insert (h : Twins K V t t') (hK : Relator.BiUnique K) (hk : K k k') {v : α} {v' : β}
    (hv : V v v') : Twins K V (t.insert k v) (t'.insert k' v') :=
  forall₂_write hK hk hv h

/-- What is erased at corresponding keys is erased at the same place on both sides. -/
theorem erase (h : Twins K V t t') (hK : Relator.BiUnique K) (hk : K k k') :
    Twins K V (t.erase k) (t'.erase k') := by
  refine List.rel_filter (fun p p' hp => ?_) h
  have hiff : p.1 = k ↔ p'.1 = k' := Relator.rel_eq hK hp.1 hk
  simp only [ne_eq, hiff]

end Twins

end OrderedTable

/-! ### What namespaces write down -/

section Written

variable {R : EntityId → EntityId → Prop}

/-- The accessors of two attributes correspond. -/
structure Accessors.Twins (R : EntityId → EntityId → Prop) (a a' : Accessors) : Prop where
  read : Option.Rel R a.read a'.read
  write : Option.Rel R a.write a'.write

/-- Two attribute tables hold the same names, spelled the same, with accessors that correspond. -/
def AttributeTable.Twins (R : EntityId → EntityId → Prop) (t t' : AttributeTable) : Prop :=
  OrderedTable.Twins Eq (fun x x' => x.1 = x'.1 ∧ Accessors.Twins R x.2 x'.2) t t'

/-- What two namespaces keep beside their members corresponds: the same attributes with accessors
that correspond, and aliases that correspond, in one order. -/
structure Tables.Twins (R : EntityId → EntityId → Prop) (t t' : Tables) : Prop where
  attributes : ∀ s, Option.Rel (AttributeTable.Twins R) (t.attributes? s) (t'.attributes? s)
  aliases : OrderedTable.Twins (Option.Rel R) Eq t.aliases t'.aliases

namespace AttributeTable.Twins

variable {t t' : AttributeTable}

theorem find? (h : AttributeTable.Twins R t t') (name : Value) :
    Option.Rel (Accessors.Twins R) (ValueTable.find? t name) (ValueTable.find? t' name) :=
  rel_map (OrderedTable.Twins.get? h biUnique_eq rfl) fun _ _ hx => hx.2

/-- An attribute is extended on both sides. -/
theorem extend (h : AttributeTable.Twins R t t') (name : Value)
    {read read' write write' : Option EntityId} (hread : Option.Rel R read read')
    (hwrite : Option.Rel R write write') :
    AttributeTable.Twins R (t.extend name read write) (t'.extend name read' write') := by
  have hacc : Accessors.Twins R ((ValueTable.find? t name).getD {})
      ((ValueTable.find? t' name).getD {}) := rel_getD (h.find? name) ⟨.none, .none⟩
  have hkey := OrderedTable.Twins.get? h biUnique_eq (rfl : name.canonical = name.canonical)
  refine OrderedTable.Twins.insert h biUnique_eq rfl ⟨?_, rel_or hread hacc.read,
    rel_or hwrite hacc.write⟩
  exact rel_getD (rel_map hkey fun _ _ hx => hx.1) rfl

end AttributeTable.Twins

namespace Tables.Twins

variable {t t' : Tables}

theorem empty : Tables.Twins R {} {} where
  attributes s := by cases s <;> exact .some .empty
  aliases := .empty

theorem setAttributes (h : Tables.Twins R t t') (s : Scope) {a a' : Option AttributeTable}
    (ha : Option.Rel (AttributeTable.Twins R) a a') :
    Tables.Twins R (t.setAttributes s a) (t'.setAttributes s a') where
  attributes s' := by
    rw [attributes?_setAttributes, attributes?_setAttributes]
    split
    · exact ha
    · exact h.attributes s'
  aliases := by simpa using h.aliases

theorem insertAlias (h : Tables.Twins R t t') (hR : Relator.BiUnique R) {e? e?' : Option EntityId}
    (he : Option.Rel R e? e?') (name : String) :
    Tables.Twins R { t with aliases := t.aliases.insert e? name }
      { t' with aliases := t'.aliases.insert e?' name } :=
  ⟨h.attributes, h.aliases.insert (biUnique_option hR) he rfl⟩

end Tables.Twins

end Written

/-! ### Entities that correspond -/

/-- Two registries with the same settings, and which references to entities correspond: each to one
at most. -/
structure Pairing where
  left : Registry
  right : Registry
  config_eq : left.config = right.config
  twins : EntityId → EntityId → Prop
  biUnique : Relator.BiUnique twins

namespace Pairing

variable (ρ : Pairing)

/-- Two owners correspond. -/
structure Ancestors (a a' : Ancestor) : Prop where
  id : ρ.twins a.id a'.id
  name : a.name = a'.name
  isRoot : a.isRoot = a'.isRoot
  config : a.home.config = a'.home.config

/-- What two namespaces keep corresponds. -/
structure Tables (t t' : DocCatalog.Tables) : Prop
    extends DocCatalog.Tables.Twins ρ.twins t t' where
  members : OrderedTable.Twins Eq ρ.twins t.members t'.members

/-- Two entities differ only in references, and there correspond.  Which registries they belong to
is not said, only that these have the same settings. -/
structure Entities (x x' : Entity) : Prop where
  name : x.name = x'.name
  config : x.home.config = x'.home.config
  lineage : List.Forall₂ ρ.Ancestors x.lineage x'.lineage
  profile : x.profile = x'.profile
  tables : Option.Rel ρ.Tables x.tables? x'.tables?

variable {ρ}

theorem Tables.empty : ρ.Tables {} {} := ⟨.empty, .empty⟩

theorem lineagePath_eq {l l' : List Ancestor} (h : List.Forall₂ ρ.Ancestors l l') :
    lineagePath l = lineagePath l' := by
  induction h with
  | nil => rfl
  | cons ha _ ih =>
      rw [lineagePath, lineagePath, ih, ha.isRoot, ha.name, Registry.separators, ha.config]
      rfl

namespace Entities

theorem default : ρ.Entities (Inhabited.default : Entity) Inhabited.default :=
  ⟨rfl, rfl, .nil, rfl, .none⟩

variable {x x' : Entity}

theorem kind_eq (h : ρ.Entities x x') : x.kind = x'.kind := congrArg Profile.kind h.profile

theorem files_eq (h : ρ.Entities x x') : x.files = x'.files := congrArg Profile.files h.profile

theorem method?_eq (h : ρ.Entities x x') : x.method? = x'.method? :=
  congrArg Profile.method? h.profile

theorem isSpace_eq (h : ρ.Entities x x') : x.isSpace = x'.isSpace := by
  rw [Entity.isSpace_eq_kind, Entity.isSpace_eq_kind, h.kind_eq]

theorem scope?_eq (h : ρ.Entities x x') : x.scope? = x'.scope? := by
  rw [Entity.scope?, Entity.scope?, h.method?_eq]

theorem memberKey_eq (h : ρ.Entities x x') : x.memberKey = x'.memberKey := by
  rw [Entity.memberKey, Entity.memberKey, h.name, h.scope?_eq]

theorem path_eq (h : ρ.Entities x x') : x.path = x'.path := by
  rw [Entity.path_eq_kind_scope, Entity.path_eq_kind_scope, h.scope?_eq, h.kind_eq, h.name,
    Registry.separators, Registry.separators, h.config, Entity.ownerPath, Entity.ownerPath,
    lineagePath_eq h.lineage]

theorem owner? (h : ρ.Entities x x') : Option.Rel ρ.twins x.owner? x'.owner? :=
  rel_map (rel_head? h.lineage) fun _ _ ha => ha.id

theorem asAncestor (h : ρ.Entities x x') {e e' : EntityId} (he : ρ.twins e e') :
    ρ.Ancestors (x.asAncestor e) (x'.asAncestor e') where
  id := he
  name := h.name
  isRoot := by rw [Entity.asAncestor, Entity.asAncestor, h.kind_eq]
  config := h.config

/-! ### The same change to both -/

theorem updateTables (h : ρ.Entities x x') {f f' : DocCatalog.Tables → DocCatalog.Tables}
    (hf : ∀ t t', ρ.Tables t t' → ρ.Tables (f t) (f' t')) :
    ρ.Entities (x.updateTables f) (x'.updateTables f') where
  name := by simpa using h.name
  config := by simpa using h.config
  lineage := by simpa using h.lineage
  profile := by
    rw [Entity.profile_eq_of_bare (x.bare_updateTables f), h.profile,
      Entity.profile_eq_of_bare (x'.bare_updateTables f')]
  tables := by
    rw [Entity.tables?_updateTables, Entity.tables?_updateTables]
    exact rel_map h.tables hf

theorem updateMethod (h : ρ.Entities x x') (f : MethodFields → MethodFields) :
    ρ.Entities (x.updateMethod f) (x'.updateMethod f) where
  name := by simpa using h.name
  config := by simpa using h.config
  lineage := by simpa using h.lineage
  profile := by
    rw [Entity.profile_updateMethod, Entity.profile_updateMethod, h.profile, h.method?_eq]
  tables := by simpa using h.tables

theorem setDocstring (h : ρ.Entities x x') (v : Value) :
    ρ.Entities { x with docstring := v } { x' with docstring := v } :=
  ⟨h.name, h.config, h.lineage, congrArg (fun p : Profile => { p with docstring := v }) h.profile,
    h.tables⟩

theorem addFile (h : ρ.Entities x x') (file line : Value) :
    ρ.Entities (x.addFile file line) (x'.addFile file line) := by
  unfold Entity.addFile
  rw [h.files_eq]
  split
  · exact h
  · exact ⟨h.name, h.config, h.lineage,
      congrArg (fun p : Profile => { p with files := x'.files ++ [(file, line)] }) h.profile,
      h.tables⟩

end Entities

/-! ### The same change to what two namespaces keep -/

namespace Tables

variable {t t' : DocCatalog.Tables}

theorem member? (h : ρ.Tables t t') (name : String) :
    Option.Rel ρ.twins (t.member? name) (t'.member? name) :=
  rel_or (h.members.get? biUnique_eq rfl)
    (rel_or (h.members.get? biUnique_eq rfl) (h.members.get? biUnique_eq rfl))

theorem insertMember (h : ρ.Tables t t') {e e' : EntityId} (he : ρ.twins e e')
    (key : String × Option Scope) : ρ.Tables { t with members := t.members.insert key e }
      { t' with members := t'.members.insert key e' } :=
  ⟨⟨h.attributes, h.aliases⟩, h.members.insert biUnique_eq rfl he⟩

theorem eraseMember (h : ρ.Tables t t') (key : String × Option Scope) :
    ρ.Tables { t with members := t.members.erase key }
      { t' with members := t'.members.erase key } :=
  ⟨⟨h.attributes, h.aliases⟩, h.members.erase biUnique_eq rfl⟩

theorem setAttributes (h : ρ.Tables t t') (s : Scope) {a a' : Option AttributeTable}
    (ha : Option.Rel (AttributeTable.Twins ρ.twins) a a') :
    ρ.Tables (t.setAttributes s a) (t'.setAttributes s a') :=
  ⟨h.toTwins.setAttributes s ha, by simpa using h.members⟩

theorem insertAlias (h : ρ.Tables t t') {e? e?' : Option EntityId}
    (he : Option.Rel ρ.twins e? e?') (name : String) :
    ρ.Tables { t with aliases := t.aliases.insert e? name }
      { t' with aliases := t'.aliases.insert e?' name } :=
  ⟨h.toTwins.insertAlias ρ.biUnique he name, h.members⟩

end Tables

end Pairing

/-! ### Catalogs that correspond -/

namespace Pairing

variable {ρ : Pairing}

/-- Two registries hold the same up to the correspondence of their entities, which goes on with
what is made on both sides at once. -/
structure Mirrors (ρ : Pairing) (c c' : Catalog) : Prop where
  lt : ρ.left.index < c.stock.size
  lt' : ρ.right.index < c'.stock.size
  knows : ∀ {e e'}, ρ.twins e e' → (c.Knows e ↔ c'.Knows e')
  next : ∀ i, ρ.twins ⟨c.entities.size + i⟩ ⟨c'.entities.size + i⟩
  entity : ∀ {e e'}, ρ.twins e e' → ρ.Entities (c.entity e) (c'.entity e')
  home : ∀ {e e'}, ρ.twins e e' → c.Knows e →
    (c.entity e).home = ρ.left ∧ (c'.entity e').home = ρ.right
  entries : OrderedTable.Twins Eq ρ.twins (c.entries ρ.left) (c'.entries ρ.right)
  root : ρ.twins (c.root ρ.left) (c'.root ρ.right)
  knows_root : c.Knows (c.root ρ.left)

namespace Mirrors

variable {c c' : Catalog} {e e' n n' : EntityId}

theorem path_eq (h : ρ.Mirrors c c') (he : ρ.twins e e') : c.path e = c'.path e' :=
  (h.entity he).path_eq

theorem tables (h : ρ.Mirrors c c') (hn : ρ.twins n n') :
    ρ.Tables (c.tables n) (c'.tables n') :=
  rel_getD (h.entity hn).tables .empty

/-- What is held at a path on the one side has its twin there on the other. -/
theorem lookup? (h : ρ.Mirrors c c') (path : String) :
    Option.Rel ρ.twins (c.lookup? ρ.left path) (c'.lookup? ρ.right path) := by
  unfold Catalog.lookup?
  split
  · exact .some h.root
  · exact h.entries.get? biUnique_eq rfl

/-- What comes next on the one side comes next on the other. -/
theorem next_iff (h : ρ.Mirrors c c') (he : ρ.twins e e') :
    e.index = c.entities.size ↔ e'.index = c'.entities.size := by
  have hiff := Relator.rel_eq ρ.biUnique he (h.next 0)
  obtain ⟨i⟩ := e
  obtain ⟨i'⟩ := e'
  simpa using hiff

/-! ### The same write on both sides -/

/-- The same change to what corresponds. -/
theorem update (h : ρ.Mirrors c c') (he : ρ.twins e e') {f f' : Entity → Entity}
    (hf : ∀ x x', ρ.Entities x x' → ρ.Entities (f x) (f' x'))
    (hhome : ∀ x, (f x).home = x.home) (hhome' : ∀ x, (f' x).home = x.home) :
    ρ.Mirrors (c.update e f) (c'.update e' f') where
  lt := h.lt
  lt' := h.lt'
  knows ht := by simpa [Catalog.Knows] using h.knows ht
  next i := by simpa using h.next i
  entity {d d'} ht := by
    by_cases hk : c.Knows e
    · have hiff : e = d ↔ e' = d' := Relator.rel_eq ρ.biUnique he ht
      rw [Catalog.entity_update c e d f hk, Catalog.entity_update c' e' d' f' ((h.knows he).1 hk)]
      by_cases hd : e = d
      · rw [if_pos hd, if_pos (hiff.1 hd)]
        exact hf _ _ (h.entity he)
      · rw [if_neg hd, if_neg fun hd' => hd (hiff.2 hd')]
        exact h.entity ht
    · rw [Catalog.update_of_not_knows hk,
        Catalog.update_of_not_knows fun hk' => hk ((h.knows he).2 hk')]
      exact h.entity ht
  home {d d'} ht hk := by
    rw [Catalog.entity_update_congr Entity.home c e d f hhome,
      Catalog.entity_update_congr Entity.home c' e' d' f' hhome']
    exact h.home ht (by simpa [Catalog.Knows] using hk)
  entries := h.entries
  root := h.root
  knows_root := Nat.lt_of_lt_of_eq h.knows_root (c.size_update e f).symm

theorem updateTables (h : ρ.Mirrors c c') (hn : ρ.twins n n')
    {f f' : DocCatalog.Tables → DocCatalog.Tables}
    (hf : ∀ t t', ρ.Tables t t' → ρ.Tables (f t) (f' t')) :
    ρ.Mirrors (c.updateTables n f) (c'.updateTables n' f') :=
  h.update hn (fun _ _ hx => hx.updateTables hf) (fun x => x.home_updateTables f)
    fun x => x.home_updateTables f'

/-- A record on each side, whatever it says. -/
theorem note (h : ρ.Mirrors c c') (r r' : Registry) (event event' : Event) :
    ρ.Mirrors (c.note r event) (c'.note r' event') :=
  ⟨h.lt, h.lt', h.knows, h.next, h.entity, h.home, h.entries, h.root, h.knows_root⟩

/-- The same change to what the registries hold. -/
theorem updateEntries (h : ρ.Mirrors c c')
    {f f' : OrderedTable String EntityId → OrderedTable String EntityId}
    (hf : OrderedTable.Twins Eq ρ.twins (f (c.entries ρ.left)) (f' (c'.entries ρ.right))) :
    ρ.Mirrors (c.updateEntries ρ.left f) (c'.updateEntries ρ.right f') where
  lt := by simpa using h.lt
  lt' := by simpa using h.lt'
  knows := h.knows
  next := h.next
  entity := h.entity
  home := h.home
  entries := by
    rw [Catalog.entries_updateEntries c _ _ h.lt, if_pos rfl,
      Catalog.entries_updateEntries c' _ _ h.lt', if_pos rfl]
    exact hf
  root := by
    rw [Catalog.root_updateEntries, Catalog.root_updateEntries]
    exact h.root
  knows_root := by
    rw [Catalog.root_updateEntries]
    exact h.knows_root

theorem put (h : ρ.Mirrors c c') (he : ρ.twins e e') :
    ρ.Mirrors (c.put ρ.left e) (c'.put ρ.right e') :=
  h.updateEntries (h.entries.insert biUnique_eq (h.path_eq he) he)

theorem take (h : ρ.Mirrors c c') (path : String) :
    ρ.Mirrors (c.updateEntries ρ.left fun t => t.erase path)
      (c'.updateEntries ρ.right fun t => t.erase path) :=
  h.updateEntries (h.entries.erase biUnique_eq rfl)

theorem adoptByOwner (h : ρ.Mirrors c c') (he : ρ.twins e e') :
    ρ.Mirrors (c.adoptByOwner e) (c'.adoptByOwner e') := by
  have ho := (h.entity he).owner?
  unfold Catalog.adoptByOwner
  rcases hn : (c.entity e).owner? with _ | n <;> rcases hn' : (c'.entity e').owner? with _ | n' <;>
    rw [hn, hn'] at ho <;> cases ho
  · exact h
  · next hown =>
      refine h.updateTables hown fun t t' ht => ?_
      rw [(h.entity he).memberKey_eq]
      exact ht.insertMember he _

/-- What corresponds is put at its path and listed by its owner on both sides. -/
theorem enter (h : ρ.Mirrors c c') (he : ρ.twins e e') :
    ρ.Mirrors (c.enter ρ.left e) (c'.enter ρ.right e') :=
  ((h.put he).adoptByOwner he).note _ _ _ _

/-- What is made on both sides at once corresponds. -/
theorem add (h : ρ.Mirrors c c') {x x' : Entity} (hx : ρ.Entities x x') (hhome : x.home = ρ.left)
    (hhome' : x'.home = ρ.right) : ρ.Mirrors (c.add x).2 (c'.add x').2 where
  lt := h.lt
  lt' := h.lt'
  knows {d d'} ht := by
    have hnew := h.next_iff ht
    have hold := h.knows ht
    simp only [Catalog.Knows, Catalog.add, Array.size_push] at hold ⊢
    omega
  next i := by
    have hnext := h.next (i + 1)
    simp only [Catalog.add, Array.size_push]
    rwa [show c.entities.size + 1 + i = c.entities.size + (i + 1) by omega,
      show c'.entities.size + 1 + i = c'.entities.size + (i + 1) by omega]
  entity {d d'} ht := by
    have hnew := h.next_iff ht
    rw [Catalog.entity_add, Catalog.entity_add]
    by_cases hd : d.index = c.entities.size
    · rw [if_pos hd, if_pos (hnew.1 hd)]
      exact hx
    · rw [if_neg hd, if_neg fun hd' => hd (hnew.2 hd')]
      exact h.entity ht
  home {d d'} ht hk := by
    have hnew := h.next_iff ht
    rw [Catalog.entity_add, Catalog.entity_add]
    by_cases hd : d.index = c.entities.size
    · rw [if_pos hd, if_pos (hnew.1 hd)]
      exact ⟨hhome, hhome'⟩
    · rw [if_neg hd, if_neg fun hd' => hd (hnew.2 hd')]
      refine h.home ht ?_
      simp only [Catalog.Knows, Catalog.add, Array.size_push] at hk ⊢
      omega
  entries := h.entries
  root := h.root
  knows_root := by
    have hk := h.knows_root
    simp only [Catalog.Knows, Catalog.add, Array.size_push] at hk ⊢
    exact Nat.lt_succ_of_lt hk

end Mirrors

end Pairing

end DocCatalog
