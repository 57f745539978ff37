/-
**Which layer has the last word on a key.**

Settings come from up to five layers, and whatever they give is written into one table, the most
particular layer last.  So the value that stands at a key in the end is that of the most particular
layer that gives one, and what the layers below it give is never looked at.

Main definitions:

* `Config.Layer`: what a layer gives for each key;
* `Config.FileState.fields`, `Config.environmentLayer`, `Config.overrideLayer`: the layers;
* `Config.Sources.given?`: the value of the most particular layer that gives one;
* `Config.Sources.winning`, `Config.Sources.Unknown`: the values that win, and the keys that are no
  setting's;
* `Config.Reads`: a table in which layers were written one over the other.

Main results:

* `Config.layer_environmentFields`, `Config.layer_overrideFields`: the fields of the environment and
  of the overrides as layers;
* `Config.Reads.writeFields`: one layer more;
* `Config.Sources.reads_merge`: **all layers**.
-/

import DocCatalog.Config.Layers
import DocCatalog.Proofs.Config.Admission
import Mathlib.Data.List.Induction
import Mathlib.Data.List.Nodup

set_option autoImplicit false

namespace DocCatalog.Config

/-! ### Layers -/

/-- What a layer gives for each key. -/
abbrev Layer := String → Option Value

/-- A layer of fields: of two with one key the later counts. -/
def layer (fields : List (String × Value)) : Layer := (OrderedTable.ofList fields).get?

/-- The fields that a file gives: those of the table under its own key if it has one, and then none
beside it, and all its fields otherwise. -/
def FileState.fields : FileState → List (String × Value)
  | .table fields =>
      match Value.field? fields "docobjects" with
      | some (.dict inner) => inner
      | _ => fields
  | _ => []

/-- A file that is missing, or a table in which what is under the key of its own is a table too. -/
def FileState.IsTable : FileState → Prop
  | .missing => True
  | .table fields => ∀ v, Value.field? fields "docobjects" = some v → ∃ inner, v = .dict inner
  | _ => False

/-- The layer of the environment: for each setting the text of its variable, empty or not. -/
def environmentLayer (environment : List (String × String)) : Layer := fun k => do
  let t ← Setting.ofKey? k
  let (_, text) ← environment.find? fun p => p.1 = t.environmentName
  return .text text

/-- Whether a switch is on in some overrides. -/
def isOn (overrides : List (String × Value)) (switch : String) : Bool :=
  (layer overrides switch).any Value.isTruthy

/-- The layer of the overrides: the switches give nothing of their own, and one that is on gives the
verbosity, that for quiet before that for verbose and both before the verbosity itself. -/
def overrideLayer (overrides : List (String × Value)) : Layer := fun k =>
  if k = "verbose" ∨ k = "quiet" then none
  else if k = Setting.verbosity.key ∧ isOn overrides "quiet" then
    some (.text Verbosity.quiet.word)
  else if k = Setting.verbosity.key ∧ isOn overrides "verbose" then
    some (.text Verbosity.verbose.word)
  else layer overrides k

namespace Sources

/-- All layers, the most particular first. -/
def layers (s : Sources) : List Layer :=
  [overrideLayer s.overrides, environmentLayer s.environment,
    layer ((s.explicit?.map Prod.snd).getD .missing).fields, layer s.project.fields,
    layer s.global.fields]

/-- The value of the most particular layer that gives one for a key. -/
def given? (s : Sources) (k : String) : Option Value := s.layers.findSome? fun l => l k

/-- The values that win: those given, and the defaults where none is. -/
def winning (s : Sources) : Draft := fun t => (s.given? t.key).getD t.default

/-- A key that some layer gives a value for, and that is no setting's. -/
def Unknown (s : Sources) (k : String) : Prop :=
  Setting.ofKey? k = none ∧ ∃ l ∈ s.layers, (l k).isSome

/-- All files that are there are tables, and the explicit one is there. -/
structure Tabled (s : Sources) : Prop where
  global : s.global.IsTable
  project : s.project.IsTable
  explicit : ∀ name state, s.explicit? = some (name, state) → state ≠ .missing ∧ state.IsTable

end Sources

/-! ### The environment and the overrides as layers -/

/-- Every setting can be given by a variable, which is taken as it is. -/
theorem read?_typeHint (t : Setting) (text : String) : t.typeHint.read? text = some text := by
  cases t <;> rfl

theorem layer_eq_some_iff {fields : List (String × Value)} (h : (fields.map Prod.fst).Nodup)
    {k : String} {v : Value} : layer fields k = some v ↔ (k, v) ∈ fields := by
  rw [layer, OrderedTable.get?_eq_some_iff, OrderedTable.toList_ofList h]

theorem mem_environmentFields {environment : List (String × String)} {k : String} {v : Value} :
    (k, v) ∈ environmentFields environment ↔ environmentLayer environment k = some v := by
  simp only [environmentFields, environmentLayer, read?_typeHint, List.mem_filterMap,
    Setting.mem_all, true_and, Option.bind_eq_bind, Option.bind_eq_some_iff,
    Setting.ofKey?_eq_some_iff, Option.some.injEq, pure, Prod.mk.injEq]
  constructor
  · rintro ⟨t, p, hp, text, rfl, rfl, rfl⟩
    exact ⟨t, rfl, p, hp, rfl⟩
  · rintro ⟨t, rfl, p, hp, rfl⟩
    exact ⟨t, p, hp, p.2, rfl, rfl, rfl⟩

theorem nodup_environmentFields (environment : List (String × String)) :
    ((environmentFields environment).map Prod.fst).Nodup := by
  rw [environmentFields, List.map_filterMap]
  refine List.Nodup.filterMap (fun t t' k hk hk' => ?_) (by decide : Setting.all.Nodup)
  simp only [read?_typeHint, Option.bind_eq_bind, Option.mem_def, Option.map_eq_some_iff,
    Option.bind_eq_some_iff, Option.some.injEq, pure] at hk hk'
  obtain ⟨_, ⟨_, _, _, _, rfl⟩, rfl⟩ := hk
  obtain ⟨_, ⟨_, _, _, _, rfl⟩, hkey⟩ := hk'
  exact Setting.key_injective hkey.symm

theorem layer_environmentFields (environment : List (String × String)) :
    layer (environmentFields environment) = environmentLayer environment := by
  funext k
  exact Option.ext fun v =>
    (layer_eq_some_iff (nodup_environmentFields environment)).trans mem_environmentFields

theorem get?_resolveSwitch (switch : String) (verbosity : Verbosity)
    (t : OrderedTable String Value) (k : String) :
    (resolveSwitch switch verbosity t).get? k =
      if k = switch then none
      else if k = Setting.verbosity.key ∧ (t.get? switch).any Value.isTruthy then
        some (.text verbosity.word)
      else t.get? k := by
  unfold resolveSwitch
  cases hswitch : t.get? switch with
  | none =>
      by_cases hk : k = switch
      · simp [hk, hswitch]
      · simp [hk]
  | some v =>
      cases hv : v.isTruthy <;>
        simp [OrderedTable.get?_erase, OrderedTable.get?_insert, hv, eq_comm]

theorem layer_overrideFields (overrides : List (String × Value)) :
    layer (overrideFields overrides) = overrideLayer overrides := by
  funext k
  have hquiet : (resolveSwitch "verbose" .verbose (OrderedTable.ofList overrides)).get? "quiet" =
      layer overrides "quiet" := by
    rw [get?_resolveSwitch, if_neg (by decide), if_neg fun h => absurd h.1 (by decide)]
    rfl
  rw [layer, overrideFields, OrderedTable.get?_ofList_toList, get?_resolveSwitch, hquiet,
    get?_resolveSwitch, overrideLayer]
  by_cases hverbose : k = "verbose"
  · subst hverbose
    simp [show "verbose" ≠ Setting.verbosity.key by decide]
  · by_cases hk : k = "quiet"
    · simp [hk]
    · simp only [hverbose, hk, or_self, if_false]
      rfl

/-! ### Layers written one over the other -/

/-- A table in which layers were written, the first of them last.  Its keys are texts in their only
spelling. -/
structure Reads (t : ValueTable Value) (layers : List Layer) : Prop where
  texts : ∀ c key v, t.get? c = some (key, v) → ∃ k, c = .text k ∧ key = .text k
  found : ∀ k, t.find? (.text k) = layers.findSome? fun l => l k

namespace Reads

variable {t : ValueTable Value} {layers : List Layer}

theorem empty : Reads ∅ [] where
  texts _ _ _ h := nomatch h
  found _ := rfl

/-- One field more. -/
theorem put {l : Layer} (h : Reads t (l :: layers)) (k : String) (v : Value) :
    Reads (t.put (.text k) v) ((fun k' => if k = k' then some v else l k') :: layers) where
  texts c key v' hc := by
    rcases ValueTable.spelling_of_put hc with ⟨rfl, hk⟩ | ⟨v'', hold⟩
    · exact ⟨k, hk.symm.trans (Value.canonical_text k), rfl⟩
    · exact h.texts c key v'' hold
  found k' := by
    have hagrees : (Value.text k).agrees (.text k') = decide (k = k') := by
      simp [Value.agrees]
    rw [ValueTable.find?_put, hagrees, h.found]
    by_cases hk : k = k' <;> simp [List.findSome?_cons, hk]

/-- **One layer more.** -/
theorem writeFields (h : Reads t layers) (fields : List (String × Value)) :
    Reads (writeFields fields t) (layer fields :: layers) := by
  induction fields using List.reverseRecOn with
  | nil => exact ⟨h.texts, h.found⟩
  | append_singleton fields p ih =>
      have hput := ih.put p.1 p.2
      have hlayer : layer (fields ++ [p]) =
          fun k => if p.1 = k then some p.2 else layer fields k := by
        funext k
        rw [layer, layer, OrderedTable.ofList, OrderedTable.insertMany, List.foldl_append]
        exact OrderedTable.get?_insert _ p.1 k p.2
      rw [hlayer, Config.writeFields, Merge.writeAll, List.map_append, List.foldl_append]
      exact hput

/-- A file is written as the layer of its fields. -/
theorem writeFile {state : FileState} (hs : state.IsTable) (h : Reads t layers) (role : FileRole)
    (name : String) : ∃ t', writeFile role name state t = .ok t' ∧
      Reads t' (layer state.fields :: layers) := by
  cases state with
  | missing => exact ⟨t, rfl, h.writeFields []⟩
  | table fields =>
      refine ⟨_, ?_, h.writeFields _⟩
      have hlayer : layerOf fields = .dict (FileState.table fields).fields := by
        cases hv : Value.field? fields "docobjects" with
        | none => simp [layerOf, FileState.fields, hv]
        | some v =>
            obtain ⟨inner, rfl⟩ := hs v hv
            simp [layerOf, FileState.fields, hv]
      rw [Config.writeFile, hlayer]
      rfl
  | _ => exact hs.elim

end Reads

/-- **All layers.** -/
theorem Sources.reads_merge {s : Sources} (h : s.Tabled) :
    ∃ merged, s.merge = .ok merged ∧ Reads merged s.layers := by
  obtain ⟨t₁, ht₁, hr₁⟩ := Reads.empty.writeFile h.global .global s.globalName
  obtain ⟨t₂, ht₂, hr₂⟩ := hr₁.writeFile h.project .project s.projectName
  have hexplicit : ∃ t₃, writeExplicit s.explicit? t₂ = .ok t₃ ∧
      Reads t₃ (layer ((s.explicit?.map Prod.snd).getD .missing).fields ::
        [layer s.project.fields, layer s.global.fields]) := by
    cases he : s.explicit? with
    | none => exact ⟨t₂, rfl, hr₂.writeFields []⟩
    | some file =>
        obtain ⟨name, state⟩ := file
        obtain ⟨hthere, htable⟩ := h.explicit name state he
        cases state with
        | missing => exact absurd rfl hthere
        | _ => exact hr₂.writeFile htable .explicit name
  obtain ⟨t₃, ht₃, hr₃⟩ := hexplicit
  have hr₅ := (hr₃.writeFields (environmentFields s.environment)).writeFields
    (overrideFields s.overrides)
  rw [layer_environmentFields, layer_overrideFields] at hr₅
  refine ⟨_, ?_, hr₅⟩
  rw [merge, ht₁]
  show (Config.writeFile .project s.projectName s.project t₁ >>= _) = _
  rw [ht₂]
  show (writeExplicit s.explicit? t₂ >>= _) = _
  rw [ht₃]
  rfl

end DocCatalog.Config
