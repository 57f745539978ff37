/-
**What a manifest writes down.**

Attributes and aliases are the only entries that write something down in a namespace.  The sections
before them are quiet, so what is written down after a manifest is told by those two sections alone;
and as the two write to tables of their own, it does not matter how their entries are interleaved.

Main definitions:

* `Notes.enter`: the notes after an entry;
* `Manifest.aliasMethod`, `Manifest.aliasName`: the method of an alias and what it is an alias of.

Main results:

* `Manifest.loadEntry_notes`: **what an accepted entry writes down**;
* `Manifest.load_notes`: **so for an accepted manifest**;
* `Notes.foldl_enter_congr`: the order of the entries matters in each section only.
-/

import DocCatalog.Proofs.Manifest.Acceptance
import DocCatalog.Proofs.Registry.Notes

set_option autoImplicit false

namespace DocCatalog

open Catalog

namespace Manifest

/-- The path of the method that an entry of an alias is about. -/
def aliasMethod (entry : Fields) : String := (textAt? entry "method").getD ""

/-- What the method of an entry of an alias is an alias of. -/
def aliasName (entry : Fields) : String := (textAt? entry "aliases").getD ""

end Manifest

open Manifest

namespace Notes

/-- The notes after an entry. -/
def enter (w : Notes) : Part → Fields → Notes
  | .attributes, entry => match scopeOf? entry with
      | some s => w.addAttribute (spaceOf .attributes entry) s (nameOf entry)
      | none => w
  | .aliases, entry => w.addAlias (spaceOf .aliases entry) (aliasMethod entry) (aliasName entry)
  | _, _ => w

/-- Attributes and aliases are written to tables of their own. -/
theorem enter_comm (w : Notes) (attr other : Fields) :
    (w.enter .attributes attr).enter .aliases other =
      (w.enter .aliases other).enter .attributes attr := by
  cases hs : scopeOf? attr <;> simp [enter, hs, addAttribute, addAlias]

/-- The notes after some entries are those after the attributes and then the aliases among them. -/
theorem foldl_enter (l : List (Part × Fields)) : ∀ w : Notes,
    l.foldl (fun w row => w.enter row.1 row.2) w =
      (sectionOf .aliases l).foldl (fun w entry => w.enter .aliases entry)
        ((sectionOf .attributes l).foldl (fun w entry => w.enter .attributes entry) w) := by
  -- an alias may be written down before some attributes instead of after them
  have hswap : ∀ (attrs : List Fields) (other : Fields) (w : Notes),
      attrs.foldl (fun w entry => w.enter .attributes entry) (w.enter .aliases other) =
        (attrs.foldl (fun w entry => w.enter .attributes entry) w).enter .aliases other := by
    intro attrs other
    induction attrs with
    | nil => exact fun _ => rfl
    | cons attr rest ih =>
        intro w
        rw [List.foldl_cons, List.foldl_cons, ← enter_comm, ih]
  induction l with
  | nil => exact fun _ => rfl
  | cons row l ih =>
      obtain ⟨part, entry⟩ := row
      intro w
      rw [List.foldl_cons, ih]
      cases part with
      | aliases => simp [sectionOf, hswap]
      | _ => simp [sectionOf, enter]

/-- The order of the entries matters in each section only. -/
theorem foldl_enter_congr {l l' : List (Part × Fields)} (w : Notes)
    (hattributes : sectionOf .attributes l = sectionOf .attributes l')
    (haliases : sectionOf .aliases l = sectionOf .aliases l') :
    l.foldl (fun w row => w.enter row.1 row.2) w = l'.foldl (fun w row => w.enter row.1 row.2) w := by
  rw [foldl_enter, foldl_enter, hattributes, haliases]

end Notes

namespace Manifest

variable {c c' : Catalog} {r : Registry} {n : EntityId} {entry : Fields} {part : Part}
  {data : Value} {p : String} {l : List (Part × Fields)}

/-! ### Attributes and aliases -/

theorem addAttribute_ledger {scope name : Value} {read write : Option EntityId} {a : Accessors}
    (hn : (c.entity n).isSpace = true) (h : addAttribute n scope name read write c = (.ok a, c')) :
    Retouches n c c' ∧ ∃ s, Scope.ofValue? scope = some s ∧ ∀ m, c'.ledger m = if n = m
      then (c.ledger n).setAttributes s
        (some ((((c.ledger n).attributes? s).getD ∅).extend name read write))
      else c.ledger m := by
  refine ⟨(addAttribute_eq_ok h).1, ?_⟩
  unfold addAttribute at h
  cases hs : Scope.ofValue? scope with
  | none => simp only [hs] at h; cases h
  | some s =>
      refine ⟨s, rfl, fun m => ?_⟩
      simp only [hs] at h
      obtain ⟨_, c₁, hfirst, h₁⟩ := Action.bind_eq_ok (Action.get_eq_ok h)
      cases hfirst
      cases hname : name.unhashableKind? with
      | some kind => simp only [hname] at h₁; cases h₁
      | none =>
          simp only [hname] at h₁
          cases h₁
          -- the table is put back as it was before the attribute is written into it
          have hfirst := retouches_updateTables c n
            (f := fun t => t.setAttributes s (some (((c.tables n).attributes? s).getD ∅)))
            fun t => t.members_setAttributes s _
          have hn₁ := (Entity.isSpace_eq_of_settled (hfirst.settled n)).trans hn
          rw [ledger_updateTables _ _ _ hn₁, ledger_updateTables _ _ _ hn,
            tables_updateTables _ _ _ _ hn, if_pos rfl]
          split
          · cases s <;> rfl
          · rfl

/-- What is done for an entry of an attribute that is accepted. -/
theorem loadAttribute_eq_ok (hok : loadAttribute r entry c = (.ok (), c')) :
    ∃ n c₁ read write a, ensureNamespace r (spaceOf .attributes entry) c = (.ok n, c₁) ∧
      methodAt? c₁ r (textAt? entry "read") .attributes = .ok read ∧
      methodAt? c₁ r (textAt? entry "write") .attributes = .ok write ∧
      addAttribute n (scopeField entry) (.text (nameOf entry)) read write c₁ = (.ok a, c') := by
  unfold loadAttribute at hok
  obtain ⟨path, c₁, hread, h₁⟩ := Action.bind_eq_ok hok
  obtain ⟨htext, rfl⟩ := Action.lift_eq_ok hread
  obtain ⟨n, c₂, hreach, h₂⟩ := Action.bind_eq_ok h₁
  obtain ⟨name, c₃, hreadName, h₃⟩ := Action.bind_eq_ok h₂
  obtain ⟨hname, rfl⟩ := Action.lift_eq_ok hreadName
  obtain ⟨readPath?, c₄, hreadPath, h₄⟩ := Action.bind_eq_ok (Action.get_eq_ok h₃)
  obtain ⟨hreader, rfl⟩ := Action.lift_eq_ok hreadPath
  obtain ⟨read, c₅, hmethod, h₅⟩ := Action.bind_eq_ok h₄
  obtain ⟨hread, rfl⟩ := Action.lift_eq_ok hmethod
  obtain ⟨writePath?, c₆, hwritePath, h₆⟩ := Action.bind_eq_ok (Action.get_eq_ok h₅)
  obtain ⟨hwriter, rfl⟩ := Action.lift_eq_ok hwritePath
  obtain ⟨write, c₇, hmethod', h₇⟩ := Action.bind_eq_ok h₆
  obtain ⟨hwrite, rfl⟩ := Action.lift_eq_ok hmethod'
  obtain ⟨a, c₈, hadd, hend⟩ := Action.bind_eq_ok h₇
  cases hend
  rw [spaceOf_of_textOr (by simp) htext, nameOf_of_text hname, textAt?_of_textOrNull hreader,
    textAt?_of_textOrNull hwriter]
  exact ⟨n, _, read, write, a, hreach, hread, hwrite, hadd⟩

/-- What is done for an entry of an alias that is accepted. -/
theorem loadAlias_eq_ok (hok : loadAlias r entry c = (.ok (), c')) :
    ∃ n c₁ m, ensureNamespace r (spaceOf .aliases entry) c = (.ok n, c₁) ∧
      methodAt c₁ r (aliasMethod entry) .aliases = .ok m ∧
      c' = c₁.addAlias n (some m) (.text (aliasName entry)) := by
  unfold loadAlias at hok
  obtain ⟨path, c₁, hread, h₁⟩ := Action.bind_eq_ok hok
  obtain ⟨htext, rfl⟩ := Action.lift_eq_ok hread
  obtain ⟨n, c₂, hreach, h₂⟩ := Action.bind_eq_ok h₁
  obtain ⟨target, c₃, hreadTarget, h₃⟩ := Action.bind_eq_ok (Action.get_eq_ok h₂)
  obtain ⟨htarget, rfl⟩ := Action.lift_eq_ok hreadTarget
  obtain ⟨m, c₄, hfind, h₄⟩ := Action.bind_eq_ok h₃
  obtain ⟨hmethod, rfl⟩ := Action.lift_eq_ok hfind
  obtain ⟨name, c₅, hreadName, hadd⟩ := Action.bind_eq_ok h₄
  obtain ⟨hname, rfl⟩ := Action.lift_eq_ok hreadName
  cases hadd
  rw [spaceOf_of_textOr (by simp) htext, aliasMethod, aliasName, textAt?_of_text htarget,
    textAt?_of_text hname]
  exact ⟨n, _, m, hreach, hmethod, rfl⟩

/-- The namespaces on the way of an entry write nothing down. -/
theorem reach_notes (h : Lockstep r c) (hclean : Clean r part entry) (ha : AliasesHeld r c)
    (hok : ensureNamespace r (spaceOf part entry) c = (.ok n, c')) :
    Lockstep r c' ∧ Stands r c' n (spaceOf part entry) ∧ c'.notes r = c.notes r ∧
      AliasesHeld r c' := by
  obtain ⟨h', hn, -, hkeep⟩ := reach_ok h hclean rfl hok
  have hq : Quiet c c' := (quiet_ensureNamespace r _).of_run hok
  exact ⟨h', hn, h.notes_eq_of_quiet h' hq ha,
    ha.quiet h h' hq fun e _ _ hget => hkeep (c.path e) e hget⟩

theorem loadAttribute_notes (h : Lockstep r c) (hclean : Clean r .attributes entry)
    (ha : AliasesHeld r c) (hok : loadAttribute r entry c = (.ok (), c')) :
    c'.notes r = (c.notes r).enter .attributes entry ∧ AliasesHeld r c' := by
  obtain ⟨n, c₁, read, write, a, hreach, -, -, hadd⟩ := loadAttribute_eq_ok hok
  obtain ⟨h₁, hn, hnotes, ha₁⟩ := reach_notes h hclean ha hreach
  obtain ⟨ht, s, hs, hl⟩ := addAttribute_ledger hn.isSpace hadd
  rw [← hnotes, Notes.enter, show scopeOf? entry = some s from hs]
  exact h₁.notes_addAttribute hn ht ha₁ hl

theorem methodAt_eq_ok {m : EntityId} (h : Lockstep r c) (hok : methodAt c r p part = .ok m) :
    c.isRegistered r m = true ∧ (c.entity m).kind = .method ∧ c.path m = p := by
  unfold methodAt at hok
  cases hl : c.lookup? r p with
  | none => simp only [hl] at hok; cases hok
  | some e =>
      simp only [hl] at hok
      split at hok
      · next hkind =>
          obtain rfl := Except.ok.inj hok
          unfold lookup? at hl
          split at hl
          · rw [← Option.some.inj hl, h.root_kind] at hkind
            cases hkind
          · have hp := h.keysHold.path_eq hl
            exact ⟨by rw [isRegistered, hp, hl, decide_eq_true rfl], hkind, hp⟩
      · cases hok

theorem loadAlias_notes (h : Lockstep r c) (hclean : Clean r .aliases entry)
    (ha : AliasesHeld r c) (hok : loadAlias r entry c = (.ok (), c')) :
    c'.notes r = (c.notes r).enter .aliases entry ∧ AliasesHeld r c' := by
  obtain ⟨n, c₁, m, hreach, hmethod, rfl⟩ := loadAlias_eq_ok hok
  obtain ⟨h₁, hn, hnotes, ha₁⟩ := reach_notes h hclean ha hreach
  obtain ⟨hreg, hkind, hpath⟩ := methodAt_eq_ok h₁ hmethod
  rw [← hnotes, Notes.enter, ← hpath]
  have ht : Retouches n c₁ (c₁.addAlias n (some m) (.text (aliasName entry))) :=
    retouches_updateTables c₁ n fun _ => rfl
  exact h₁.notes_addAlias hn ht ha₁ hreg hkind fun m' => ledger_updateTables n m' _ hn.isSpace

/-! ### Entries -/

/-- **What an accepted entry writes down**, if no method takes the place of an alias. -/
theorem loadEntry_notes (h : Lockstep r c) (hclean : Clean r part entry) (ha : AliasesHeld r c)
    (hfree : part = .methods → ∀ q, methodPath? r entry = some q → ¬ (c.notes r).IsAlias q)
    (hok : loadEntry r part entry c = (.ok (), c')) :
    c'.notes r = (c.notes r).enter part entry ∧ AliasesHeld r c' := by
  have happlied := loadEntry_ok h hclean hok
  -- what is quiet keeps the notes, and all aliases but one whose place is taken
  have hquiet : Quiet c c' → c'.notes r = c.notes r ∧ AliasesHeld r c' := fun hq =>
    ⟨h.notes_eq_of_quiet happlied.lockstep hq ha, ha.quiet h happlied.lockstep hq
      fun e _ hmem hget => happlied.retains _ e hget fun hpart hpath =>
        hfree hpart _ hpath (isAlias_of_mem_keys hmem)⟩
  cases part with
  | namespaces => exact hquiet ((quiet_loadNamespace r entry).of_run hok)
  | methods => exact hquiet ((quiet_loadMethod r entry).of_run hok)
  | attributes => exact loadAttribute_notes h hclean ha hok
  | aliases => exact loadAlias_notes h hclean ha hok

/-- Namespaces and methods write nothing down. -/
theorem describing_notes (h : Lockstep r c) (hclean : ∀ row ∈ describing data, Clean r row.1 row.2)
    (ha : AliasesHeld r c) (hfree : ∀ entry ∈ entriesIn data .methods, ∀ q,
      methodPath? r entry = some q → ¬ (c.notes r).IsAlias q)
    (hok : (describing data).forM (loadRow r) c = (.ok (), c')) :
    c'.notes r = c.notes r ∧ AliasesHeld r c' := by
  have hkept := Action.forM_keeps
    (P := fun c₁ => Lockstep r c₁ ∧ c₁.notes r = c.notes r ∧ AliasesHeld r c₁)
    (fun row hrow {c₁ c₂} hc hrun => by
      obtain ⟨h₁, hnotes, ha₁⟩ := hc
      obtain ⟨hnotes₂, ha₂⟩ := loadEntry_notes h₁ (hclean row hrow) ha₁ (fun hpart q hq => by
        rw [hnotes]
        refine hfree row.2 ?_ q hq
        rw [← sectionOf_describing, mem_sectionOf, ← hpart]
        exact hrow) hrun
      refine ⟨(loadEntry_ok h₁ (hclean row hrow) hrun).lockstep, ?_, ha₂⟩
      rw [hnotes₂, ← hnotes]
      rcases List.mem_append.1 hrow with hrow | hrow <;>
        obtain ⟨entry, -, rfl⟩ := List.mem_map.1 hrow <;> rfl) ⟨h, rfl, ha⟩ hok
  exact hkept.2

/-- Attributes and aliases write down what they say, one after the other. -/
theorem referring_notes (h : Lockstep r c) (hclean : ∀ row ∈ referring data, Clean r row.1 row.2)
    (ha : AliasesHeld r c) (hok : (referring data).forM (loadRow r) c = (.ok (), c')) :
    c'.notes r = (referring data).foldl (fun w row => w.enter row.1 row.2) (c.notes r) ∧
      AliasesHeld r c' := by
  have hkept := Action.forM_fold (g := fun w row => w.enter row.1 row.2)
    (P := fun c₁ w => Lockstep r c₁ ∧ c₁.notes r = w ∧ AliasesHeld r c₁)
    (fun row hrow {c₁ c₂ w} hc hrun => by
      obtain ⟨h₁, rfl, ha₁⟩ := hc
      obtain ⟨hnotes₂, ha₂⟩ := loadEntry_notes h₁ (hclean row hrow) ha₁
        (fun hpart => absurd hpart (ne_methods_of_referring hrow)) hrun
      exact ⟨(loadEntry_ok h₁ (hclean row hrow) hrun).lockstep, hnotes₂, ha₂⟩) ⟨h, rfl, ha⟩ hok
  exact hkept.2

/-- **What an accepted manifest writes down**, if no method takes the place of an alias that was
written down before. -/
theorem load_notes (h : Lockstep r c)
    (hclean : ∀ part, ∀ entry ∈ entriesIn data part, Clean r part entry) (ha : AliasesHeld r c)
    (hfree : ∀ entry ∈ entriesIn data .methods, ∀ q,
      methodPath? r entry = some q → ¬ (c.notes r).IsAlias q)
    (hok : load r data c = (.ok (), c')) :
    c'.notes r = (referring data).foldl (fun w row => w.enter row.1 row.2) (c.notes r) ∧
      AliasesHeld r c' := by
  obtain ⟨-, c₂, hrun, rfl⟩ := load_eq_ok_iff.1 hok
  have hrows : ∀ row ∈ describing data ++ referring data, Clean r row.1 row.2 := fun row hrow =>
    hclean row.1 row.2 (mem_rows.1 (by rwa [rows_eq_append]))
  have happend : (rows data).forM (loadRow r) =
      ((describing data).forM (loadRow r) >>= fun _ => (referring data).forM (loadRow r)) := by
    rw [rows_eq_append]
    exact List.forM_append
  rw [happend] at hrun
  obtain ⟨_, c₁, hfront, hback⟩ := Action.bind_eq_ok hrun
  have hcleanFront := fun row hrow => hrows row (List.mem_append_left _ hrow)
  obtain ⟨hnotes₁, ha₁⟩ := describing_notes h hcleanFront ha hfree hfront
  obtain ⟨-, h₁, -⟩ := loadRows_ok h hcleanFront hfront
  rw [← hnotes₁]
  have hend := referring_notes h₁ (fun row hrow => hrows row (List.mem_append_right _ hrow)) ha₁ hback
  exact hend

/-! ### New registries -/

theorem ledgerAt_fresh (c : Catalog) (config : Config) (p : String) :
    (c.openRegistry config).2.ledgerAt (c.openRegistry config).1 p = {} := by
  rw [ledgerAt, lookup?]
  split
  · rw [root_fresh, Option.map_some, Option.getD_some, ledger, entity_openRegistry, entity_add,
      if_pos rfl]
    rfl
  · rw [entries_fresh]
    rfl

/-- In a new registry nothing is written down. -/
theorem notes_fresh (c : Catalog) (config : Config) :
    (c.openRegistry config).2.notes (c.openRegistry config).1 = .blank := by
  have hdeclares : ∀ s name, ({} : Tables).declares s name = false := by
    intro s name
    cases s <;> rfl
  rw [Notes.blank, notes, Notes.mk.injEq]
  constructor
  · funext p s name
    rw [ledgerAt_fresh, hdeclares]
  · funext p
    rw [ledgerAt_fresh]
    rfl

theorem aliasesHeld_fresh (c : Catalog) (config : Config) :
    AliasesHeld (c.openRegistry config).1 (c.openRegistry config).2 := by
  intro p a hmem
  rw [ledgerAt_fresh] at hmem
  cases hmem

end Manifest

end DocCatalog
