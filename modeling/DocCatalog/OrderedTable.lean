/-
**Tables that remember the order in which their keys were first written.**

Everything a catalog answers is shown in the order in which it was written down, so its tables are
lists of pairs with distinct keys.  A new key goes last, writing to a key that is there keeps its
place, and a key that is erased and written again goes last.

Main definitions:

* `OrderedTable`: the pairs, oldest key first, and the proof that no key is listed twice;
* `OrderedTable.get?`, `insert`, `erase`, `keys`, `values`: reading and writing.

Main results:

* `OrderedTable.get?_insert`, `OrderedTable.get?_erase`: what a write does to every later read;
* `OrderedTable.get?_eq_some_iff`: reading finds exactly the listed pairs;
* `OrderedTable.keys_insert`, `OrderedTable.keys_erase`: what a write does to the order of the keys;
* `OrderedTable.toList_ofList`: pairs with distinct keys are listed as they come.
-/

set_option autoImplicit false

namespace DocCatalog

/-- Pairs of a key and a value, oldest key first, no key twice. -/
structure OrderedTable (κ α : Type) where
  toList : List (κ × α) := []
  nodup : (toList.map Prod.fst).Nodup := by simp

namespace OrderedTable

variable {κ α : Type}

instance : EmptyCollection (OrderedTable κ α) := ⟨{}⟩

instance : Inhabited (OrderedTable κ α) := ⟨∅⟩

/-- The keys, oldest first. -/
def keys (t : OrderedTable κ α) : List κ := t.toList.map Prod.fst

/-- The values, in the order of their keys. -/
def values (t : OrderedTable κ α) : List α := t.toList.map Prod.snd

/-- How many keys there are. -/
def size (t : OrderedTable κ α) : Nat := t.toList.length

@[simp] theorem keys_empty : (∅ : OrderedTable κ α).keys = [] := rfl

/-! ### Writing in a list of pairs -/

section Writing

variable [DecidableEq κ]

/-- Writes `v` at `k` in a list of pairs: in place if `k` is listed, at the end otherwise. -/
def write (k : κ) (v : α) : List (κ × α) → List (κ × α)
  | [] => [(k, v)]
  | p :: rest => if p.1 = k then (k, v) :: rest else p :: write k v rest

theorem map_fst_write (k : κ) (v : α) (l : List (κ × α)) :
    (write k v l).map Prod.fst =
      if k ∈ l.map Prod.fst then l.map Prod.fst else l.map Prod.fst ++ [k] := by
  induction l with
  | nil => simp [write]
  | cons p rest ih =>
      by_cases h : p.1 = k
      · simp [write, h]
      · have h' : k ≠ p.1 := fun e => h e.symm
        simp only [write, h, if_false, List.map_cons, ih, List.mem_cons, h', false_or]
        split <;> simp

theorem nodup_write (k : κ) (v : α) (l : List (κ × α)) (h : (l.map Prod.fst).Nodup) :
    ((write k v l).map Prod.fst).Nodup := by
  rw [map_fst_write]
  split
  · exact h
  · next hk =>
      rw [List.nodup_append]
      refine ⟨h, by simp, ?_⟩
      intro a ha b hb
      rw [List.mem_singleton] at hb
      subst hb
      intro e
      exact hk (e ▸ ha)

theorem find?_write (k k' : κ) (v : α) (l : List (κ × α)) :
    (write k v l).find? (fun p => p.1 = k') =
      if k = k' then some (k, v) else l.find? (fun p => p.1 = k') := by
  induction l with
  | nil => by_cases h : k = k' <;> simp [write, h]
  | cons p rest ih =>
      by_cases h : p.1 = k
      · by_cases hk : k = k'
        · simp [write, h, hk]
        · simp [write, h, hk]
      · by_cases hp : p.1 = k'
        · have hne : k ≠ k' := fun e => h (hp.trans e.symm)
          rw [write, if_neg h, if_neg hne, List.find?_cons, List.find?_cons]
          simp [hp]
        · simp [write, h, hp, ih]

end Writing

/-! ### The operations -/

variable [DecidableEq κ]

/-- The value at a key, if the key is there. -/
def get? (t : OrderedTable κ α) (k : κ) : Option α :=
  (t.toList.find? (fun p => p.1 = k)).map Prod.snd

/-- Whether a key is there. -/
def contains (t : OrderedTable κ α) (k : κ) : Bool := (t.get? k).isSome

/-- Writes a value at a key, which keeps its place if it has one and goes last otherwise. -/
def insert (t : OrderedTable κ α) (k : κ) (v : α) : OrderedTable κ α where
  toList := write k v t.toList
  nodup := nodup_write k v t.toList t.nodup

/-- Removes a key, if it is there. -/
def erase (t : OrderedTable κ α) (k : κ) : OrderedTable κ α where
  toList := t.toList.filter (fun p => p.1 ≠ k)
  nodup := (List.filter_sublist.map Prod.fst).nodup t.nodup

/-- Writes a list of pairs one after the other: of two with one key the later value stays, in the
place of the earlier. -/
def insertMany (t : OrderedTable κ α) (l : List (κ × α)) : OrderedTable κ α :=
  l.foldl (fun acc p => acc.insert p.1 p.2) t

/-- The table of a list of pairs. -/
def ofList (l : List (κ × α)) : OrderedTable κ α := insertMany ∅ l

/-! ### Reading after a write -/

@[simp] theorem get?_empty (k : κ) : (∅ : OrderedTable κ α).get? k = none := rfl

@[grind =] theorem get?_insert (t : OrderedTable κ α) (k k' : κ) (v : α) :
    (t.insert k v).get? k' = if k = k' then some v else t.get? k' := by
  simp only [get?, insert, find?_write]
  split <;> rfl

@[simp] theorem get?_insert_self (t : OrderedTable κ α) (k : κ) (v : α) :
    (t.insert k v).get? k = some v := by simp [get?_insert]

@[grind =] theorem get?_erase (t : OrderedTable κ α) (k k' : κ) :
    (t.erase k).get? k' = if k = k' then none else t.get? k' := by
  simp only [get?, erase, List.find?_filter]
  by_cases h : k = k'
  · subst h
    simp only [if_true, Option.map_eq_none_iff, List.find?_eq_none]
    simp
  · simp only [h, if_false]
    congr 2
    funext p
    by_cases hp : p.1 = k'
    · have : p.1 ≠ k := fun e => h (e ▸ hp)
      simp [hp, Ne.symm h]
    · simp [hp]

@[simp] theorem get?_erase_self (t : OrderedTable κ α) (k : κ) : (t.erase k).get? k = none := by
  simp [get?_erase]

/-- Reading finds exactly the listed pairs. -/
theorem get?_eq_some_iff (t : OrderedTable κ α) (k : κ) (v : α) :
    t.get? k = some v ↔ (k, v) ∈ t.toList := by
  obtain ⟨l, hl⟩ := t
  simp only [get?]
  induction l with
  | nil => simp
  | cons p rest ih =>
      rw [List.map_cons, List.nodup_cons] at hl
      by_cases hp : p.1 = k
      · have hk : (k, v) ∉ rest := fun hm =>
          hl.1 (hp ▸ List.mem_map.2 ⟨(k, v), hm, rfl⟩)
        simp only [List.find?_cons, hp, decide_true, Option.map_some, Option.some.injEq,
          List.mem_cons, hk, or_false]
        constructor
        · rintro rfl; rw [← hp]
        · intro e; rw [← e]
      · have hne : (k, v) ≠ p := fun e => hp (e ▸ rfl)
        simp only [List.find?_cons, hp, decide_false, List.mem_cons, hne, false_or]
        exact ih hl.2

theorem get?_eq_none_iff (t : OrderedTable κ α) (k : κ) : t.get? k = none ↔ k ∉ t.keys := by
  simp only [get?, Option.map_eq_none_iff, List.find?_eq_none, keys, List.mem_map,
    decide_eq_true_eq, not_exists, not_and]

@[grind =] theorem keys_insert (t : OrderedTable κ α) (k : κ) (v : α) :
    (t.insert k v).keys = if k ∈ t.keys then t.keys else t.keys ++ [k] :=
  map_fst_write k v t.toList

@[grind =] theorem keys_erase (t : OrderedTable κ α) (k : κ) :
    (t.erase k).keys = t.keys.filter (fun k' => k' ≠ k) := by
  simp only [keys, erase, List.filter_map]
  rfl

/-! ### The pairs of a list -/

theorem write_of_notMem {k : κ} (v : α) {l : List (κ × α)} (h : k ∉ l.map Prod.fst) :
    write k v l = l ++ [(k, v)] := by
  induction l with
  | nil => rfl
  | cons p rest ih =>
      rw [List.map_cons, List.mem_cons, not_or] at h
      rw [write, if_neg (Ne.symm h.1), ih h.2, List.cons_append]

/-- Pairs whose keys are new and distinct are listed as they come. -/
theorem toList_insertMany (l : List (κ × α)) : ∀ t : OrderedTable κ α,
    (t.keys ++ l.map Prod.fst).Nodup → (t.insertMany l).toList = t.toList ++ l := by
  induction l with
  | nil => exact fun t _ => (List.append_nil _).symm
  | cons p rest ih =>
      intro t h
      have hp : p.1 ∉ t.keys := fun hmem =>
        (List.nodup_append.1 h).2.2 _ hmem _ List.mem_cons_self rfl
      have hkeys : (t.insert p.1 p.2).keys = t.keys ++ [p.1] := by rw [keys_insert, if_neg hp]
      have hlist : (t.insert p.1 p.2).toList = t.toList ++ [p] := write_of_notMem p.2 hp
      have hrest := ih (t.insert p.1 p.2) (by rw [hkeys, List.append_assoc]; exact h)
      rw [hlist, List.append_assoc] at hrest
      exact hrest

theorem toList_ofList {l : List (κ × α)} (h : (l.map Prod.fst).Nodup) : (ofList l).toList = l :=
  toList_insertMany l ∅ h

/-- The table of the pairs of a table. -/
theorem get?_ofList_toList (t : OrderedTable κ α) (k : κ) :
    (ofList t.toList).get? k = t.get? k := by
  rw [get?, toList_ofList t.nodup, get?]

end OrderedTable

end DocCatalog
