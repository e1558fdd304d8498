/-!
Tables that remember the order in which their keys were first written. Writing a key again keeps
its place, erasing it frees the place. Key comparison is decidable equality, so no two rows share
a key (`Table.nodup`).
-/

namespace Phrasebook

structure Table (κ α : Type) where
  entries : List (κ × α)
  nodup : (entries.map Prod.fst).Nodup

namespace Table

variable {κ α β : Type}

def keys (t : Table κ α) : List κ := t.entries.map Prod.fst

def values (t : Table κ α) : List α := t.entries.map Prod.snd

def size (t : Table κ α) : Nat := t.entries.length

def empty : Table κ α := ⟨[], List.nodup_nil⟩

instance : EmptyCollection (Table κ α) := ⟨empty⟩

instance : Inhabited (Table κ α) := ⟨empty⟩

def map (f : α → β) (t : Table κ α) : Table κ β where
  entries := t.entries.map fun row => (row.1, f row.2)
  nodup := by simpa [Function.comp_def] using t.nodup

@[simp] theorem keys_map (f : α → β) (t : Table κ α) : (t.map f).keys = t.keys := by
  simp [keys, map, Function.comp_def]

variable [DecidableEq κ]

def lookup (k : κ) : List (κ × α) → Option α
  | [] => none
  | (a, x) :: rows => if a = k then some x else lookup k rows

/-- Replaces the value of `k` where it stands, or adds a last row. -/
def put (k : κ) (x : α) : List (κ × α) → List (κ × α)
  | [] => [(k, x)]
  | (a, y) :: rows => if a = k then (a, x) :: rows else (a, y) :: put k x rows

theorem keys_put (k : κ) (x : α) (rows : List (κ × α)) :
    (put k x rows).map Prod.fst =
      if k ∈ rows.map Prod.fst then rows.map Prod.fst else rows.map Prod.fst ++ [k] := by
  induction rows with
  | nil => simp [put]
  | cons row rows ih =>
    obtain ⟨a, y⟩ := row
    by_cases h : a = k
    · simp [put, h]
    · have hk : k ≠ a := Ne.symm h
      simp only [put, if_neg h, List.map_cons, ih, List.mem_cons, hk, false_or]
      split <;> simp

theorem lookup_put (k j : κ) (x : α) (rows : List (κ × α)) :
    lookup j (put k x rows) = if k = j then some x else lookup j rows := by
  induction rows with
  | nil => simp [put, lookup]
  | cons row rows ih =>
    obtain ⟨a, y⟩ := row
    by_cases h : a = k
    · subst h
      by_cases hj : a = j <;> simp [put, lookup, hj]
    · by_cases hj : a = j
      · subst hj
        simp [put, lookup, h, Ne.symm h]
      · simp [put, lookup, h, hj, ih]

def get? (t : Table κ α) (k : κ) : Option α := lookup k t.entries

def contains (t : Table κ α) (k : κ) : Bool := (t.get? k).isSome

def insert (t : Table κ α) (k : κ) (x : α) : Table κ α where
  entries := put k x t.entries
  nodup := by
    rw [keys_put]
    split
    · exact t.nodup
    · rename_i h
      exact List.nodup_append.2 ⟨t.nodup, by simp, fun a ha b hb e => h (by simp_all)⟩

def erase (t : Table κ α) (k : κ) : Table κ α where
  entries := t.entries.filter fun row => row.1 ≠ k
  nodup := t.nodup.sublist (List.filter_sublist.map Prod.fst)

/-- Writes the rows of `u` in order over `t`. -/
def insertAll (t u : Table κ α) : Table κ α :=
  u.entries.foldl (fun t row => t.insert row.1 row.2) t

def ofList (rows : List (κ × α)) : Table κ α :=
  rows.foldl (fun t row => t.insert row.1 row.2) empty

@[simp] theorem get?_empty (k : κ) : (empty : Table κ α).get? k = none := rfl

@[simp] theorem get?_insert (t : Table κ α) (k j : κ) (x : α) :
    (t.insert k x).get? j = if k = j then some x else t.get? j :=
  lookup_put k j x t.entries

theorem keys_insert (t : Table κ α) (k : κ) (x : α) :
    (t.insert k x).keys = if k ∈ t.keys then t.keys else t.keys ++ [k] :=
  keys_put k x t.entries

theorem lookup_isSome (k : κ) (rows : List (κ × α)) :
    (lookup k rows).isSome ↔ k ∈ rows.map Prod.fst := by
  induction rows with
  | nil => simp [lookup]
  | cons row rows ih =>
    by_cases h : row.1 = k
    · simp [lookup, h]
    · simp [lookup, h, ih, Ne.symm h]

theorem contains_iff (t : Table κ α) (k : κ) : t.contains k ↔ k ∈ t.keys :=
  lookup_isSome k t.entries

theorem lookup_map (f : α → β) (k : κ) (rows : List (κ × α)) :
    lookup k (rows.map fun row => (row.1, f row.2)) = (lookup k rows).map f := by
  induction rows with
  | nil => rfl
  | cons row rows ih => by_cases h : row.1 = k <;> simp [lookup, h, ih]

theorem get?_map (f : α → β) (t : Table κ α) (k : κ) : (t.map f).get? k = (t.get? k).map f :=
  lookup_map f k t.entries

theorem lookup_filter_ne (k j : κ) (rows : List (κ × α)) :
    lookup j (rows.filter fun row => row.1 ≠ k) = if k = j then none else lookup j rows := by
  induction rows with
  | nil => simp [lookup]
  | cons row rows ih =>
    by_cases hk : row.1 = k
    · subst hk
      by_cases hj : row.1 = j <;> simp_all [lookup]
    · by_cases hj : row.1 = j
      · subst hj
        simp [lookup, hk, Ne.symm hk]
      · simp_all [lookup]

theorem get?_erase (t : Table κ α) (k j : κ) :
    (t.erase k).get? j = if k = j then none else t.get? j :=
  lookup_filter_ne k j t.entries

end Table

end Phrasebook
