/-
# Python dictionaries

A dictionary keeps its keys in the order of their first insertion and each of them once, which is
what a `Table` is.  Programs fill dictionaries in a loop over some rows: an assignment for each row,
or an update of what `setdefault` finds under the row's key.  `Dict.gather` is that loop, and
`get_gather` says that each key sees the loop over its own rows.

A set that is built and then iterated has no order a program can rely on: `SetOrder` stands for the
one it happens to have.
-/
import EvalHarness.Lib.Table

namespace Py

variable {κ ν β : Type} [DecidableEq κ]

abbrev Dict (κ ν : Type) := Table κ ν

namespace Dict

/-- `d[k] = v`. -/
def set (d : Dict κ ν) (k : κ) (v : ν) : Dict κ ν :=
  if h : k ∈ d.keys then d.updateWhere (fun k' _ => k' == k) fun _ => v
  else ⟨d.rows ++ [(k, v)], by
    rw [List.map_append, List.nodup_append]
    refine ⟨d.nodup, by simp, ?_⟩
    rintro a ha b hb rfl
    obtain rfl : a = k := by simpa using hb
    exact h ha⟩

/-- `for k, b in rows: d[k] = f(d.setdefault(k, z), b)`. -/
def gather (z : ν) (f : ν → β → ν) (d : Dict κ ν) (rows : List (κ × β)) : Dict κ ν :=
  rows.foldl (fun d x => set d x.1 (f ((d.get x.1).getD z) x.2)) d

/-- `for k, v in rows: d[k] = v`. -/
def update (d : Dict κ ν) (rows : List (κ × ν)) : Dict κ ν :=
  rows.foldl (fun d x => set d x.1 x.2) d

/-- `{k: v for k, v in rows}`. -/
def ofRows (rows : List (κ × ν)) : Dict κ ν := update Table.empty rows

/-! ## What `get` sees -/

@[simp] theorem get_set (d : Dict κ ν) (k : κ) (v : ν) (k' : κ) :
    (set d k v).get k' = if k' = k then some v else d.get k' := by
  unfold set
  split
  · rename_i h
    rw [Table.get_updateWhere]
    by_cases hk : k' = k
    · subst hk
      cases hg : d.get k' with
      | none => exact absurd h (Table.get_eq_none_iff d |>.mp hg)
      | some v' => simp
    · simp [hk]
  · rename_i h
    have hnone := (Table.get_eq_none_iff d).mpr h
    simp only [Table.get] at hnone ⊢
    rw [List.lookup_append]
    by_cases hk : k' = k
    · subst hk
      simp [hnone]
    · have hbeq : (k' == k) = false := by simpa using hk
      simp [List.lookup_cons, hbeq, hk]

/-- The rows of one key. -/
def rowsOf (k : κ) (rows : List (κ × β)) : List β := (rows.filter fun x => x.1 == k).map Prod.snd

theorem rowsOf_cons (k : κ) (x : κ × β) (rows : List (κ × β)) :
    rowsOf k (x :: rows) = if x.1 = k then x.2 :: rowsOf k rows else rowsOf k rows := by
  by_cases hk : x.1 = k <;> simp [rowsOf, hk]

/-- **The loop at one key** is the loop over the rows of that key. -/
theorem get_gather (z : ν) (f : ν → β → ν) (rows : List (κ × β)) (k : κ) :
    ∀ d : Dict κ ν, (gather z f d rows).get k =
      if rowsOf k rows = [] then d.get k
      else some ((rowsOf k rows).foldl f ((d.get k).getD z)) := by
  induction rows with
  | nil => exact fun d => rfl
  | cons x rows ih =>
    intro d
    have hstep : gather z f d (x :: rows) =
        gather z f (set d x.1 (f ((d.get x.1).getD z) x.2)) rows := rfl
    rw [hstep, ih, get_set, rowsOf_cons]
    by_cases hk : x.1 = k
    · subst hk
      by_cases hnil : rowsOf x.1 rows = [] <;> simp [hnil]
    · simp [hk, Ne.symm hk]

/-- Assignments under different keys are a lookup. -/
theorem get_update {rows : List (κ × ν)} (hnd : (rows.map Prod.fst).Nodup) (k : κ) :
    ∀ d : Dict κ ν, (update d rows).get k = (rows.lookup k).or (d.get k) := by
  induction rows with
  | nil => exact fun d => rfl
  | cons x rows ih =>
    intro d
    rw [List.map_cons, List.nodup_cons] at hnd
    have hstep : update d (x :: rows) = update (set d x.1 x.2) rows := rfl
    rw [hstep, ih hnd.2, get_set, List.lookup_cons]
    by_cases hk : k = x.1
    · have hnone : rows.lookup k = none := by
        rw [List.lookup_eq_none_iff]
        intro y hy
        have hne : k ≠ y.1 := fun heq => hnd.1 (List.mem_map.mpr ⟨y, hy, by rw [← hk, heq]⟩)
        simpa using hne
      simp [hk ▸ hnone, hk]
    · have hbeq : (k == x.1) = false := by simpa using hk
      simp [hk, hbeq]

theorem get_ofRows {rows : List (κ × ν)} (hnd : (rows.map Prod.fst).Nodup) (k : κ) :
    (ofRows rows).get k = rows.lookup k := by
  rw [ofRows, get_update hnd, Table.get_empty, Option.or_none]

/-- What stands in the dictionary is what stands in the rows. -/
theorem get_ofRows_iff {rows : List (κ × ν)} (hnd : (rows.map Prod.fst).Nodup) {k : κ} {v : ν} :
    (ofRows rows).get k = some v ↔ (k, v) ∈ rows := by
  rw [get_ofRows hnd]
  exact (Table.mem_rows_iff ⟨rows, hnd⟩).symm

theorem get_ofRows_eq_none {rows : List (κ × ν)} (hnd : (rows.map Prod.fst).Nodup) {k : κ} :
    (ofRows rows).get k = none ↔ k ∉ rows.map Prod.fst := by
  rw [get_ofRows hnd]
  exact Table.get_eq_none_iff ⟨rows, hnd⟩

theorem mem_rowsOf {k : κ} {b : β} {rows : List (κ × β)} : b ∈ rowsOf k rows ↔ (k, b) ∈ rows := by
  simp [rowsOf]

/-- Rows under two keys, in a dictionary of dictionaries. -/
theorem getD_gather_set {κ' : Type} [DecidableEq κ'] (rows : List (κ × κ' × ν)) (k : κ) :
    ((gather Table.empty (fun d x => set d x.1 x.2) Table.empty rows).get k).getD Table.empty =
      (ofRows (rowsOf k rows) : Dict κ' ν) := by
  rw [get_gather]
  by_cases hnil : rowsOf k rows = []
  · rw [if_pos hnil, hnil]
    rfl
  · rw [if_neg hnil]
    rfl

/-- Collecting the rows of each key in a list. -/
theorem get_gather_append (rows : List (κ × β)) (k : κ) :
    (gather [] (fun bs b => bs ++ [b]) Table.empty rows).get k =
      if rowsOf k rows = [] then none else some (rowsOf k rows) := by
  have hfold : ∀ bs acc : List β, bs.foldl (fun bs b => bs ++ [b]) acc = acc ++ bs := by
    intro bs
    induction bs with
    | nil => simp
    | cons b bs ih => simp [ih]
  rw [get_gather, hfold]
  simp

end Dict

/-- The order in which a set is iterated, which the language leaves open. -/
structure SetOrder (α : Type) where
  walk : List α → List α
  perm : ∀ xs, (walk xs).Perm xs

end Py
