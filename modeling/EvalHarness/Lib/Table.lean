/-
# Tables with a primary key

A table is its list of rows in insertion order together with the proof that no key occurs
twice, so a state that breaks the primary key cannot be written down.  The operations are the
ones a program issues as SQL statements: `SELECT` by key (`get`), `UPDATE .. WHERE`
(`updateWhere`), `SELECT count(*)` (`count`), `INSERT` of a batch (`insertAll`, refused when it
would repeat a key) and a sum over the rows (`sumBy`).

Proofs read a table through `get` only.  Each operation has the lemma that says what `get` (or a
count, or a sum) sees afterwards.
-/
import Mathlib.Algebra.BigOperators.Group.List.Basic
import Mathlib.Algebra.BigOperators.Group.Finset.Basic
import Mathlib.Algebra.Order.BigOperators.Group.Finset
import Mathlib.Data.List.Nodup
import Mathlib.Tactic.Abel

/-- Rows under a primary key. -/
structure Table (κ ρ : Type) where
  rows : List (κ × ρ)
  nodup : (rows.map Prod.fst).Nodup

namespace Table

variable {κ ρ M : Type} [DecidableEq κ]

/-! ## 1. The operations -/

/-- The table without rows. -/
def empty : Table κ ρ := ⟨[], List.nodup_nil⟩

/-- The row under a key. -/
def get (t : Table κ ρ) (k : κ) : Option ρ := t.rows.lookup k

/-- The keys, in insertion order. -/
def keys (t : Table κ ρ) : List κ := t.rows.map Prod.fst

/-- Rewrite every row in place. -/
def mapRows (t : Table κ ρ) (f : κ → ρ → ρ) : Table κ ρ :=
  ⟨t.rows.map fun x => (x.1, f x.1 x.2), by simpa [Function.comp_def] using t.nodup⟩

/-- `UPDATE .. SET f WHERE p`. -/
def updateWhere (t : Table κ ρ) (p : κ → ρ → Bool) (f : ρ → ρ) : Table κ ρ :=
  t.mapRows fun k r => if p k r then f r else r

/-- `SELECT count(*) .. WHERE p`; also the row count an `UPDATE .. WHERE p` reports. -/
def count (t : Table κ ρ) (p : κ → ρ → Bool) : Nat := t.rows.countP fun x => p x.1 x.2

/-- `INSERT` of a batch of rows; `none` when the primary key refuses it. -/
def insertAll (t : Table κ ρ) (new : List (κ × ρ)) : Option (Table κ ρ) :=
  if h : ((t.rows ++ new).map Prod.fst).Nodup then some ⟨t.rows ++ new, h⟩ else none

/-- `DELETE .. WHERE key = k`. -/
def delete (t : Table κ ρ) (k : κ) : Table κ ρ :=
  ⟨t.rows.filter fun x => x.1 != k, t.nodup.sublist (List.filter_sublist.map _)⟩

/-- `SELECT sum(g)`. -/
def sumBy [AddMonoid M] (t : Table κ ρ) (g : κ → ρ → M) : M :=
  (t.rows.map fun x => g x.1 x.2).sum

/-! ## 2. What `get` sees -/

theorem mem_rows_iff (t : Table κ ρ) {k : κ} {r : ρ} : (k, r) ∈ t.rows ↔ t.get k = some r := by
  obtain ⟨rows, hnd⟩ := t
  simp only [get]
  induction rows with
  | nil => simp
  | cons x xs ih =>
    obtain ⟨k', r'⟩ := x
    simp only [List.map_cons, List.nodup_cons] at hnd
    by_cases hk : k = k'
    · subst hk
      have hnot : (k, r) ∉ xs := fun h => hnd.1 (List.mem_map.mpr ⟨_, h, rfl⟩)
      simp [hnot, eq_comm]
    · have hbeq : (k == k') = false := by simpa using hk
      simp [List.lookup_cons, hbeq, hk, ih hnd.2]

theorem get_eq_none_iff (t : Table κ ρ) {k : κ} : t.get k = none ↔ k ∉ t.keys := by
  constructor
  · rintro h hk
    obtain ⟨⟨k', r⟩, hmem, rfl⟩ := List.mem_map.mp hk
    rw [t.mem_rows_iff.mp hmem] at h
    exact absurd h (by simp)
  · intro h
    cases hg : t.get k with
    | none => rfl
    | some r => exact absurd (List.mem_map.mpr ⟨_, t.mem_rows_iff.mpr hg, rfl⟩) h

/-- A search by key finds what `get` finds. -/
theorem find?_rows (t : Table κ ρ) (k : κ) :
    (t.rows.find? fun x => x.1 == k) = (t.get k).map fun r => (k, r) := by
  obtain ⟨rows, hnd⟩ := t
  simp only [get]
  clear hnd
  induction rows with
  | nil => rfl
  | cons x xs ih =>
    obtain ⟨k', r'⟩ := x
    by_cases hk : k' = k
    · subst hk
      simp
    · have hbeq : (k == k') = false := by simpa using Ne.symm hk
      simp [List.lookup_cons, hbeq, hk, ih]

theorem mem_keys_of_get {t : Table κ ρ} {k : κ} {r : ρ} (h : t.get k = some r) : k ∈ t.keys :=
  List.mem_map.mpr ⟨_, t.mem_rows_iff.mpr h, rfl⟩

@[simp] theorem get_empty (k : κ) : (empty : Table κ ρ).get k = none := rfl

@[simp] theorem keys_mapRows {κ ρ : Type} (t : Table κ ρ) (f : κ → ρ → ρ) : (t.mapRows f).keys = t.keys := by
  simp [keys, mapRows, Function.comp_def]

@[simp] theorem keys_updateWhere {κ ρ : Type} (t : Table κ ρ) (p : κ → ρ → Bool) (f : ρ → ρ) :
    (t.updateWhere p f).keys = t.keys := keys_mapRows _ _

@[simp] theorem get_mapRows (t : Table κ ρ) (f : κ → ρ → ρ) (k : κ) :
    (t.mapRows f).get k = (t.get k).map (f k) := by
  obtain ⟨rows, hnd⟩ := t
  simp only [get, mapRows]
  clear hnd
  induction rows with
  | nil => simp
  | cons x xs ih =>
    obtain ⟨k', r'⟩ := x
    by_cases hk : k = k'
    · subst hk; simp
    · have hbeq : (k == k') = false := by simpa using hk
      simp [List.lookup_cons, hbeq, ih]

@[simp] theorem get_updateWhere (t : Table κ ρ) (p : κ → ρ → Bool) (f : ρ → ρ) (k : κ) :
    (t.updateWhere p f).get k = (t.get k).map fun r => if p k r then f r else r :=
  get_mapRows _ _ _

theorem mapRows_congr {t : Table κ ρ} {f g : κ → ρ → ρ}
    (h : ∀ k r, t.get k = some r → f k r = g k r) : t.mapRows f = t.mapRows g := by
  simp only [mapRows, mk.injEq]
  refine List.map_congr_left fun x hx => ?_
  rw [h x.1 x.2 (t.mem_rows_iff.mp hx)]

theorem mapRows_of_forall {t : Table κ ρ} {f : κ → ρ → ρ}
    (h : ∀ k r, t.get k = some r → f k r = r) : t.mapRows f = t := by
  rw [mapRows_congr h]
  simp [mapRows]

/-- An update by key that misses is no update. -/
theorem updateWhere_of_miss {t : Table κ ρ} {k : κ} {g : ρ → Bool} {f : ρ → ρ}
    (h : ∀ r, t.get k = some r → g r = false) :
    t.updateWhere (fun k' r => k' == k && g r) f = t := by
  refine mapRows_of_forall fun k' r hr => ?_
  by_cases hk : k' = k
  · subst hk
    simp [h r hr]
  · simp [hk]

theorem rows_insertAll {t t' : Table κ ρ} {new : List (κ × ρ)} (h : t.insertAll new = some t') :
    t'.rows = t.rows ++ new := by
  unfold insertAll at h
  split at h
  · rw [← Option.some.inj h]
  · exact absurd h (by simp)

/-- The keys of an accepted batch were free, and are distinct. -/
theorem fresh_of_insertAll {t t' : Table κ ρ} {new : List (κ × ρ)} (h : t.insertAll new = some t') :
    (new.map Prod.fst).Nodup ∧ ∀ k ∈ new.map Prod.fst, t.get k = none := by
  have hnd := t'.nodup
  rw [rows_insertAll h, List.map_append, List.nodup_append] at hnd
  refine ⟨hnd.2.1, fun k hk => (t.get_eq_none_iff).mpr fun hk' => ?_⟩
  exact hnd.2.2 k hk' k hk rfl

/-- A batch of free, distinct keys is accepted. -/
theorem exists_insertAll {t : Table κ ρ} {new : List (κ × ρ)} (hnew : (new.map Prod.fst).Nodup)
    (hfree : ∀ k ∈ new.map Prod.fst, t.get k = none) : ∃ t', t.insertAll new = some t' := by
  have hnd : ((t.rows ++ new).map Prod.fst).Nodup := by
    rw [List.map_append, List.nodup_append]
    refine ⟨t.nodup, hnew, ?_⟩
    rintro k hk k' hk' rfl
    exact (t.get_eq_none_iff.mp (hfree k hk')) hk
  exact ⟨_, dif_pos hnd⟩

/-- A row of the enlarged table is an old one or one of the batch. -/
theorem get_insertAll_some {t t' : Table κ ρ} {new : List (κ × ρ)}
    (h : t.insertAll new = some t') {k : κ} {r : ρ} :
    t'.get k = some r ↔ t.get k = some r ∨ (k, r) ∈ new := by
  rw [← t'.mem_rows_iff, ← t.mem_rows_iff, rows_insertAll h, List.mem_append]

/-- A deleted row is gone, the others stay. -/
theorem get_delete_some {t : Table κ ρ} {k k' : κ} {r : ρ} :
    (t.delete k).get k' = some r ↔ t.get k' = some r ∧ k' ≠ k := by
  rw [← (t.delete k).mem_rows_iff, ← t.mem_rows_iff, delete, List.mem_filter]
  simp

/-! ## 3. Counts -/

theorem count_eq_zero {t : Table κ ρ} {p : κ → ρ → Bool} :
    t.count p = 0 ↔ ∀ k r, t.get k = some r → p k r = false := by
  simp only [count, List.countP_eq_zero, ← t.mem_rows_iff, Bool.not_eq_true]
  exact ⟨fun h k r hk => h (k, r) hk, fun h x hx => h x.1 x.2 hx⟩

theorem count_ne_zero {t : Table κ ρ} {p : κ → ρ → Bool} :
    t.count p ≠ 0 ↔ ∃ k r, t.get k = some r ∧ p k r = true := by
  rw [Ne, count_eq_zero]
  push Not
  simp

theorem countP_key_le_one (t : Table κ ρ) (k : κ) : (t.rows.countP fun x => x.1 == k) ≤ 1 := by
  have hcount : (t.rows.countP fun x => x.1 == k) = (t.rows.map Prod.fst).count k := by
    rw [List.count, List.countP_map]
    rfl
  rw [hcount]
  exact List.nodup_iff_count_le_one.mp t.nodup k

theorem countP_key_eq_one {t : Table κ ρ} {k : κ} {r : ρ} (h : t.get k = some r) :
    (t.rows.countP fun x => x.1 == k) = 1 := by
  have hle := t.countP_key_le_one k
  have hpos : 0 < t.rows.countP fun x => x.1 == k :=
    List.countP_pos_iff.mpr ⟨(k, r), t.mem_rows_iff.mpr h, by simp⟩
  omega

/-- A condition on one key meets at most one row. -/
theorem count_key_le_one (t : Table κ ρ) (k : κ) (g : ρ → Bool) :
    t.count (fun k' r => k' == k && g r) ≤ 1 := by
  refine le_trans (List.countP_mono_left fun x _ hx => ?_) (t.countP_key_le_one k)
  simp only [Bool.and_eq_true] at hx
  exact hx.1

theorem count_key_eq_one {t : Table κ ρ} {k : κ} {g : ρ → Bool} :
    t.count (fun k' r => k' == k && g r) = 1 ↔ ∃ r, t.get k = some r ∧ g r = true := by
  have hle := t.count_key_le_one k g
  have hne : t.count (fun k' r => k' == k && g r) = 1 ↔
      t.count (fun k' r => k' == k && g r) ≠ 0 := by omega
  rw [hne, count_ne_zero]
  constructor
  · rintro ⟨k', r, hr, hk⟩
    simp only [Bool.and_eq_true, beq_iff_eq] at hk
    exact ⟨r, hk.1 ▸ hr, hk.2⟩
  · rintro ⟨r, hr, hg⟩
    exact ⟨k, r, hr, by simp [hg]⟩

/-! ## 4. Sums -/

section Sums

/-- A sum over a table is a sum over its keys. -/
theorem sumBy_eq_sum [AddCommMonoid M] (t : Table κ ρ) (g : κ → ρ → M) :
    t.sumBy g = ∑ k ∈ t.keys.toFinset, (t.get k).elim 0 (g k) := by
  have hlist : t.sumBy g = (t.keys.map fun k => (t.get k).elim 0 (g k)).sum := by
    rw [sumBy, keys, List.map_map]
    congr 1
    refine List.map_congr_left fun x hx => ?_
    simp [t.mem_rows_iff.mp (show (x.1, x.2) ∈ t.rows from hx)]
  exact hlist.trans (List.sum_toFinset _ (show t.keys.Nodup from t.nodup)).symm

/-- The same over any set of keys that contains them. -/
theorem sumBy_eq_sum_of_subset [AddCommMonoid M] (t : Table κ ρ) (g : κ → ρ → M) {U : Finset κ}
    (hU : t.keys.toFinset ⊆ U) : t.sumBy g = ∑ k ∈ U, (t.get k).elim 0 (g k) := by
  rw [sumBy_eq_sum]
  refine Finset.sum_subset hU fun k _ hk => ?_
  rw [t.get_eq_none_iff.mpr (by simpa using hk)]
  rfl

theorem sumBy_eq_zero [AddCommMonoid M] {t : Table κ ρ} {g : κ → ρ → M}
    (h : ∀ k r, t.get k = some r → g k r = 0) : t.sumBy g = 0 := by
  rw [sumBy_eq_sum]
  refine Finset.sum_eq_zero fun k _ => ?_
  cases hk : t.get k with
  | none => rfl
  | some r => exact h k r hk

/-- Two tables whose rows weigh the same key by key have the same sum. -/
theorem sumBy_eq_of_get [AddCommMonoid M] {t t' : Table κ ρ} {g : κ → ρ → M}
    (h : ∀ k, (t.get k).elim 0 (g k) = (t'.get k).elim 0 (g k)) : t.sumBy g = t'.sumBy g := by
  rw [sumBy_eq_sum_of_subset t g Finset.subset_union_left,
    sumBy_eq_sum_of_subset t' g Finset.subset_union_right]
  exact Finset.sum_congr rfl fun k _ => h k

/-- A table whose rows weigh no more key by key, each table under its own weights, has no larger
sum. -/
theorem sumBy_le_of_get [AddCommMonoid M] [PartialOrder M] [IsOrderedAddMonoid M]
    {t t' : Table κ ρ} {g g' : κ → ρ → M}
    (h : ∀ k, (t.get k).elim 0 (g k) ≤ (t'.get k).elim 0 (g' k)) : t.sumBy g ≤ t'.sumBy g' := by
  rw [sumBy_eq_sum_of_subset t g Finset.subset_union_left,
    sumBy_eq_sum_of_subset t' g' Finset.subset_union_right]
  exact Finset.sum_le_sum fun k _ => h k

/-- Two tables that differ at one key differ in their sums by what differs there. -/
theorem sumBy_eq_add_of_get [AddCommGroup M] {t t' : Table κ ρ} {g : κ → ρ → M} (k : κ)
    (h : ∀ k', k' ≠ k → (t.get k').elim 0 (g k') = (t'.get k').elim 0 (g k')) :
    t'.sumBy g = t.sumBy g + ((t'.get k).elim 0 (g k) - (t.get k).elim 0 (g k)) := by
  rw [← sub_eq_iff_eq_add',
    sumBy_eq_sum_of_subset t g (Finset.subset_union_left.trans Finset.subset_union_left),
    sumBy_eq_sum_of_subset t' g (U := t.keys.toFinset ∪ t'.keys.toFinset ∪ {k})
      (Finset.subset_union_right.trans Finset.subset_union_left),
    ← Finset.sum_sub_distrib]
  refine Finset.sum_eq_single_of_mem k (by simp) fun k' _ hk' => ?_
  rw [h k' hk', sub_self]

end Sums

end Table
