/-
# SQL queries

A relation is the list of its rows, duplicates included; the operators are those of a `SELECT`
statement in their standard meaning.  NULL is `none`.  A condition is the test that it is TRUE, so
one that is unknown for a row turns the row away like one that is false.  A `numeric` is a rational
number or NaN, which absorbs in sums and sorts above every number: the top of `WithTop ℚ`.

Section 2 has the two facts joins are used through (a side that matches at most once adds no row),
section 3 those a grouping is: its groups partition the rows, and a condition on the key can be
tested in front of it.
-/
import Mathlib.Algebra.BigOperators.Group.List.Lemmas
import Mathlib.Algebra.Order.Monoid.Unbundled.WithTop
import Mathlib.Algebra.Order.Ring.Rat
import Mathlib.Data.List.Dedup
import Mathlib.Data.List.ReduceOption
import Mathlib.Data.Rat.Floor
import Mathlib.Tactic.GCongr
import Mathlib.Tactic.Linarith
import Mathlib.Tactic.Positivity

namespace Sql

variable {α β κ : Type}

/-! ## 1. Numerics and aggregates -/

abbrev Numeric := WithTop ℚ

/-- `ROUND(q, digits)`: half away from zero. -/
def roundAway (digits : Nat) (q : ℚ) : ℚ :=
  let n := ⌊|q| * 10 ^ digits + 1 / 2⌋
  (if q < 0 then -n else n) / 10 ^ digits

def round (digits : Nat) (x : Numeric) : Numeric := x.map (roundAway digits)

def scale (x : Numeric) (q : ℚ) : Numeric := x.map (· * q)

/-- Division by a count. -/
def div (x : Numeric) (n : Nat) : Numeric := x.map (· / n)

/-- `SUM`: over the values that are not NULL, and NULL when there are none. -/
def sum (xs : List (Option Numeric)) : Option Numeric :=
  if xs.reduceOption = [] then none else some xs.reduceOption.sum

/-- `AVG`. -/
def avg (xs : List (Option Numeric)) : Option Numeric :=
  (sum xs).map fun s => div s xs.reduceOption.length

/-- `percentile_cont(p) WITHIN GROUP (ORDER BY x)`, in exact arithmetic. -/
def percentileCont (p : ℚ) (xs : List (Option Int)) : Option ℚ :=
  let sorted := xs.reduceOption.mergeSort
  if sorted = [] then none
  else
    let place := p * (sorted.length - 1 : ℚ)
    let low : ℚ := sorted.getD ⌊place⌋.toNat 0
    let high : ℚ := sorted.getD ⌈place⌉.toNat 0
    some (low + (place - ⌊place⌋) * (high - low))

theorem reduceOption_map_some (xs : List α) : (xs.map some).reduceOption = xs := by
  simp [List.reduceOption]

theorem sum_map_some {xs : List Numeric} (h : xs ≠ []) : sum (xs.map some) = some xs.sum := by
  rw [sum, reduceOption_map_some, if_neg h]

theorem avg_map_some {xs : List Numeric} (h : xs ≠ []) :
    avg (xs.map some) = some (div xs.sum xs.length) := by
  rw [avg, sum_map_some h, reduceOption_map_some, Option.map_some]

/-- The average of a column of numbers. -/
theorem avg_coe {f : α → Option Numeric} {q : α → ℚ} {xs : List α} (hne : xs ≠ [])
    (h : ∀ x ∈ xs, f x = some ((q x : ℚ) : Numeric)) :
    avg (xs.map f) = some (((xs.map q).sum / xs.length : ℚ) : Numeric) := by
  have hsum : ∀ ys : List α, (ys.map fun x => (q x : Numeric)).sum = ((ys.map q).sum : ℚ) := by
    intro ys
    induction ys with
    | nil => rfl
    | cons y ys ih =>
      rw [List.map_cons, List.sum_cons, ih, List.map_cons, List.sum_cons]
      rfl
  have hsome : xs.map f = (xs.map fun x => (q x : Numeric)).map some := by
    rw [List.map_map]
    exact List.map_congr_left h
  rw [hsome, avg_map_some (by simpa using hne), hsum, List.length_map]
  rfl

/-- An aggregate over a column without NULLs is not NULL. -/
theorem sum_isSome {xs : List (Option Numeric)} (hne : xs ≠ []) (h : ∀ x ∈ xs, x.isSome = true) :
    (sum xs).isSome = true := by
  obtain ⟨ys, rfl⟩ : ∃ ys : List Numeric, xs = ys.map some := by
    refine ⟨xs.reduceOption, ?_⟩
    induction xs with
    | nil => exact absurd rfl hne
    | cons x xs ih =>
      obtain ⟨y, rfl⟩ := Option.isSome_iff_exists.mp (h x (by simp))
      rw [List.reduceOption_cons_of_some, List.map_cons]
      by_cases hnil : xs = []
      · simp [hnil]
      · rw [← ih hnil fun x hx => h x (by simp [hx])]
  rw [sum_map_some (by simpa using hne), Option.isSome_some]

theorem avg_isSome {xs : List (Option Numeric)} (hne : xs ≠ []) (h : ∀ x ∈ xs, x.isSome = true) :
    (avg xs).isSome = true := by
  rw [avg, Option.isSome_map, sum_isSome hne h]

/-- A sum of zeros and ones counts the ones. -/
theorem sum_indicator (p : α → Bool) (xs : List α) :
    (xs.map fun x => if p x then (1 : Numeric) else 0).sum = ((xs.countP p : ℚ) : Numeric) := by
  induction xs with
  | nil => rfl
  | cons x xs ih =>
    rw [List.map_cons, List.sum_cons, ih, List.countP_cons]
    cases p x with
    | false => simp
    | true =>
      rw [if_pos rfl, if_pos rfl, Nat.cast_add, WithTop.coe_add, add_comm]
      rfl

/-- Ascending order, in which NULL comes last. -/
def ascending (x y : Option Numeric) : Bool :=
  match x, y with
  | _, none => true
  | none, some _ => false
  | some x, some y => decide (x ≤ y)

/-! ## 2. Joins -/

/-- `JOIN .. ON`. -/
def join (on : α → β → Bool) (xs : List α) (ys : List β) : List (α × β) :=
  xs.flatMap fun x => (ys.filter (on x)).map fun y => (x, y)

/-- `LEFT JOIN .. ON`. -/
def leftJoin (on : α → β → Bool) (xs : List α) (ys : List β) : List (α × Option β) :=
  xs.flatMap fun x =>
    if ys.filter (on x) = [] then [(x, none)] else (ys.filter (on x)).map fun y => (x, some y)

section Members

variable {on : α → β → Bool} {xs : List α} {ys : List β}

theorem mem_of_mem_join {z : α × β} (h : z ∈ join on xs ys) : z.1 ∈ xs := by
  obtain ⟨x, hx, hz⟩ := List.mem_flatMap.mp h
  obtain ⟨y, -, rfl⟩ := List.mem_map.mp hz
  exact hx

theorem mem_join {x : α} {y : β} : (x, y) ∈ join on xs ys ↔ x ∈ xs ∧ y ∈ ys ∧ on x y = true := by
  simp [join, and_assoc]

theorem mem_of_mem_leftJoin {z : α × Option β} (h : z ∈ leftJoin on xs ys) : z.1 ∈ xs := by
  obtain ⟨x, hx, hz⟩ := List.mem_flatMap.mp h
  split at hz
  · obtain rfl := List.mem_singleton.mp hz
    exact hx
  · obtain ⟨y, -, rfl⟩ := List.mem_map.mp hz
    exact hx

theorem mem_right_of_mem_leftJoin {x : α} {y : β} (h : (x, some y) ∈ leftJoin on xs ys) : y ∈ ys := by
  obtain ⟨x', -, hz⟩ := List.mem_flatMap.mp h
  split at hz
  · exact absurd (List.mem_singleton.mp hz) (by simp)
  · obtain ⟨y', hy', heq⟩ := List.mem_map.mp hz
    obtain ⟨-, hyy⟩ := Prod.mk.inj heq
    obtain rfl := Option.some.inj hyy
    exact List.mem_of_mem_filter hy'

/-- A join that always finds exactly one match keeps the rows. -/
theorem map_fst_join (h : ∀ x ∈ xs, ys.countP (on x) = 1) : (join on xs ys).map Prod.fst = xs := by
  rw [join, List.map_flatMap]
  calc xs.flatMap (fun x => ((ys.filter (on x)).map fun y => (x, y)).map Prod.fst)
      = xs.flatMap fun x => [x] := by
        refine List.flatMap_congr fun x hx => ?_
        have hone := h x hx
        rw [List.countP_eq_length_filter, List.length_eq_one_iff] at hone
        obtain ⟨y, hy⟩ := hone
        rw [hy]
        rfl
    _ = xs := by simp

end Members

section Unique

variable {p q : α → Bool} {xs : List α} {ys : List β} {on : α → β → Bool}

/-- What matches at most once is matched by what `find?` finds. -/
theorem filter_eq_find? (h : xs.countP p ≤ 1) : xs.filter p = (xs.find? p).toList := by
  rw [← List.head?_filter]
  rw [List.countP_eq_length_filter] at h
  match hl : xs.filter p with
  | [] => rfl
  | [x] => rfl
  | x :: y :: zs => simp [hl] at h

/-- A second condition on such a match. -/
theorem find?_and (h : xs.countP p ≤ 1) :
    xs.find? (fun x => p x && q x) = (xs.find? p).filter q := by
  have hsplit : (xs.filter fun x => p x && q x) = (xs.filter p).filter q := by
    rw [List.filter_filter]
    exact List.filter_congr fun x _ => Bool.and_comm _ _
  rw [← List.head?_filter, hsplit, filter_eq_find? h]
  cases xs.find? p with
  | none => rfl
  | some x => cases hq : q x <;> simp [hq, Option.filter_some]

theorem join_of_unique (h : ∀ x ∈ xs, ys.countP (on x) ≤ 1) :
    join on xs ys = xs.filterMap fun x => (ys.find? (on x)).map fun y => (x, y) := by
  rw [join, List.filterMap_eq_flatMap_toList]
  refine List.flatMap_congr fun x hx => ?_
  rw [filter_eq_find? (h x hx)]
  cases ys.find? (on x) <;> rfl

/-- A join that finds at most one match repeats no row. -/
theorem map_fst_join_sublist (h : ∀ x ∈ xs, ys.countP (on x) ≤ 1) :
    ((join on xs ys).map Prod.fst).Sublist xs := by
  rw [join_of_unique h, List.map_filterMap]
  have hkeep : (xs.filterMap fun x => ((ys.find? (on x)).map fun y => (x, y)).map Prod.fst) =
      xs.filter fun x => (ys.find? (on x)).isSome := by
    rw [← List.filterMap_eq_filter]
    refine List.filterMap_congr fun x _ => ?_
    cases hf : ys.find? (on x) <;> simp [hf, Option.guard]
  rw [hkeep]
  exact List.filter_sublist

/-- A `LEFT JOIN` that finds at most one match adds no row and loses none. -/
theorem leftJoin_of_unique (h : ∀ x ∈ xs, ys.countP (on x) ≤ 1) :
    leftJoin on xs ys = xs.map fun x => (x, ys.find? (on x)) := by
  rw [leftJoin, List.map_eq_flatMap]
  refine List.flatMap_congr fun x hx => ?_
  rw [filter_eq_find? (h x hx)]
  cases ys.find? (on x) <;> rfl

end Unique

/-! ## 3. Groups -/

section Groups

variable [DecidableEq κ]

/-- `GROUP BY`: each key that occurs, with its rows. -/
def groupBy (key : α → κ) (xs : List α) : List (κ × List α) :=
  (xs.map key).dedup.map fun k => (k, xs.filter fun x => key x == k)

/-- A group is not empty, and its rows are among those grouped. -/
theorem mem_groupBy {key : α → κ} {xs : List α} {g : κ × List α} (h : g ∈ groupBy key xs) :
    g.2 ≠ [] ∧ ∀ x ∈ g.2, x ∈ xs := by
  obtain ⟨k, hk, rfl⟩ := List.mem_map.mp h
  obtain ⟨x, hx, rfl⟩ := List.mem_map.mp (List.mem_dedup.mp hk)
  refine ⟨List.ne_nil_of_mem (a := x) (List.mem_filter.mpr ⟨hx, by simp⟩), fun y hy => ?_⟩
  exact List.mem_of_mem_filter hy

theorem dedup_filter (p : κ → Bool) (ks : List κ) : ks.dedup.filter p = (ks.filter p).dedup := by
  induction ks with
  | nil => rfl
  | cons k ks ih =>
    by_cases hk : k ∈ ks
    · rw [List.dedup_cons_of_mem hk, ih]
      cases hp : p k with
      | false => simp [hp]
      | true =>
        rw [List.filter_cons_of_pos hp,
          List.dedup_cons_of_mem (List.mem_filter.mpr ⟨hk, hp⟩)]
    · rw [List.dedup_cons_of_notMem hk]
      cases hp : p k with
      | false => simp [hp, ih]
      | true =>
        rw [List.filter_cons_of_pos hp, List.filter_cons_of_pos hp, ih,
          List.dedup_cons_of_notMem fun h => hk (List.mem_of_mem_filter h)]

/-- A condition on the key selects groups or rows alike. -/
theorem groupBy_filter (key : α → κ) (xs : List α) (p : κ → Bool) :
    (groupBy key xs).filter (fun g => p g.1) = groupBy key (xs.filter fun x => p (key x)) := by
  have hkeys : (xs.filter fun x => p (key x)).map key = (xs.map key).filter p := by
    rw [List.filter_map]
    rfl
  rw [groupBy, groupBy, hkeys, ← dedup_filter, List.filter_map]
  refine List.map_congr_left fun k hk => ?_
  have hp : p k = true := (List.mem_filter.mp hk).2
  simp only [Prod.mk.injEq, true_and, List.filter_filter]
  refine List.filter_congr fun x _ => ?_
  by_cases hx : key x = k
  · simp [hx, hp]
  · simp [hx]

/-- Rows that share their key are one group. -/
theorem groupBy_const {key : α → κ} {xs : List α} {k : κ} (h : ∀ x ∈ xs, key x = k) :
    groupBy key xs = if xs = [] then [] else [(k, xs)] := by
  cases xs with
  | nil => rfl
  | cons x rest =>
    have hkeys : (x :: rest).map key = List.replicate (rest.length + 1) k :=
      List.eq_replicate_iff.mpr ⟨by simp, by simpa using h⟩
    have hrows : ((x :: rest).filter fun y => key y == k) = x :: rest :=
      List.filter_eq_self.mpr fun y hy => by simp [h y hy]
    rw [groupBy, hkeys, List.replicate_dedup (by simp), List.map_singleton, hrows,
      if_neg (by simp)]

/-- Groups partition the rows. -/
theorem sum_length_groupBy (key : α → κ) (xs : List α) :
    ((groupBy key xs).map fun g => g.2.length).sum = xs.length := by
  have hcount : ∀ k, (xs.filter fun x => key x == k).length = (xs.map key).count k := by
    intro k
    rw [← List.countP_eq_length_filter, List.count, List.countP_map]
    rfl
  have hlen : xs.length = (xs.map key).length := by simp
  rw [groupBy, List.map_map, hlen, ← List.sum_map_count_dedup_eq_length (xs.map key)]
  congr 1
  exact List.map_congr_left fun k _ => hcount k

theorem keys_groupBy (key : α → κ) (xs : List α) :
    (groupBy key xs).map Prod.fst = (xs.map key).dedup := by
  simp [groupBy, Function.comp_def]

theorem mem_groupBy_iff {key : α → κ} {xs : List α} {k : κ} {ys : List α} :
    (k, ys) ∈ groupBy key xs ↔
      k ∈ xs.map key ∧ ys = xs.filter fun x => decide (key x = k) := by
  simp only [groupBy, List.mem_map, List.mem_dedup, Prod.mk.injEq]
  constructor
  · rintro ⟨k', hk', rfl, rfl⟩
    exact ⟨hk', rfl⟩
  · rintro ⟨hk, rfl⟩
    exact ⟨k, hk, rfl, rfl⟩

/-- An aggregate of the groups, looked up under a key. -/
theorem lookup_groupBy {β : Type} (key : α → κ) (f : List α → β) (xs : List α) (k : κ) :
    ((groupBy key xs).map fun g => (g.1, f g.2)).lookup k =
      if k ∈ xs.map key then some (f (xs.filter fun x => key x == k)) else none := by
  rw [groupBy, List.map_map]
  split
  · rename_i hk
    exact List.lookup_graph _ (List.mem_dedup.mpr hk)
  · rename_i hk
    rw [List.lookup_eq_none_iff]
    intro x hx
    obtain ⟨k', hk', rfl⟩ := List.mem_map.mp hx
    have hne : k ≠ k' := fun h => hk (h ▸ List.mem_dedup.mp hk')
    simpa using hne

/-- The rows taken key by key, over any list of distinct keys that has all of theirs. -/
theorem sum_filter_keys {M : Type} [AddCommMonoid M] (key : α → κ) (f : α → M) {xs : List α}
    {ks : List κ} (hnd : ks.Nodup) (hall : ∀ x ∈ xs, key x ∈ ks) :
    (ks.map fun k => ((xs.filter fun x => key x == k).map f).sum).sum = (xs.map f).sum := by
  induction ks generalizing xs with
  | nil =>
    cases xs with
    | nil => rfl
    | cons x xs => exact absurd (hall x List.mem_cons_self) (by simp)
  | cons k ks ih =>
    obtain ⟨hk, hnd⟩ := List.nodup_cons.mp hnd
    have hothers : ∀ x ∈ xs.filter fun x => !(key x == k), key x ∈ ks := by
      intro x hx
      obtain ⟨hx, hne⟩ := List.mem_filter.mp hx
      exact (List.mem_cons.mp (hall x hx)).resolve_left (by simpa using hne)
    have hrest := ih hnd hothers
    have hsame : (ks.map fun k' => (((xs.filter fun x => !(key x == k)).filter
        fun x => key x == k').map f).sum) =
        ks.map fun k' => ((xs.filter fun x => key x == k').map f).sum := by
      refine List.map_congr_left fun k' hk' => ?_
      rw [List.filter_filter]
      congr 2
      refine List.filter_congr fun x _ => ?_
      have hne : k' ≠ k := fun h => hk (h ▸ hk')
      by_cases hx : key x = k'
      · simp [hx, hne]
      · simp [hx]
    have hperm := (List.filter_append_perm (fun x => key x == k) xs).map f
    rw [List.map_cons, List.sum_cons, ← hsame, hrest, ← hperm.sum_eq, List.map_append,
      List.sum_append]

end Groups

/-! ## 4. Order -/

/-- The order in which the database returns rows that `ORDER BY` does not tell apart. -/
structure TieOrder (α : Type) where
  rows : List α → List α
  perm : ∀ xs, (rows xs).Perm xs

/-- `ORDER BY`. -/
def orderBy (le : α → α → Bool) (xs : List α) : List α := xs.mergeSort le

theorem orderBy_perm (le : α → α → Bool) (xs : List α) : (orderBy le xs).Perm xs :=
  List.mergeSort_perm xs le

section Limit

variable {le : α → α → Bool} (htrans : ∀ x y z, le x y = true → le y z = true → le x z = true)
  (htotal : ∀ x y, (le x y || le y x) = true)

include htrans htotal

theorem orderBy_pairwise (xs : List α) : (orderBy le xs).Pairwise fun x y => le x y = true :=
  List.pairwise_mergeSort htrans htotal xs

/-- What `ORDER BY .. LIMIT n` leaves out comes behind `n` rows that it returns. -/
theorem limit_of_not_mem {n : Nat} {xs : List α} {x : α} (hx : x ∈ xs)
    (hout : x ∉ (orderBy le xs).take n) :
    ((orderBy le xs).take n).length = n ∧ ∀ y ∈ (orderBy le xs).take n, le y x = true := by
  have hsorted := orderBy_pairwise htrans htotal xs
  have hmem := (orderBy_perm le xs).mem_iff.mpr hx
  rw [← List.take_append_drop n (orderBy le xs)] at hsorted hmem
  have hdrop : x ∈ (orderBy le xs).drop n := (List.mem_append.mp hmem).resolve_left hout
  refine ⟨?_, fun y hy => (List.pairwise_append.mp hsorted).2.2 y hy x hdrop⟩
  have hlt : n < (orderBy le xs).length := by
    have := List.length_pos_of_mem hdrop
    rw [List.length_drop] at this
    omega
  rw [List.length_take, Nat.min_eq_left (Nat.le_of_lt hlt)]

end Limit

/-- Order does not matter for a selection of at most one row. -/
theorem filter_orderBy {le : α → α → Bool} {xs : List α} {p : α → Bool}
    (h : (xs.filter p).length ≤ 1) : (orderBy le xs).filter p = xs.filter p := by
  have hperm := (orderBy_perm le xs).filter p
  match hl : xs.filter p with
  | [] => exact List.perm_nil.mp (hl ▸ hperm)
  | [x] => exact List.perm_singleton.mp (hl ▸ hperm)
  | x :: y :: zs => simp [hl] at h

/-! ## 5. Bounds -/

/-- A number between two rationals; NaN is above all of them. -/
def Between (a b : ℚ) (x : Numeric) : Prop := ∃ q : ℚ, x = q ∧ a ≤ q ∧ q ≤ b

theorem sum_between {a b : ℚ} {xs : List Numeric} (h : ∀ x ∈ xs, Between a b x) :
    Between (xs.length * a) (xs.length * b) xs.sum := by
  induction xs with
  | nil => exact ⟨0, by simp, by simp, by simp⟩
  | cons x xs ih =>
    obtain ⟨q, rfl, ha, hb⟩ := h x (by simp)
    obtain ⟨p, hp, hpa, hpb⟩ := ih fun y hy => h y (by simp [hy])
    refine ⟨q + p, by simp [hp], ?_, ?_⟩
    · rw [List.length_cons, Nat.cast_succ, add_mul, one_mul, add_comm]
      exact add_le_add ha hpa
    · rw [List.length_cons, Nat.cast_succ, add_mul, one_mul, add_comm]
      exact add_le_add hpb hb

/-- An average lies where the averaged values do. -/
theorem avg_between {a b : ℚ} {xs : List (Option Numeric)} {y : Numeric}
    (h : ∀ x, some x ∈ xs → Between a b x) (hy : avg xs = some y) : Between a b y := by
  obtain ⟨s, hs, rfl⟩ := Option.map_eq_some_iff.mp hy
  rw [sum] at hs
  split at hs
  · exact absurd hs (by simp)
  · rename_i hne
    obtain rfl := Option.some.inj hs
    have hmem : ∀ x ∈ xs.reduceOption, Between a b x := fun x hx =>
      h x (List.reduceOption_mem_iff.mp hx)
    obtain ⟨q, hq, ha, hb⟩ := sum_between hmem
    have hpos : (0 : ℚ) < xs.reduceOption.length := by
      exact_mod_cast List.length_pos_iff.mpr hne
    refine ⟨q / xs.reduceOption.length, by rw [hq]; rfl, ?_, ?_⟩
    · rw [le_div_iff₀ hpos, mul_comm]
      exact ha
    · rw [div_le_iff₀ hpos, mul_comm]
      exact hb

/-- Rounding stays within whole bounds. -/
theorem round_between {n : ℕ} {x : Numeric} (digits : Nat) (h : Between 0 n x) :
    Between 0 n (round digits x) := by
  obtain ⟨q, rfl, h0, hn⟩ := h
  refine ⟨roundAway digits q, rfl, ?_, ?_⟩
  · have hfloor : (0 : ℤ) ≤ ⌊|q| * 10 ^ digits + 1 / 2⌋ := Int.floor_nonneg.mpr (by positivity)
    have hcast : (0 : ℚ) ≤ ⌊|q| * 10 ^ digits + 1 / 2⌋ := by exact_mod_cast hfloor
    simp only [roundAway, if_neg (not_lt.mpr h0)]
    positivity
  · simp only [roundAway, if_neg (not_lt.mpr h0), abs_of_nonneg h0]
    rw [div_le_iff₀ (by positivity)]
    have hlt : ⌊q * 10 ^ digits + 1 / 2⌋ < (n : ℤ) * 10 ^ digits + 1 := by
      rw [Int.floor_lt]
      push_cast
      have hmul : q * 10 ^ digits ≤ n * 10 ^ digits := by gcongr
      linarith
    exact_mod_cast Int.lt_add_one_iff.mp hlt

end Sql
