/-
# Row versions of open transactions

`READ COMMITTED` with row locks, for one table.  A transaction that updates a row writes a new
version of it, which it alone sees, and nobody else can update the row before it commits or
rolls back.  `Pending` holds these versions under the key of their row, each with the
transaction that wrote it; that a row has one holder at most is the primary key of that table.

A statement sees the committed rows and its own transaction's versions (`sees`).  `update` is
`UPDATE .. WHERE id = k AND ..` and answers `none` when it has to wait for the row.
-/
import EvalHarness.Lib.Table

namespace Table

variable {κ ρ : Type} [DecidableEq κ]

/-! ## 1. Replacing and removing rows -/

/-- The rows that satisfy `p`. -/
def filterRows (t : Table κ ρ) (p : κ → ρ → Bool) : Table κ ρ :=
  ⟨t.rows.filter fun x => p x.1 x.2,
    (List.filter_sublist.map Prod.fst).nodup t.nodup⟩

/-- The table with row `r` under key `k`, whatever was there before. -/
def put (t : Table κ ρ) (k : κ) (r : ρ) : Table κ ρ where
  rows := (k, r) :: (t.filterRows fun k' _ => k' != k).rows
  nodup := by
    refine List.nodup_cons.mpr ⟨?_, (t.filterRows _).nodup⟩
    simp [filterRows]

theorem get_filterRows (t : Table κ ρ) (p : κ → ρ → Bool) (k : κ) :
    (t.filterRows p).get k = (t.get k).filter (p k) := by
  cases h : (t.get k).filter (p k) with
  | some r =>
    obtain ⟨hk, hp⟩ := Option.filter_eq_some_iff.mp h
    refine (mem_rows_iff _).mp (List.mem_filter.mpr ⟨t.mem_rows_iff.mpr hk, hp⟩)
  | none =>
    refine (get_eq_none_iff _).mpr fun hmem => ?_
    obtain ⟨⟨k', r⟩, hx, rfl⟩ := List.mem_map.mp hmem
    obtain ⟨hr, hp⟩ := List.mem_filter.mp hx
    rw [t.mem_rows_iff.mp hr] at h
    simp [Option.filter, hp] at h

@[simp] theorem get_put (t : Table κ ρ) (k k' : κ) (r : ρ) :
    (t.put k r).get k' = if k' = k then some r else t.get k' := by
  have htail : (t.filterRows fun k' _ => k' != k).rows.lookup k' =
      (t.get k').filter fun _ => k' != k := get_filterRows t _ k'
  by_cases hk : k' = k
  · subst hk
    simp [put, get]
  · have hbeq : (k' == k) = false := by simpa using hk
    simp only [put, get, List.lookup_cons, hbeq, if_neg hk]
    rw [htail]
    cases ht : t.get k' <;> simp [Option.filter, hk, ← ht, get]

end Table

/-- The uncommitted row versions of a table, under the keys of their rows, each with the
transaction that holds the row. -/
abbrev Pending (O κ ρ : Type) := Table κ (O × ρ)

namespace Pending

variable {O κ ρ : Type} [DecidableEq O] [DecidableEq κ]

/-! ## 2. Statements and transactions -/

/-- The version of row `k` that transaction `o` has written. -/
def own (p : Pending O κ ρ) (o : O) (k : κ) : Option ρ :=
  ((p.get k).filter fun x => x.1 = o).map Prod.snd

/-- Row `k` as a statement of transaction `o` sees it. -/
def sees (p : Pending O κ ρ) (t : Table κ ρ) (o : O) (k : κ) : Option ρ :=
  (p.own o k).or (t.get k)

/-- `UPDATE .. SET f WHERE id = k AND g` in transaction `o`: the versions afterwards, or `none`
when another transaction holds the row. -/
def update (p : Pending O κ ρ) (t : Table κ ρ) (o : O) (k : κ) (g : ρ → Bool) (f : ρ → ρ) :
    Option (Pending O κ ρ) :=
  match p.sees t o k with
  | none => some p
  | some r =>
    if g r then
      if (p.get k).all fun x => x.1 = o then some (p.put k (o, f r)) else none
    else some p

/-- The committed rows after transaction `o` has committed. -/
def commit (p : Pending O κ ρ) (t : Table κ ρ) (o : O) : Table κ ρ :=
  t.mapRows fun k r => (p.own o k).getD r

/-- The versions that are left when transaction `o` is over. -/
def release (p : Pending O κ ρ) (o : O) : Pending O κ ρ := p.filterRows fun _ x => x.1 ≠ o

/-- Going from `t` to `t'` leaves every held row alone. -/
def spares [DecidableEq ρ] (p : Pending O κ ρ) (t t' : Table κ ρ) : Bool :=
  p.keys.all fun k => t'.get k == t.get k

/-! ## 3. What holds of them -/

theorem own_eq_some {p : Pending O κ ρ} {o : O} {k : κ} {r : ρ} :
    p.own o k = some r ↔ p.get k = some (o, r) := by
  simp only [own, Option.map_eq_some_iff, Option.filter_eq_some_iff, decide_eq_true_eq]
  constructor
  · rintro ⟨⟨o', r'⟩, ⟨hk, rfl⟩, rfl⟩
    exact hk
  · intro hk
    exact ⟨(o, r), ⟨hk, rfl⟩, rfl⟩

theorem own_eq_none {p : Pending O κ ρ} {o : O} {k : κ} (h : ∀ r, p.get k ≠ some (o, r)) :
    p.own o k = none := by
  cases ho : p.own o k with
  | none => rfl
  | some r => exact absurd (own_eq_some.mp ho) (h r)

/-- Without a version of one's own, one sees what is committed. -/
theorem sees_committed {p : Pending O κ ρ} {t : Table κ ρ} {o : O} {k : κ}
    (h : ∀ r, p.get k ≠ some (o, r)) : p.sees t o k = t.get k := by
  rw [sees, own_eq_none h, Option.none_or]

/-- **Updates**: an update that does not wait misses, or its transaction holds the row now. -/
theorem update_eq_some {p p' : Pending O κ ρ} {t : Table κ ρ} {o : O} {k : κ} {g : ρ → Bool}
    {f : ρ → ρ} (h : p.update t o k g f = some p') :
    (p' = p ∧ ∀ r, p.sees t o k = some r → g r = false) ∨
      ∃ r, p.sees t o k = some r ∧ g r = true ∧ (∀ o' r', p.get k = some (o', r') → o' = o) ∧
        p' = p.put k (o, f r) := by
  simp only [update] at h
  split at h
  · rename_i hn
    exact Or.inl ⟨(Option.some.inj h).symm, fun r hr => absurd (hn.symm.trans hr) (by simp)⟩
  · rename_i r hr
    split at h
    · rename_i hg
      split at h
      · rename_i hfree
        refine Or.inr ⟨r, hr, hg, fun o' r' hk => ?_, (Option.some.inj h).symm⟩
        simpa [hk] using hfree
      · exact absurd h (by simp)
    · rename_i hg
      refine Or.inl ⟨(Option.some.inj h).symm, fun r' hr' => ?_⟩
      obtain rfl := Option.some.inj (hr.symm.trans hr')
      simpa using hg

/-- An update leaves the versions of the other transactions alone. -/
theorem get_update_of_ne {p p' : Pending O κ ρ} {t : Table κ ρ} {o o' : O} {k k' : κ}
    {g : ρ → Bool} {f : ρ → ρ} {r : ρ} (h : p.update t o k g f = some p') (ho : o' ≠ o)
    (hk : p.get k' = some (o', r)) : p'.get k' = some (o', r) := by
  rcases update_eq_some h with ⟨rfl, -⟩ | ⟨_, -, -, hfree, rfl⟩
  · exact hk
  · have hne : k' ≠ k := by
      rintro rfl
      exact ho (hfree _ _ hk)
    rw [Table.get_put, if_neg hne]
    exact hk

theorem get_commit (p : Pending O κ ρ) (t : Table κ ρ) (o : O) (k : κ) :
    (p.commit t o).get k = (t.get k).map fun r => (p.own o k).getD r := by
  simp [commit]

theorem get_release {p : Pending O κ ρ} {o o' : O} {k : κ} {r : ρ} :
    (p.release o).get k = some (o', r) ↔ p.get k = some (o', r) ∧ o' ≠ o := by
  simp [release, Table.get_filterRows, Option.filter_eq_some_iff]

theorem spares_iff {O κ ρ : Type} [DecidableEq κ] [DecidableEq ρ] {p : Pending O κ ρ} {t t' : Table κ ρ} :
    p.spares t t' = true ↔ ∀ k o r, p.get k = some (o, r) → t'.get k = t.get k := by
  simp only [spares, List.all_eq_true, beq_iff_eq]
  constructor
  · intro h k o r hk
    exact h k (Table.mem_keys_of_get hk)
  · intro h k hk
    obtain ⟨⟨k', x⟩, hmem, rfl⟩ := List.mem_map.mp hk
    exact h _ x.1 x.2 (p.mem_rows_iff.mp hmem)

/-! ## 4. A transaction that nobody interrupts -/

section Alone

variable {t : Table κ ρ} {o : O} {k : κ} {g : ρ → Bool} {f : ρ → ρ} {r : ρ}

/-- An update that finds nothing to do writes no version. -/
theorem update_of_miss {p : Pending O κ ρ} (h : ∀ r, p.sees t o k = some r → g r = false) :
    p.update t o k g f = some p := by
  simp only [update]
  split
  · rfl
  · rename_i r hr
    simp [h r hr]

theorem update_of_hit (h : t.get k = some r) (hg : g r = true) :
    update (Table.empty : Pending O κ ρ) t o k g f = some (Table.empty.put k (o, f r)) := by
  simp [update, sees, own, h, hg]

theorem commit_empty : commit (Table.empty : Pending O κ ρ) t o = t :=
  Table.mapRows_of_forall fun k r _ => by simp [own]

/-- Committing the version an update has written is updating the committed row. -/
theorem commit_of_hit (h : t.get k = some r) (hg : g r = true) :
    commit (Table.empty.put k (o, f r)) t o = t.updateWhere (fun k' r => k' == k && g r) f := by
  refine Table.mapRows_congr fun k' r' hr' => ?_
  by_cases hk : k' = k
  · subst hk
    obtain rfl := Option.some.inj (h.symm.trans hr')
    simp [own, hg, Option.filter]
  · simp [own, hk]

theorem release_put : release (Table.empty.put k (o, r)) o = (Table.empty : Pending O κ ρ) := by
  simp [release, Table.filterRows, Table.put, Table.empty]

theorem release_empty {O κ ρ : Type} [DecidableEq O] {o : O} :
    release (Table.empty : Pending O κ ρ) o = Table.empty := rfl

/-- **Alone**: an update and its commit with nothing in between are the update of the committed
rows, and nothing stays held. -/
theorem update_alone (t : Table κ ρ) (o : O) (k : κ) (g : ρ → Bool) (f : ρ → ρ) :
    ∃ p : Pending O κ ρ, update Table.empty t o k g f = some p ∧
      p.commit t o = t.updateWhere (fun k' r => k' == k && g r) f ∧
      p.release o = Table.empty := by
  by_cases h : ∃ r, t.get k = some r ∧ g r = true
  · obtain ⟨r, hr, hg⟩ := h
    exact ⟨_, update_of_hit hr hg, commit_of_hit hr hg, release_put⟩
  · have hmiss : ∀ r, t.get k = some r → g r = false := by
      intro r hr
      by_contra hg
      exact h ⟨r, hr, by simpa using hg⟩
    exact ⟨_, update_of_miss hmiss, by rw [commit_empty, Table.updateWhere_of_miss hmiss],
      release_empty⟩

end Alone

end Pending
