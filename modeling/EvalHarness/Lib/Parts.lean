/-
# Systems made of parts

A system has parts `p : π` when every permitted move is on one of them (`owner s l`), leaves every
other part as it is (`frame`), and does to its own part what that part alone decides (`congr`).
`Agree p s t` says that two states have the same part `p`; it may compare them up to whatever the
observer of the part cannot see.

* `Parts.agree`: the part `p` of where a run ends depends on the run's moves on `p` only, in their
  order, and on nothing else.
* `Parts.exists_merge`: two runs on different parts can be interleaved in every way, provided the
  moves of one are made by other parties (`slot`) than the moves of the other.
-/
import EvalHarness.Lib.Runs

namespace Lts

variable {S L π : Type} {step : S → L → Option S} {I : S → Prop} {ok : S → L → Prop}
  {owner : S → L → π} {Agree : π → S → S → Prop}

/-! ## 1. Parts -/

structure Parts (step : S → L → Option S) (I : S → Prop) (ok : S → L → Prop) (owner : S → L → π)
    (Agree : π → S → S → Prop) : Prop where
  refl : ∀ p s, Agree p s s
  symm : ∀ {p s t}, Agree p s t → Agree p t s
  trans : ∀ {p s t u}, Agree p s t → Agree p t u → Agree p s u
  keeps : ∀ {s l s'}, I s → ok s l → step s l = some s' → I s'
  /-- A move leaves every part but its own alone. -/
  frame : ∀ {s l s' p}, I s → ok s l → step s l = some s' → p ≠ owner s l → Agree p s s'
  /-- What it does to its own depends on that part. -/
  congr : ∀ {s t l s' t'}, I s → I t → ok s l → ok t l → owner t l = owner s l →
    Agree (owner s l) s t → step s l = some s' → step t l = some t' → Agree (owner s l) s' t'

/-! ## 2. The share of a part in a run -/

section Share

variable [DecidableEq π]

/-- The moves of a trace on a part. -/
def share (owner : S → L → π) (p : π) (tr : List (S × L)) : List L :=
  (tr.filter fun x => owner x.1 x.2 = p).map Prod.snd

@[simp] theorem share_nil (p : π) : share owner p [] = [] := rfl

theorem share_append (p : π) (tr tr' : List (S × L)) :
    share owner p (tr ++ tr') = share owner p tr ++ share owner p tr' := by
  simp [share]

theorem share_cons_own {s : S} {l : L} {tr : List (S × L)} (h : owner s l = p) :
    share owner p ((s, l) :: tr) = l :: share owner p tr := by
  simp [share, h]

theorem share_cons_other {s : S} {l : L} {tr : List (S × L)} (h : owner s l ≠ p) :
    share owner p ((s, l) :: tr) = share owner p tr := by
  simp [share, h]

theorem share_eq_nil {tr : List (S × L)} (h : Along (fun s l => owner s l ≠ p) tr) :
    share owner p tr = [] := by
  rw [share, List.map_eq_nil_iff, List.filter_eq_nil_iff]
  intro x hx
  simpa using h x hx

/-- The last move on a part: behind it, the part stays. -/
theorem Parts.last_move (hP : Parts step I ok owner Agree) {p : π} {s₀ : S} (h0 : I s₀)
    {tr : List (S × L)} {s : S} (h : Run step s₀ tr s) (hok : Along ok tr) {ls : List L} {l : L}
    (hshare : share owner p tr = ls ++ [l]) :
    ∃ tr' t t', Run step s₀ tr' t ∧ Along ok tr' ∧ share owner p tr' = ls ∧ ok t l ∧
      owner t l = p ∧ step t l = some t' ∧ Agree p t' s := by
  induction h with
  | nil => exact absurd hshare (by simp)
  | @snoc tr s k s' hrun hs ih =>
    obtain ⟨hpre, hk⟩ := Along.snoc.mp hok
    have hI : I s := hrun.invariant (fun _ _ _ hi hl hstep => hP.keeps hi hl hstep) hpre h0
    by_cases hown : owner s k = p
    · rw [share_append, share_cons_own hown, share_nil] at hshare
      obtain ⟨rfl, hkl⟩ := List.append_inj' hshare rfl
      obtain rfl := (List.cons.inj hkl).1
      exact ⟨tr, s, s', hrun, hpre, rfl, hk, hown, hs, hP.refl _ _⟩
    · rw [share_append, share_cons_other hown, share_nil, List.append_nil] at hshare
      obtain ⟨tr', t, t', h1, h2, h3, h4, h5, h6, h7⟩ := ih hpre hshare
      exact ⟨tr', t, t', h1, h2, h3, h4, h5, h6,
        hP.trans h7 (hP.frame hI hk hs (Ne.symm hown))⟩

/-- **A part is determined by the moves on it.** -/
theorem Parts.agree (hP : Parts step I ok owner Agree) {p : π} {s₀ : S} (h0 : I s₀)
    {tr₁ tr₂ : List (S × L)} {s₁ s₂ : S} (h₁ : Run step s₀ tr₁ s₁) (h₂ : Run step s₀ tr₂ s₂)
    (hok₁ : Along ok tr₁) (hok₂ : Along ok tr₂)
    (hshare : share owner p tr₁ = share owner p tr₂) : Agree p s₁ s₂ := by
  have keep : ∀ {tr : List (S × L)} {s : S}, Run step s₀ tr s → Along ok tr → I s :=
    fun h hok => h.invariant (fun _ _ _ hi hl hstep => hP.keeps hi hl hstep) hok h0
  induction h₁ generalizing tr₂ s₂ with
  | nil =>
    -- No move of the other run is on the part.
    induction h₂ with
    | nil => exact hP.refl _ _
    | @snoc tr s l s' hrun hs ih =>
      obtain ⟨hpre, hl⟩ := Along.snoc.mp hok₂
      have hown : owner s l ≠ p := by
        intro hown
        rw [share_append, share_cons_own hown] at hshare
        exact absurd hshare (by simp)
      rw [share_append, share_cons_other hown, share_nil, List.append_nil] at hshare
      exact hP.trans (ih hpre hshare) (hP.frame (keep hrun hpre) hl hs (Ne.symm hown))
  | @snoc tr s l s' hrun hs ih =>
    obtain ⟨hpre, hl⟩ := Along.snoc.mp hok₁
    by_cases hown : owner s l = p
    · rw [share_append, share_cons_own hown, share_nil] at hshare
      obtain ⟨tr', t, t', hrun', hok', hsh', htl, hown', hst', hag⟩ :=
        hP.last_move h0 h₂ hok₂ hshare.symm
      have hst : Agree p s t := ih hrun' hpre hok' hsh'.symm
      have := hP.congr (keep hrun hpre) (keep hrun' hok') hl htl (hown'.trans hown.symm)
        (hown.symm ▸ hst) hs hst'
      exact hP.trans (hown ▸ this) hag
    · rw [share_append, share_cons_other hown, share_nil, List.append_nil] at hshare
      exact hP.trans (hP.symm (hP.frame (keep hrun hpre) hl hs (Ne.symm hown)))
        (ih h₂ hpre hok₂ hshare)

end Share

/-! ## 3. Interleaving two runs -/

/-- `Merge xs ys zs`: `zs` is an interleaving of `xs` and `ys`. -/
inductive Merge {α : Type} : List α → List α → List α → Prop
  | nil : Merge [] [] []
  | left {x : α} {xs ys zs : List α} : Merge xs ys zs → Merge (x :: xs) ys (x :: zs)
  | right {y : α} {xs ys zs : List α} : Merge xs ys zs → Merge xs (y :: ys) (y :: zs)

theorem Merge.nil_left {α : Type} : ∀ ys : List α, Merge [] ys ys
  | [] => .nil
  | _ :: ys => .right (nil_left ys)

theorem Merge.nil_right {α : Type} : ∀ xs : List α, Merge xs [] xs
  | [] => .nil
  | _ :: xs => .left (nil_right xs)

/-- One sequence after the other is an interleaving, in both orders. -/
theorem Merge.append {α : Type} (ys : List α) : ∀ xs : List α, Merge xs ys (xs ++ ys)
  | [] => nil_left ys
  | _ :: xs => .left (append ys xs)

theorem Merge.append_swap {α : Type} (xs : List α) : ∀ ys : List α, Merge xs ys (ys ++ xs)
  | [] => nil_right xs
  | _ :: ys => .right (append_swap xs ys)

/-- Every move is made by one party, and whether it can be made is decided by that party and by
the part the move is on. -/
structure Parties {κ A : Type} (step : S → L → Option S) (I : S → Prop) (ok : S → L → Prop)
    (owner : S → L → π) (Agree : π → S → S → Prop) (slot : L → κ) (party : S → κ → A) : Prop where
  elsewhere : ∀ {s l s' k}, I s → ok s l → step s l = some s' → k ≠ slot l →
    party s' k = party s k
  enabled : ∀ {s t l s'}, I s → I t → ok s l → Agree (owner s l) s t →
    party s (slot l) = party t (slot l) → step s l = some s' →
    ∃ t', step t l = some t' ∧ ok t l ∧ owner t l = owner s l ∧
      party s' (slot l) = party t' (slot l)

section Merging

variable {κ A : Type} {slot : L → κ} {party : S → κ → A}

/-- What a state that agrees with `t` on part `p`, and on the parties of `ls`, does when `t` makes
the first move of `ls`. -/
theorem Parties.follow (hQ : Parties step I ok owner Agree slot party)
    (hP : Parts step I ok owner Agree) {p : π} {s t t' : S} {l : L} {ls : List L}
    (hs : I s) (ht : I t) (hl : ok t l) (hown : owner t l = p) (hag : Agree p s t)
    (hslots : ∀ k ∈ l :: ls, party s (slot k) = party t (slot k)) (hst : step t l = some t') :
    ∃ s', step s l = some s' ∧ ok s l ∧ owner s l = p ∧ I s' ∧ Agree p s' t' ∧
      ∀ k ∈ ls, party s' (slot k) = party t' (slot k) := by
  subst hown
  obtain ⟨s', hss, hok, hown, hpl⟩ := hQ.enabled ht hs hl (hP.symm hag)
    (hslots l (by simp)).symm hst
  have hag' : Agree (owner t l) t' s' := hP.congr ht hs hl hok hown (hP.symm hag) hst hss
  refine ⟨s', hss, hok, hown, hP.keeps hs hok hss, hP.symm hag', fun k hk => ?_⟩
  by_cases hkl : slot k = slot l
  · rw [hkl, hpl]
  · rw [hQ.elsewhere hs hok hss hkl, hQ.elsewhere ht hl hst hkl]
    exact hslots k (List.mem_cons_of_mem _ hk)

/-- A run of a first move and a rest. -/
theorem Run.cons_inv {s s' : S} {tr : List (S × L)} {l : L} {ls : List L}
    (h : Run step s tr s') (hls : tr.map Prod.snd = l :: ls) :
    ∃ t tr', tr = (s, l) :: tr' ∧ step s l = some t ∧ Run step t tr' s' ∧
      tr'.map Prod.snd = ls := by
  cases tr with
  | nil => exact absurd hls (by simp)
  | cons x tr' =>
    obtain ⟨u, k⟩ := x
    rw [List.map_cons] at hls
    obtain ⟨rfl, hls'⟩ := List.cons.inj hls
    rw [← List.nil_append ((u, k) :: tr')] at h
    obtain ⟨h0, t, hst, hrest⟩ := h.at
    have hu : u = s := by
      generalize hnil : ([] : List (S × L)) = tr₀ at h0
      cases h0 with
      | nil => rfl
      | snoc => exact absurd hnil (by simp)
    subst hu
    exact ⟨t, tr', rfl, hst, hrest, hls'⟩

variable [DecidableEq π]

/-- **Every interleaving of two runs on different parts is a run**, in which each part sees the
moves of its run. -/
theorem Parts.exists_merge (hP : Parts step I ok owner Agree)
    (hQ : Parties step I ok owner Agree slot party) {p q : π} (hpq : p ≠ q)
    {xs ys zs : List L} (hm : Merge xs ys zs) (hxy : ∀ x ∈ xs, ∀ y ∈ ys, slot x ≠ slot y)
    {s t u t' u' : S} {tr tr' : List (S × L)} (hs : I s) (ht : I t) (hu : I u)
    (hx : Run step t tr t') (hxs : tr.map Prod.snd = xs)
    (hxo : Along (fun s l => ok s l ∧ owner s l = p) tr)
    (hy : Run step u tr' u') (hys : tr'.map Prod.snd = ys)
    (hyo : Along (fun s l => ok s l ∧ owner s l = q) tr')
    (hst : Agree p s t) (hsu : Agree q s u)
    (hxp : ∀ x ∈ xs, party s (slot x) = party t (slot x))
    (hyp : ∀ y ∈ ys, party s (slot y) = party u (slot y)) :
    ∃ tr s', Run step s tr s' ∧ tr.map Prod.snd = zs ∧
      Along (fun s l => owner s l = p ∨ owner s l = q) tr ∧
      share owner p tr = xs ∧ share owner q tr = ys := by
  induction hm generalizing s t u tr tr' with
  | nil => exact ⟨[], s, Run.nil, rfl, by simp [Along], rfl, rfl⟩
  | @left x xs ys zs _ ih =>
    obtain ⟨t₁, tr₁, rfl, hstep, hrest, hxs₁⟩ := hx.cons_inv hxs
    have hx0 := hxo (t, x) (by simp)
    obtain ⟨s₁, hss, hok, hown, hI, hag, hslots⟩ :=
      hQ.follow hP hs ht hx0.1 hx0.2 hst hxp hstep
    have hq : Agree q s s₁ := hP.frame hs hok hss (by rw [hown]; exact hpq.symm)
    obtain ⟨tr₂, s', hrun, hls, hall, hp, hq'⟩ := ih
      (fun x' hx' => hxy x' (List.mem_cons_of_mem _ hx')) hI (hP.keeps ht hx0.1 hstep) hu hrest
      hxs₁ (fun e he => hxo e (List.mem_cons_of_mem _ he)) hy hys hyo hag
      (hP.trans (hP.symm hq) hsu) hslots
      (fun y hy => (hQ.elsewhere hs hok hss (hxy x (by simp) y hy).symm).trans (hyp y hy))
    refine ⟨(s, x) :: tr₂, s', Run.cons hss hrun, by simp [hls], ?_, ?_, ?_⟩
    · intro e he
      rcases List.mem_cons.mp he with rfl | he
      · exact Or.inl hown
      · exact hall e he
    · rw [share_cons_own hown, hp]
    · rw [share_cons_other (by rw [hown]; exact hpq), hq']
  | @right y xs ys zs _ ih =>
    obtain ⟨u₁, tr₁, rfl, hstep, hrest, hys₁⟩ := hy.cons_inv hys
    have hy0 := hyo (u, y) (by simp)
    obtain ⟨s₁, hss, hok, hown, hI, hag, hslots⟩ :=
      hQ.follow hP hs hu hy0.1 hy0.2 hsu hyp hstep
    have hp : Agree p s s₁ := hP.frame hs hok hss (by rw [hown]; exact hpq)
    obtain ⟨tr₂, s', hrun, hls, hall, hp', hq⟩ := ih
      (fun x hx y' hy' => hxy x hx y' (List.mem_cons_of_mem _ hy')) hI ht
      (hP.keeps hu hy0.1 hstep) hx hxs hxo hrest hys₁
      (fun e he => hyo e (List.mem_cons_of_mem _ he)) (hP.trans (hP.symm hp) hst) hag
      (fun x hx => (hQ.elsewhere hs hok hss (hxy x hx y (by simp))).trans (hxp x hx)) hslots
    refine ⟨(s, y) :: tr₂, s', Run.cons hss hrun, by simp [hls], ?_, ?_, ?_⟩
    · intro e he
      rcases List.mem_cons.mp he with rfl | he
      · exact Or.inr hown
      · exact hall e he
    · rw [share_cons_other (by rw [hown]; exact hpq.symm), hp']
    · rw [share_cons_own hown, hq]

end Merging

end Lts
