/-
# The review desk (`app/api/v1/review_queue.py`)

A reviewer claims an open item and resolves a claimed one.  Both handlers are one guarded update,
committed at once, and a read behind it: the row count says whether the request was granted, and
the read supplies the answer.  Any number of requests may be under way; between a request's
update and its read anything can happen, another request on the same item included.

`review_lifecycle` is what the guards give: an item moves `open -> claimed -> resolved`, by one
claim and one resolve, and its four nullable columns say no more and no less than its status.
-/
import EvalHarness.Scores
import EvalHarness.Api
import EvalHarness.Lib.Runs

namespace EvalHarness

open Lts

/-! ## 1. The handlers -/

/-- The request body. -/
structure ResolveRequest where
  label : UnitFloat
  notes : Option String := none
  deriving DecidableEq

/-- `UPDATE review_item SET f WHERE id = k AND status = status`: the new table, and whether
`updated_rowcount` is 1. -/
def updateReview (reviews : Table ReviewId ReviewItem) (k : ReviewId) (status : ReviewStatus)
    (f : ReviewItem → ReviewItem) : Table ReviewId ReviewItem × Bool :=
  let guard := fun k' (row : ReviewItem) => k' == k && row.status == status
  (reviews.updateWhere guard f, reviews.count guard == 1)

theorem updateReview_get (reviews : Table ReviewId ReviewItem) (k : ReviewId) (st : ReviewStatus)
    (f : ReviewItem → ReviewItem) (k' : ReviewId) :
    (updateReview reviews k st f).1.get k' =
      (reviews.get k').map fun row => if k' = k ∧ row.status = st then f row else row := by
  simp [updateReview]

theorem updateReview_hit {reviews : Table ReviewId ReviewItem} {k : ReviewId} {st : ReviewStatus}
    {f : ReviewItem → ReviewItem} :
    (updateReview reviews k st f).2 = true ↔ ∃ row, reviews.get k = some row ∧ row.status = st := by
  have h := Table.count_key_eq_one (t := reviews) (k := k) (g := fun row => row.status == st)
  simpa [updateReview] using h

theorem updateReview_miss {reviews : Table ReviewId ReviewItem} {k : ReviewId} {st : ReviewStatus}
    {f : ReviewItem → ReviewItem} (h : (updateReview reviews k st f).2 = false) :
    (updateReview reviews k st f).1 = reviews := by
  simp only [updateReview]
  refine Table.updateWhere_of_miss fun row hrow => ?_
  by_contra hst
  rw [updateReview_hit.mpr ⟨row, hrow, by simpa using hst⟩] at h
  exact absurd h (by simp)

/-- The update of `claim_review_item`. -/
def claimReviewItem (reviews : Table ReviewId ReviewItem) (k : ReviewId) (now : Timestamp) :
    Table ReviewId ReviewItem × Bool :=
  updateReview reviews k .open fun row => { row with status := .claimed, claimedAt := some now }

/-- The update of `resolve_review_item`. -/
def resolveReviewItem (reviews : Table ReviewId ReviewItem) (k : ReviewId)
    (payload : ResolveRequest) (now : Timestamp) : Table ReviewId ReviewItem × Bool :=
  updateReview reviews k .claimed fun row =>
    { row with
      status := .resolved
      reviewerLabel := some payload.label.score
      reviewerNotes := payload.notes
      resolvedAt := some now }

/-- The `.value` of a review status. -/
def ReviewStatus.value : ReviewStatus → String
  | .open => "open"
  | .claimed => "claimed"
  | .resolved => "resolved"

/-- Where a request stands behind its update. -/
inductive ReviewRequest
  /-- The update hit its row. -/
  | granted (k : ReviewId)
  | claimRefused (k : ReviewId)
  | resolveRefused (k : ReviewId)
  deriving DecidableEq

/-- The read behind a refused update, and the answer made of it. -/
def refuse (reviews : Table ReviewId ReviewItem) (k : ReviewId) (detail : String → String) :
    Except HttpError ReviewItem :=
  match reviews.get k with
  | none => .error ⟨404, "Review item not found"⟩
  | some row => .error ⟨409, detail row.status.value⟩

/-- The answer of a request; `none` stands for the failed assertion that a granted item exists. -/
def ReviewRequest.answer (reviews : Table ReviewId ReviewItem) :
    ReviewRequest → Option (Except HttpError ReviewItem)
  | .granted k => (reviews.get k).map .ok
  | .claimRefused k => some (refuse reviews k fun value => s!"review item is {value}, cannot claim")
  | .resolveRefused k =>
    some (refuse reviews k fun value => s!"review item is {value}; resolve requires claimed")

/-! ## 2. The desk -/

/-- The `review_item` table and the requests under way; `η` are the request slots. -/
structure Desk (η : Type) where
  reviews : Table ReviewId ReviewItem
  requests : η → Option ReviewRequest

inductive DeskLabel (η : Type)
  /-- The grading pipeline commits a review item. -/
  | insert (k : ReviewId) (rid : ItemId) (reason : ReviewReason)
  /-- `POST /v1/review-queue/{k}/claim` up to its commit. -/
  | claim (h : η) (k : ReviewId) (now : Timestamp)
  /-- `POST /v1/review-queue/{k}/resolve` up to its commit. -/
  | resolve (h : η) (k : ReviewId) (payload : ResolveRequest) (now : Timestamp)
  /-- The read of a request, and its answer. -/
  | read (h : η)
  /-- A request ends without its read. -/
  | drop (h : η)

variable {η : Type} [DecidableEq η]

def Desk.init : Desk η := ⟨Table.empty, fun _ => none⟩

def Desk.setRequest (d : Desk η) (h : η) (x : Option ReviewRequest) : Desk η :=
  { d with requests := Function.update d.requests h x }

/-- The row `grade_run_item` adds. -/
def openReview (rid : ItemId) (reason : ReviewReason) : ReviewItem := { runItemId := rid, reason }

/-- The worker's commit adds such rows and no others. -/
theorem insertGrades_reviews (db : Db) (rid : ItemId) (gs : List NewGrade)
    (review : Option ReviewReason) :
    (insertGrades db rid gs review).reviews = db.reviews ++ review.toList.map (openReview rid) := rfl

/-- The transitions of the desk. -/
def deskStep (d : Desk η) : DeskLabel η → Option (Desk η)
  | .insert k rid reason =>
    (d.reviews.insertAll [(k, openReview rid reason)]).map fun reviews => { d with reviews }
  | .claim h k now =>
    if d.requests h ≠ none then none
    else
      let (reviews, granted) := claimReviewItem d.reviews k now
      some ({ d with reviews }.setRequest h (some (if granted then .granted k else .claimRefused k)))
  | .resolve h k payload now =>
    if d.requests h ≠ none then none
    else
      let (reviews, granted) := resolveReviewItem d.reviews k payload now
      some ({ d with reviews }.setRequest h
        (some (if granted then .granted k else .resolveRefused k)))
  | .read h => if d.requests h = none then none else some (d.setRequest h none)
  | .drop h => if d.requests h = none then none else some (d.setRequest h none)

variable {d d' : Desk η}

/-! ## 3. What one step can do -/

/-- The status of a review item, as it is stored. -/
def Desk.statusOf (d : Desk η) (k : ReviewId) : Option ReviewStatus :=
  (d.reviews.get k).map ReviewItem.status

theorem Desk.statusOf_eq_some {η : Type} {d : Desk η} {k : ReviewId} {st : ReviewStatus} :
    d.statusOf k = some st ↔ ∃ row, d.reviews.get k = some row ∧ row.status = st := by
  simp [Desk.statusOf, Option.map_eq_some_iff]

/-- A claim of item `k` succeeds. -/
def claimWins (k : ReviewId) (p : Desk η × DeskLabel η) : Bool :=
  match p.2 with
  | .claim _ k' _ => k' == k && p.1.statusOf k == some .open
  | _ => false

/-- The label with which item `k` is resolved. -/
def resolvedLabel (k : ReviewId) (p : Desk η × DeskLabel η) : Option UnitFloat :=
  match p.2 with
  | .resolve _ k' payload _ =>
    if k' = k ∧ p.1.statusOf k = some .claimed then some payload.label else none
  | _ => none

/-- The transitions, each with what it needs and what it makes of the desk. -/
inductive DeskStep (d : Desk η) : DeskLabel η → Desk η → Prop
  | insert {k rid reason reviews}
      (hins : d.reviews.insertAll [(k, openReview rid reason)] = some reviews) :
      DeskStep d (.insert k rid reason) { d with reviews }
  | claim {h k now} (hidle : d.requests h = none) :
      DeskStep d (.claim h k now)
        ({ d with reviews := (claimReviewItem d.reviews k now).1 }.setRequest h
          (some (if (claimReviewItem d.reviews k now).2 then .granted k else .claimRefused k)))
  | resolve {h k payload now} (hidle : d.requests h = none) :
      DeskStep d (.resolve h k payload now)
        ({ d with reviews := (resolveReviewItem d.reviews k payload now).1 }.setRequest h
          (some (if (resolveReviewItem d.reviews k payload now).2 then .granted k
            else .resolveRefused k)))
  | read {h} (hbusy : d.requests h ≠ none) : DeskStep d (.read h) (d.setRequest h none)
  | drop {h} (hbusy : d.requests h ≠ none) : DeskStep d (.drop h) (d.setRequest h none)

theorem deskStep_cases {l : DeskLabel η} (hs : deskStep d l = some d') : DeskStep d l d' := by
  cases l with
  | insert k rid reason =>
    obtain ⟨reviews, hins, rfl⟩ := Option.map_eq_some_iff.mp hs
    exact .insert hins
  | claim h k now =>
    obtain ⟨hidle, hd⟩ := Option.ite_none_left_eq_some.mp hs
    rw [← Option.some.inj hd]
    exact .claim (not_not.mp hidle)
  | resolve h k payload now =>
    obtain ⟨hidle, hd⟩ := Option.ite_none_left_eq_some.mp hs
    rw [← Option.some.inj hd]
    exact .resolve (not_not.mp hidle)
  | read h =>
    obtain ⟨hbusy, hd⟩ := Option.ite_none_left_eq_some.mp hs
    rw [← Option.some.inj hd]
    exact .read hbusy
  | drop h =>
    obtain ⟨hbusy, hd⟩ := Option.ite_none_left_eq_some.mp hs
    rw [← Option.some.inj hd]
    exact .drop hbusy

/-- How the row of item `k` can change over the transition of a label. -/
inductive ReviewChange (d : Desk η) (k : ReviewId) (row : ReviewItem) :
    DeskLabel η → ReviewItem → Prop
  | keep {l} (hc : claimWins k (d, l) = false) (hr : resolvedLabel k (d, l) = none) :
      ReviewChange d k row l row
  | claim {h now} (hst : row.status = .open) :
      ReviewChange d k row (.claim h k now) { row with status := .claimed, claimedAt := some now }
  | resolve {h payload now} (hst : row.status = .claimed) :
      ReviewChange d k row (.resolve h k payload now)
        { row with
          status := .resolved
          reviewerLabel := some payload.label.score
          reviewerNotes := payload.notes
          resolvedAt := some now }

/-- **Review rows** stay, and change in these ways only. -/
theorem step_review {l : DeskLabel η} (hs : deskStep d l = some d') {k : ReviewId}
    {row : ReviewItem} (hrow : d.reviews.get k = some row) :
    ∃ row', d'.reviews.get k = some row' ∧ ReviewChange d k row l row' := by
  have hstat : d.statusOf k = some row.status := Desk.statusOf_eq_some.mpr ⟨row, hrow, rfl⟩
  cases deskStep_cases hs with
  | insert hins => exact ⟨row, (Table.get_insertAll_some hins).mpr (Or.inl hrow), .keep rfl rfl⟩
  | @claim h k' now =>
    simp only [Desk.setRequest, claimReviewItem, updateReview_get, hrow, Option.map_some]
    by_cases hc : k = k' ∧ row.status = .open
    · obtain ⟨rfl, hst⟩ := hc
      exact ⟨_, by simp [hst], .claim hst⟩
    · refine ⟨row, by rw [if_neg hc], .keep ?_ rfl⟩
      simp only [claimWins, hstat]
      grind
  | @resolve h k' payload now =>
    simp only [Desk.setRequest, resolveReviewItem, updateReview_get, hrow, Option.map_some]
    by_cases hc : k = k' ∧ row.status = .claimed
    · obtain ⟨rfl, hst⟩ := hc
      exact ⟨_, by simp [hst], .resolve hst⟩
    · refine ⟨row, by rw [if_neg hc], .keep rfl ?_⟩
      simp only [resolvedLabel, hstat]
      grind
  | read | drop => exact ⟨row, hrow, .keep rfl rfl⟩

/-- A row that appears is one the pipeline adds. -/
theorem step_review_new {l : DeskLabel η} (hs : deskStep d l = some d') {k : ReviewId}
    {row' : ReviewItem} (hrow' : d'.reviews.get k = some row') (hnone : d.reviews.get k = none) :
    ∃ rid reason, l = .insert k rid reason ∧ row' = openReview rid reason := by
  cases deskStep_cases hs with
  | @insert k' rid reason reviews hins =>
    rcases (Table.get_insertAll_some hins).mp hrow' with hold | hnew
    · exact absurd (hnone.symm.trans hold) (by simp)
    · obtain ⟨rfl, rfl⟩ := Prod.mk.inj (List.mem_singleton.mp hnew)
      exact ⟨rid, reason, rfl, rfl⟩
  | claim | resolve =>
    simp [Desk.setRequest, claimReviewItem, resolveReviewItem, updateReview_get, hnone] at hrow'
  | read | drop => exact absurd (hnone.symm.trans hrow') (by simp)

/-! ## 4. The history of an item -/

/-- The row of item `k` and what has happened to it agree. -/
inductive Recorded (k : ReviewId) (tr : List (Desk η × DeskLabel η)) : Option ReviewItem → Prop
  | absent (hc : tr.countP (claimWins k) = 0) (hr : tr.filterMap (resolvedLabel k) = []) :
      Recorded k tr none
  | «open» {row} (hst : row.status = .open) (hc : tr.countP (claimWins k) = 0)
      (hr : tr.filterMap (resolvedLabel k) = [])
      (hcols : row.claimedAt = none ∧ row.resolvedAt = none ∧ row.reviewerLabel = none) :
      Recorded k tr (some row)
  | claimed {row now} (hst : row.status = .claimed) (hc : tr.countP (claimWins k) = 1)
      (hr : tr.filterMap (resolvedLabel k) = [])
      (hcols : row.claimedAt = some now ∧ row.resolvedAt = none ∧ row.reviewerLabel = none) :
      Recorded k tr (some row)
  | resolved {row now now' x} (hst : row.status = .resolved) (hc : tr.countP (claimWins k) = 1)
      (hr : tr.filterMap (resolvedLabel k) = [x])
      (hcols : row.claimedAt = some now ∧ row.resolvedAt = some now' ∧
        row.reviewerLabel = some x.score) :
      Recorded k tr (some row)

theorem recorded_step {k : ReviewId} {tr : List (Desk η × DeskLabel η)} {l : DeskLabel η}
    (hI : Recorded k tr (d.reviews.get k)) (hs : deskStep d l = some d') :
    Recorded k (tr ++ [(d, l)]) (d'.reviews.get k) := by
  have hcount : (tr ++ [(d, l)]).countP (claimWins k) =
      tr.countP (claimWins k) + if claimWins k (d, l) then 1 else 0 := by
    simp [List.countP_append, List.countP_singleton]
  have hlabels : (tr ++ [(d, l)]).filterMap (resolvedLabel k) =
      tr.filterMap (resolvedLabel k) ++ (resolvedLabel k (d, l)).toList := by
    rw [List.filterMap_append]
    cases hx : resolvedLabel k (d, l) <;> simp [hx]
  cases hrow : d.reviews.get k with
  | none =>
    -- nothing can have happened to an item that is not there
    have hc : claimWins k (d, l) = false := by
      cases l <;> simp [claimWins, Desk.statusOf, hrow]
    have hr : resolvedLabel k (d, l) = none := by
      cases l <;> simp [resolvedLabel, Desk.statusOf, hrow]
    rw [hrow] at hI
    cases hI with
    | absent hc₀ hr₀ =>
      have hc₁ : (tr ++ [(d, l)]).countP (claimWins k) = 0 := by simp [hcount, hc₀, hc]
      have hr₁ : (tr ++ [(d, l)]).filterMap (resolvedLabel k) = [] := by simp [hlabels, hr₀, hr]
      cases hrow' : d'.reviews.get k with
      | none => exact .absent hc₁ hr₁
      | some row' =>
        obtain ⟨rid, reason, -, rfl⟩ := step_review_new hs hrow' hrow
        exact .open rfl hc₁ hr₁ ⟨rfl, rfl, rfl⟩
  | some row =>
    obtain ⟨row', hrow', hch⟩ := step_review hs hrow
    rw [hrow] at hI
    rw [hrow']
    cases hch with
    | keep hc hr =>
      have hc₁ : (tr ++ [(d, l)]).countP (claimWins k) = tr.countP (claimWins k) := by
        simp [hcount, hc]
      have hr₁ : (tr ++ [(d, l)]).filterMap (resolvedLabel k) = tr.filterMap (resolvedLabel k) := by
        simp [hlabels, hr]
      cases hI with
      | «open» hst hc₀ hr₀ hcols => exact .open hst (hc₁.trans hc₀) (hr₁.trans hr₀) hcols
      | claimed hst hc₀ hr₀ hcols => exact .claimed hst (hc₁.trans hc₀) (hr₁.trans hr₀) hcols
      | resolved hst hc₀ hr₀ hcols => exact .resolved hst (hc₁.trans hc₀) (hr₁.trans hr₀) hcols
    | @claim h now hst =>
      have hwin : claimWins k (d, .claim h k now) = true := by
        simp [claimWins, Desk.statusOf, hrow, hst]
      cases hI with
      | «open» _ hc₀ hr₀ hcols =>
        exact .claimed rfl (by rw [hcount, hc₀, hwin]; rfl) (by rw [hlabels, hr₀]; rfl)
          ⟨rfl, hcols.2⟩
      | claimed hst' | resolved hst' => exact absurd (hst.symm.trans hst') (by simp)
    | @resolve h payload now hst =>
      have hwin : resolvedLabel k (d, .resolve h k payload now) = some payload.label := by
        simp [resolvedLabel, Desk.statusOf, hrow, hst]
      cases hI with
      | claimed _ hc₀ hr₀ hcols =>
        exact .resolved rfl (by rw [hcount, hc₀]; rfl) (by rw [hlabels, hr₀, hwin]; rfl)
          ⟨hcols.1, rfl, rfl⟩
      | «open» hst' | resolved hst' => exact absurd (hst.symm.trans hst') (by simp)

theorem recorded_of_run {tr : List (Desk η × DeskLabel η)} (h : Run deskStep Desk.init tr d)
    (k : ReviewId) : Recorded k tr (d.reviews.get k) :=
  h.induct (J := fun tr d => Recorded k tr (d.reviews.get k)) (.absent rfl rfl)
    (fun _ _ _ _ hI _ hs => recorded_step hI hs)
    (show Follows (fun _ _ _ => True) tr from fun _ _ _ _ => trivial)

theorem Recorded.counts {η : Type} {k : ReviewId} {tr : List (Desk η × DeskLabel η)}
    {row : Option ReviewItem} (h : Recorded k tr row) :
    tr.countP (claimWins k) ≤ 1 ∧ (tr.filterMap (resolvedLabel k)).length ≤ 1 := by
  cases h with
  | absent hc hr | «open» _ hc hr _ | claimed _ hc hr _ | resolved _ hc hr _ => simp [hc, hr]

/-- A resolve that succeeds comes behind a claim that has. -/
theorem Recorded.claimed_of_resolves {η : Type} {d : Desk η}
    {k : ReviewId} {tr : List (Desk η × DeskLabel η)}
    {l : DeskLabel η} (h : Recorded k tr (d.reviews.get k))
    (hl : (resolvedLabel k (d, l)).isSome) : tr.countP (claimWins k) = 1 := by
  have hst : d.statusOf k = some .claimed := by
    cases l with
    | resolve h' k' payload now =>
      simp only [resolvedLabel] at hl
      split at hl
      · rename_i hc
        exact hc.2
      · exact absurd hl (by simp)
    | _ => exact absurd hl (by simp [resolvedLabel])
  obtain ⟨row, hrow, hst⟩ := Desk.statusOf_eq_some.mp hst
  rw [hrow] at h
  cases h with
  | claimed _ hc => exact hc
  | «open» hst' | resolved hst' => exact absurd (hst.symm.trans hst') (by simp)

/-- Of several claims of a stored item, one has succeeded. -/
theorem claimed_of_asked {k : ReviewId} {tr tr' : List (Desk η × DeskLabel η)} {h : η}
    {now : Timestamp} (hrun : Run deskStep Desk.init (tr ++ (d, .claim h k now) :: tr') d')
    (hk : (d.reviews.get k).isSome) :
    0 < (tr ++ (d, .claim h k now) :: tr').countP (claimWins k) := by
  obtain ⟨row, hrow⟩ := Option.isSome_iff_exists.mp hk
  have hrec := recorded_of_run hrun.at.1 k
  rw [hrow] at hrec
  have hsplit : (tr ++ (d, DeskLabel.claim h k now) :: tr').countP (claimWins k) =
      tr.countP (claimWins k) + ((d, DeskLabel.claim h k now) :: tr').countP (claimWins k) :=
    List.countP_append
  rw [hsplit]
  cases hrec with
  | «open» hst _ _ _ =>
    have hwin : claimWins k (d, DeskLabel.claim h k now) = true := by
      simp [claimWins, Desk.statusOf, hrow, hst]
    simp [hwin]
  | claimed _ hc | resolved _ hc => omega

/-! ## 5. Answers -/

/-- The request slot a label concerns. -/
def DeskLabel.slot : DeskLabel η → Option η
  | .insert .. => none
  | .claim h _ _ | .resolve h _ _ _ | .read h | .drop h => some h

/-- The slot and the item of a new request. -/
def DeskLabel.asks : DeskLabel η → Option (η × ReviewId)
  | .claim h k _ | .resolve h k _ _ => some (h, k)
  | _ => none

/-- A request nobody moves stays. -/
theorem step_request_kept {l : DeskLabel η} (hs : deskStep d l = some d') {h : η}
    {x : ReviewRequest} (hx : d.requests h = some x) (hl : l.slot ≠ some h) :
    d'.requests h = some x := by
  cases deskStep_cases hs with
  | insert => exact hx
  | @claim h' | @resolve h' | @read h' | @drop h' =>
    have hne : h ≠ h' := fun hh => hl (by rw [hh]; rfl)
    simpa [Desk.setRequest, Function.update_of_ne hne] using hx

/-- A request is granted, and has changed its row, or it is refused, and has changed nothing. -/
theorem step_asks {l : DeskLabel η} (hs : deskStep d l = some d') {h : η} {k : ReviewId}
    (hl : l.asks = some (h, k)) :
    (d'.requests h = some (.granted k) ∧ (d'.reviews.get k).isSome ∧
        (claimWins k (d, l) = true ∨ (resolvedLabel k (d, l)).isSome)) ∨
      (d'.requests h = some (.claimRefused k) ∨ d'.requests h = some (.resolveRefused k)) ∧
        d'.reviews = d.reviews := by
  have hit : ∀ {st f}, (updateReview d.reviews k st f).2 = true →
      d.statusOf k = some st ∧ ((updateReview d.reviews k st f).1.get k).isSome := by
    intro st f hhit
    obtain ⟨row, hrow, hst⟩ := updateReview_hit.mp hhit
    exact ⟨Desk.statusOf_eq_some.mpr ⟨row, hrow, hst⟩, by simp [updateReview_get, hrow]⟩
  cases deskStep_cases hs with
  | @claim h' k' now =>
    obtain ⟨rfl, rfl⟩ := Prod.mk.inj (Option.some.inj hl)
    cases hhit : (claimReviewItem d.reviews k' now).2 with
    | true =>
      obtain ⟨hst, hsome⟩ := hit hhit
      exact Or.inl ⟨by simp [Desk.setRequest], hsome, Or.inl (by simp [claimWins, hst])⟩
    | false => exact Or.inr ⟨Or.inl (by simp [Desk.setRequest]), updateReview_miss hhit⟩
  | @resolve h' k' payload now =>
    obtain ⟨rfl, rfl⟩ := Prod.mk.inj (Option.some.inj hl)
    cases hhit : (resolveReviewItem d.reviews k' payload now).2 with
    | true =>
      obtain ⟨hst, hsome⟩ := hit hhit
      exact Or.inl ⟨by simp [Desk.setRequest], hsome, Or.inr (by simp [resolvedLabel, hst])⟩
    | false => exact Or.inr ⟨Or.inr (by simp [Desk.setRequest]), updateReview_miss hhit⟩
  | insert | read | drop => exact absurd hl (by simp [DeskLabel.asks])

/-- A refusal is a 404 or a 409. -/
theorem refuse_error (reviews : Table ReviewId ReviewItem) (k : ReviewId)
    (detail : String → String) :
    ∃ e, refuse reviews k detail = .error e ∧ (e.status = 404 ∨ e.status = 409) := by
  unfold refuse
  split
  · exact ⟨_, rfl, Or.inl rfl⟩
  · exact ⟨_, rfl, Or.inr rfl⟩

/-- What a request that began with label `l` in desk `u` is answered from desk `v`: the row, and it
succeeded, or an error, and it changed nothing. -/
def Answered (u : Desk η) (l : DeskLabel η) (k : ReviewId) (v : Desk η) (x : ReviewRequest) : Prop :=
  (∃ row, x.answer v.reviews = some (.ok row) ∧
    (claimWins k (u, l) = true ∨ (resolvedLabel k (u, l)).isSome)) ∨
  ∃ e u', x.answer v.reviews = some (.error e) ∧ (e.status = 404 ∨ e.status = 409) ∧
    deskStep u l = some u' ∧ u'.reviews = u.reviews

theorem answered_of_run {l : DeskLabel η} {h : η} {k : ReviewId}
    {b : List (Desk η × DeskLabel η)} {u : Desk η} (hs : deskStep u l = some d)
    (hl : l.asks = some (h, k)) (hb : Run deskStep d b d')
    (hkept : Along (fun _ l => l.slot ≠ some h) b) :
    ∃ x, d'.requests h = some x ∧ Answered u l k d' x := by
  have hstay : ∀ x, d.requests h = some x → d'.requests h = some x := fun x hx =>
    hb.invariant (I := fun v => v.requests h = some x)
      (fun _ _ _ hx hok hs => step_request_kept hs hx hok) hkept hx
  rcases step_asks hs hl with ⟨hx, hsome, hwin⟩ | ⟨hx, hsame⟩
  · have hsome' := hb.stable (I := fun v => (v.reviews.get k).isSome) (fun v l v' hv hs => by
      obtain ⟨row, hrow⟩ := Option.isSome_iff_exists.mp hv
      obtain ⟨row', hrow', -⟩ := step_review hs hrow
      simp [hrow']) hsome
    obtain ⟨row, hrow⟩ := Option.isSome_iff_exists.mp hsome'
    exact ⟨_, hstay _ hx, Or.inl ⟨row, by simp [ReviewRequest.answer, hrow], hwin⟩⟩
  · rcases hx with hx | hx
    all_goals
      obtain ⟨e, he, hstatus⟩ := refuse_error d'.reviews k _
      exact ⟨_, hstay _ hx, Or.inr ⟨e, d, congrArg some he, hstatus, hs, hsame⟩⟩

/-! ## 6. The life of a review item -/

/-- The columns of a row agree with its status. -/
structure ReviewItem.Coherent (row : ReviewItem) : Prop where
  claimed : row.claimedAt.isSome ↔ row.status ≠ .open
  resolved : row.resolvedAt.isSome ↔ row.status = .resolved
  labelled : row.reviewerLabel.isSome ↔ row.status = .resolved

theorem Recorded.coherent {η : Type}
    {k : ReviewId} {tr : List (Desk η × DeskLabel η)} {row : ReviewItem}
    (h : Recorded k tr (some row)) : row.Coherent := by
  cases h with
  | «open» hst _ _ hcols | claimed hst _ _ hcols | resolved hst _ _ hcols =>
    obtain ⟨h1, h2, h3⟩ := hcols
    exact ⟨by simp [h1, hst], by simp [h2, hst], by simp [h3, hst]⟩

/-- **Review lifecycle.**  In every run of the desk: rows change by a claim of an open item and a
resolve of a claimed one only; of the claims of a stored item exactly one succeeds, at most one
resolve does, and only behind that claim; a request is answered with the row when it succeeded, and
with a 404 or a 409 when it changed nothing; and the columns follow the status, the label being the
resolve's, in `[0, 1]`. -/
theorem review_lifecycle {tr : List (Desk η × DeskLabel η)} (hrun : Run deskStep Desk.init tr d) :
    (∀ a l b v, tr = a ++ (v, l) :: b → ∃ v', deskStep v l = some v' ∧
      ∀ k row, v.reviews.get k = some row →
        ∃ row', v'.reviews.get k = some row' ∧ ReviewChange v k row l row') ∧
    (∀ k, tr.countP (claimWins k) ≤ 1 ∧
      (∀ a h now b v, tr = a ++ (v, .claim h k now) :: b → (v.reviews.get k).isSome →
        tr.countP (claimWins k) = 1) ∧
      (tr.filterMap (resolvedLabel k)).length ≤ 1 ∧
      ∀ a p b, tr = a ++ p :: b → (resolvedLabel k p).isSome → a.countP (claimWins k) = 1) ∧
    (∀ a u l b v h c k, tr = a ++ (u, l) :: (b ++ (v, .read h) :: c) → l.asks = some (h, k) →
      Along (fun _ l => l.slot ≠ some h) b →
      ∃ x, v.requests h = some x ∧ Answered u l k v x) ∧
    ∀ k row, d.reviews.get k = some row → row.Coherent ∧
      ∀ q, row.reviewerLabel = some q →
        q.InUnit ∧ ∃ x, tr.filterMap (resolvedLabel k) = [x] ∧ q = x.score := by
  refine ⟨?_, fun k => ⟨?_, ?_, ?_, ?_⟩, ?_, ?_⟩
  · rintro a l b v rfl
    obtain ⟨-, v', hs, -⟩ := hrun.at
    exact ⟨v', hs, fun k row hrow => step_review hs hrow⟩
  · exact (recorded_of_run hrun k).counts.1
  · rintro a h now b v rfl hk
    have hpos := claimed_of_asked hrun hk
    have hle := (recorded_of_run hrun k).counts.1
    omega
  · exact (recorded_of_run hrun k).counts.2
  · rintro a ⟨v, l⟩ b rfl hl
    exact (recorded_of_run hrun.at.1 k).claimed_of_resolves hl
  · rintro a u l b v h c k rfl hl hkept
    obtain ⟨-, u', hs, hrest⟩ := hrun.at
    exact answered_of_run hs hl hrest.at.1 hkept
  · intro k row hrow
    have hrec := recorded_of_run hrun k
    rw [hrow] at hrec
    refine ⟨hrec.coherent, fun q hq => ?_⟩
    cases hrec with
    | «open» _ _ _ hcols | claimed _ _ _ hcols => exact absurd (hcols.2.2.symm.trans hq) (by simp)
    | @resolved _ _ _ x _ _ hr hcols =>
      obtain rfl := Option.some.inj (hcols.2.2.symm.trans hq)
      exact ⟨x.score_inUnit, x, hr, rfl⟩

/-- Two reviewers claim item 0, and the one whose claim fails resolves it. -/
theorem review_lifecycle_small : ∃ (tr : List (Desk (Fin 2) × DeskLabel (Fin 2)))
    (d : Desk (Fin 2)), Run deskStep Desk.init tr d ∧ d.statusOf 0 = some .resolved ∧
      tr.countP (claimWins 0) ≤ 1 ∧ ∀ k row, d.reviews.get k = some row → row.Coherent ∧
        ∀ q, row.reviewerLabel = some q →
          q.InUnit ∧ ∃ x, tr.filterMap (resolvedLabel k) = [x] ∧ q = x.score := by
  obtain ⟨tr, d, hrun, -, htest⟩ := exists_run_of_play deskStep (Desk.init : Desk (Fin 2))
    (fun _ _ => true)
    [.insert 0 7 .lowConfidence, .claim 0 0 3, .claim 1 0 4, .read 1,
      .resolve 1 0 ⟨.num (4 / 5) (by decide +kernel) (by decide +kernel), none⟩ 5, .read 0,
      .read 1]
    (fun _ d => d.statusOf 0 == some .resolved)
    (by decide +kernel)
  have hlife := review_lifecycle hrun
  exact ⟨tr, d, hrun, by simpa using htest, (hlife.2.1 0).1, hlife.2.2.2⟩

end EvalHarness
