/-
# The artifact, the row and the grades of a succeeded item

An execution leaves its answer in three places: the blob in Redis, the columns of the item's row,
and the grades.  All executions of an item write the same Redis key, in front of the guarded
update that decides between them, and grading keeps grades it finds.  So a loser can overwrite the
winner's blob (`loser_overwrites`), and a second winner's row can stand beside grades of the first
one's text.

`artifact_coherent` is the guarantee for the schedules in which executions of an item keep their
turns: whoever wins the item wrote its artifact last and finds it ungraded, nobody writes the
artifact of a succeeded item, and grades are committed by the last winner.
-/
import EvalHarness.Grades
import EvalHarness.Winner

namespace EvalHarness

open Lts

variable {σ η : Type} [DecidableEq σ] [DecidableEq η] {cfg : Config} {w w' : World σ η}

/-! ## 1. The events -/

/-- An execution takes a step with the completion it has from the provider. -/
structure Passage (σ : Type) where
  slot : σ
  item : ItemId
  loaded : Loaded
  result : CompletionResult

/-- The passage of a label through the steps `at?` looks for. -/
def passage (at? : Pc → Option CompletionResult) (p : World σ η × Label σ η) :
    Option (Passage σ) :=
  match p.2 with
  | .exec s _ =>
    match p.1.workers s with
    | some ⟨i, .at v pc⟩ => (at? pc).map fun r => ⟨s, i, v, r⟩
    | _ => none
  | _ => none

theorem passage_eq_some {σ η : Type} {w : World σ η}
    {at? : Pc → Option CompletionResult} {l : Label σ η} {x : Passage σ} :
    passage at? (w, l) = some x ↔ ∃ c pc, l = .exec x.slot c ∧
      w.workers x.slot = some ⟨x.item, .at x.loaded pc⟩ ∧ at? pc = some x.result := by
  constructor
  · intro h
    cases l with
    | exec s c =>
      simp only [passage] at h
      split at h
      · rename_i i v pc he
        obtain ⟨r, hr, rfl⟩ := Option.map_eq_some_iff.mp h
        exact ⟨c, pc, rfl, he, hr⟩
      · exact absurd h (by simp)
    | _ => exact absurd h (by simp [passage])
  · rintro ⟨c, pc, rfl, he, hr⟩
    simp [passage, he, hr]

def Pc.writes : Pc → Option CompletionResult
  | .writeArtifact r => some r
  | _ => none

def Pc.finalises : Pc → Option CompletionResult
  | .finalise r => some r
  | _ => none

def Pc.asks : Pc → Option CompletionResult
  | .judge r => some r
  | _ => none

/-- `set_artifact`. -/
def writes (p : World σ η × Label σ η) : Option (Passage σ) := passage Pc.writes p

/-- A finalising update that takes effect. -/
def hits (p : World σ η × Label σ η) : Option (Passage σ) :=
  (passage Pc.finalises p).filter fun x => p.1.statusOf x.item == some .running

/-- The graders are asked about a text. -/
def asks (p : World σ η × Label σ η) : Option (Passage σ) := passage Pc.asks p

/-- The latest such event on an item. -/
def latestOn (f : World σ η × Label σ η → Option (Passage σ)) (i : ItemId)
    (tr : List (World σ η × Label σ η)) : Option (Passage σ) :=
  latest (fun p => (f p).filter fun x => x.item == i) tr

/-- The text the execution in a slot last asked the graders about. -/
def askedText (s : σ) (tr : List (World σ η × Label σ η)) : Option String :=
  (latest (fun p => (asks p).filter fun x => x.slot == s) tr).map fun x => x.result.text

theorem latestOn_snoc {σ η : Type} {f : World σ η × Label σ η → Option (Passage σ)} {i : ItemId}
    {tr : List (World σ η × Label σ η)} {p : World σ η × Label σ η} {x : Passage σ} :
    latestOn f i (tr ++ [p]) = some x ↔
      (f p = some x ∧ x.item = i) ∨ (∀ y ∈ f p, y.item ≠ i) ∧ latestOn f i tr = some x := by
  rw [latestOn, latest_snoc, ← latestOn]
  cases f p with
  | none => simp
  | some y => by_cases hy : y.item = i <;> simp [hy]

theorem hits_eq_some {σ η : Type} {w : World σ η} {l : Label σ η} {x : Passage σ} :
    hits (w, l) = some x ↔ ∃ c, l = .exec x.slot c ∧
      w.workers x.slot = some ⟨x.item, .at x.loaded (.finalise x.result)⟩ ∧
        w.statusOf x.item = some .running := by
  simp only [hits, Option.filter_eq_some_iff, passage_eq_some, beq_iff_eq]
  constructor
  · rintro ⟨⟨c, pc, hl, he, hpc⟩, hst⟩
    cases pc with
    | finalise r =>
      obtain rfl := Option.some.inj hpc
      exact ⟨c, hl, he, hst⟩
    | _ => exact absurd hpc (by simp [Pc.finalises])
  · rintro ⟨c, hl, he, hst⟩
    exact ⟨⟨c, _, hl, he, rfl⟩, hst⟩

/-! ## 2. The schedule -/

/-- Executions of an item keep their turns. -/
def InTurn (tr : List (World σ η × Label σ η)) (w : World σ η) (l : Label σ η) : Prop :=
  -- Nobody writes the artifact of a succeeded item.
  (∀ x ∈ writes (w, l), w.statusOf x.item ≠ some .succeeded) ∧
  -- Who wins an item has written its artifact last, and finds no grades.
  (∀ x ∈ hits (w, l), (latestOn writes x.item tr).map (·.slot) = some x.slot ∧
    ∀ g ∈ w.store.db.grades, g.runItemId ≠ x.item) ∧
  -- Who commits grades has won the item last.
  ∀ y ∈ commitsGrades (w, l), (latestOn hits y.2 tr).map (·.slot) = some y.1

instance (tr : List (World σ η × Label σ η)) (w : World σ η) (l : Label σ η) :
    Decidable (InTurn tr w l) :=
  inferInstanceAs (Decidable (_ ∧ _ ∧ _))

/-! ## 3. What one transition does to the three places -/

/-- **Artifacts** change by `set_artifact` only. -/
theorem step_artifacts {l : Label σ η} (hs : step cfg w l = some w') (i : ItemId) :
    w'.store.artifacts ⟨i⟩ = (((writes (w, l)).filter fun x => x.item == i).map fun x =>
      artifactOf x.loaded x.result).or (w.store.artifacts ⟨i⟩) := by
  by_cases hl : l.isQuiet = true
  · rw [(step_quiet hs hl).2.1]
    cases l <;> first | rfl | exact absurd hl (by simp [Label.isQuiet])
  cases l with
  | create h payload r itemIds now =>
    rcases step_create hs with rfl | hc
    · rfl
    · rw [hc.artifacts]; rfl
  | handler h now =>
    obtain ⟨x, hx, rfl⟩ := step_handler_eq hs
    cases x with
    | createEnqueue pending => cases pending <;> rfl
    | replayReadRun rid r =>
      simp only [World.setHandler_store, stepHandler]
      split <;> rfl
    | _ => rfl
  | exec s c =>
    obtain ⟨⟨rid, p⟩, he, rfl⟩ := step_exec hs
    rw [World.afterExec_store]
    cases p with
    | start => simp [writes, passage, he, executeRunItem]
    | «at» v pc =>
      simp only [writes, passage, he, executeRunItem]
      cases pc with
      | writeArtifact r =>
        by_cases hi : i = rid
        · simp [Pc.writes, stepRunItem, setArtifact, Option.filter_some, hi]
        · simp [Pc.writes, stepRunItem, setArtifact, Option.filter_some, hi, Ne.symm hi]
      | complete | judge | checkCancelled | gradeRead | reviewCheck | gradeCommit | finalise
      | abortCheck =>
        simp only [stepRunItem]
        split <;> rfl
      | _ => rfl
  | cancel | replay | drop | deliver | redeliver | crash => exact absurd rfl hl

/-- An item that stays succeeded keeps its row. -/
theorem row_of_kept {l : Label σ η} (hs : step cfg w l = some w') {i : ItemId} {row' : RunItem}
    (hrow' : w'.store.db.items.get i = some row') (hst' : row'.status = .succeeded)
    (hst : w.statusOf i = some .succeeded) : w.store.db.items.get i = some row' := by
  obtain ⟨row, hrow, hsucc⟩ := Option.map_eq_some_iff.mp hst
  have hch := itemChange hs hrow hrow'
  cases hch with
  | keep => exact hrow
  | finalise _ hrun => exact absurd (hsucc.symm.trans hrun) (by simp)
  | _ => exact absurd hst' (by simp)

/-! ## 4. The invariant -/

/-- The artifact and the columns of an item are those of a passage. -/
structure Stored (w : World σ η) (row : RunItem) (x : Passage σ) : Prop where
  key : row.artifactKey = some ⟨x.item⟩
  artifact : w.store.artifacts ⟨x.item⟩ = some (artifactOf x.loaded x.result)
  latency : row.latencyMs = some x.result.latencyMs
  promptTokens : row.promptTokens = some x.result.promptTokens
  completionTokens : row.completionTokens = some x.result.completionTokens

/-- Every commit of grades for item `i` was by an execution that had asked the graders about
`text`. -/
def GradedFrom (i : ItemId) (text : String) (tr : List (World σ η × Label σ η)) : Prop :=
  Follows (fun a w l => ∀ y ∈ commitsGrades (w, l), y.2 = i → askedText y.1 a = some text) tr

/-- What an execution carries from its win to its commit: the completion it has won with, and
behind the graders' answer the text it has asked them about. -/
def Pc.answersFor (s : σ) (tr : List (World σ η × Label σ η)) (r : CompletionResult) : Pc → Prop
  | .abortCheck r' | .gradeRead r' | .judge r' => r' = r
  | .reviewCheck _ _ | .gradeCommit _ _ => askedText s tr = some r.text
  | _ => True

structure Aligned (tr : List (World σ η × Label σ η)) (w : World σ η) : Prop where
  artifact : ∀ i, w.store.artifacts ⟨i⟩ =
    (latestOn writes i tr).map fun x => artifactOf x.loaded x.result
  /-- An execution in front of its finalising update that has written last has written its own
  completion. -/
  written : ∀ s i v r x, w.workers s = some ⟨i, .at v (.finalise r)⟩ →
    latestOn writes i tr = some x → x.slot = s → x = ⟨s, i, v, r⟩
  stored : ∀ i row, w.store.db.items.get i = some row → row.status = .succeeded →
    ∃ x, latestOn hits i tr = some x ∧ x.item = i ∧ Stored w row x
  carried : ∀ s i v pc x, w.workers s = some ⟨i, .at v pc⟩ → latestOn hits i tr = some x →
    x.slot = s → pc.answersFor s tr x.result
  committed : ∀ p ∈ tr, ∀ y ∈ commitsGrades p, w.IsGraded y.2
  graded : ∀ i x, latestOn hits i tr = some x → GradedFrom i x.result.text tr

theorem aligned_init {σ η : Type} [DecidableEq σ] : Aligned [] (World.init : World σ η) where
  artifact i := rfl
  written s i v r x he := absurd he (by simp [World.init])
  stored i row hrow := absurd hrow (by simp [World.init, Db.empty])
  carried s i v pc x he := absurd he (by simp [World.init])
  committed p hp := absurd hp (by simp)
  graded i x hx := absurd hx (by simp [latestOn])

/-! ## 5. One transition keeps it -/

theorem askedText_snoc {σ η : Type} [DecidableEq σ]
    {s : σ} {tr : List (World σ η × Label σ η)} {p : World σ η × Label σ η} :
    askedText s (tr ++ [p]) =
      (((asks p).filter fun x => x.slot == s).map fun x => x.result.text).or (askedText s tr) := by
  rw [askedText, latest_snoc, Option.map_or, ← askedText]

/-- Steps of other slots leave what an execution carries. -/
theorem answersFor_of_stayed {σ η : Type} [DecidableEq σ] {w : World σ η}
    {s : σ} {tr : List (World σ η × Label σ η)} {r : CompletionResult}
    {pc : Pc} {l : Label σ η} (h : pc.answersFor s tr r) (hl : ∀ c, l ≠ .exec s c) :
    pc.answersFor s (tr ++ [(w, l)]) r := by
  have hasked : askedText s (tr ++ [(w, l)]) = askedText s tr := by
    have hnone : ((asks (w, l)).filter fun x => x.slot == s) = none := by
      rw [Option.filter_eq_none_iff]
      intro x hx
      obtain ⟨c, pc, rfl, -⟩ := passage_eq_some.mp hx
      have hne : x.slot ≠ s := fun h => hl c (h ▸ rfl)
      simpa using hne
    rw [askedText_snoc, hnone]
    rfl
  cases pc <;> first | exact h | exact hasked.trans h

/-- A step that is no finalising update is no win. -/
theorem hits_eq_none {σ η : Type} {w : World σ η}
    {s : σ} {c : Choice} {i : ItemId} {v : Loaded} {pc : Pc}
    (he : w.workers s = some ⟨i, .at v pc⟩) (hpc : pc.finalises = none) :
    hits (w, .exec s c) = none := by
  simp [hits, passage, he, hpc]

section Step

variable {tr : List (World σ η × Label σ η)} {l : Label σ η}

theorem written_step (hA : Aligned tr w) (hs : step cfg w l = some w') {s : σ} {i : ItemId}
    {v : Loaded} {r : CompletionResult} {x : Passage σ}
    (he' : w'.workers s = some ⟨i, .at v (.finalise r)⟩)
    (hx : latestOn writes i (tr ++ [(w, l)]) = some x) (hslot : x.slot = s) : x = ⟨s, i, v, r⟩ := by
  rcases step_pc hs he' rfl with ⟨hw, hl⟩ | ⟨c, pc₀, rfl, hw, hstep⟩
  · rcases latestOn_snoc.mp hx with ⟨hnew, -⟩ | ⟨-, hold⟩
    · obtain ⟨c, -, rfl, -⟩ := passage_eq_some.mp hnew
      exact absurd (by rw [hslot]) (hl c)
    · exact hA.written s i v r x hw hold hslot
  · cases hstep
    have hown : writes (w, .exec s c) = some ⟨s, i, v, r⟩ :=
      passage_eq_some.mpr ⟨c, _, rfl, hw, rfl⟩
    rcases latestOn_snoc.mp hx with ⟨hnew, -⟩ | ⟨hno, -⟩
    · exact Option.some.inj (hnew.symm.trans hown)
    · exact absurd rfl (hno _ hown)

theorem stored_step (hA : Aligned tr w) (hok : InTurn tr w l) (hs : step cfg w l = some w')
    {i : ItemId} {row' : RunItem} (hrow' : w'.store.db.items.get i = some row')
    (hst' : row'.status = .succeeded) :
    ∃ x, latestOn hits i (tr ++ [(w, l)]) = some x ∧ x.item = i ∧ Stored w' row' x := by
  by_cases hst : w.statusOf i = some .succeeded
  · obtain ⟨x, hx, rfl, hS⟩ := hA.stored i row' (row_of_kept hs hrow' hst' hst) hst'
    refine ⟨x, latestOn_snoc.mpr (Or.inr ⟨?_, hx⟩), rfl, { hS with artifact := ?_ }⟩
    · intro y hy hyi
      obtain ⟨c, -, -, hrun⟩ := hits_eq_some.mp hy
      rw [hyi, hst] at hrun
      exact absurd hrun (by simp)
    · have hnone : ((writes (w, l)).filter fun y => y.item == x.item) = none := by
        rw [Option.filter_eq_none_iff]
        intro y hy hyi
        exact hok.1 y hy ((beq_iff_eq.mp hyi) ▸ hst)
      rw [step_artifacts hs, hnone]
      exact hS.artifact
  · obtain ⟨s, c, v, res, rfl, he, hrun⟩ :=
      wins_iff.mp (wins_of_succeeded hs (by simp [World.statusOf, hrow', hst']) hst)
    have hhit : hits (w, .exec s c) = some ⟨s, i, v, res⟩ := hits_eq_some.mpr ⟨c, rfl, he, hrun⟩
    obtain ⟨x, hx, hslot⟩ := Option.map_eq_some_iff.mp (hok.2.1 _ hhit).1
    obtain rfl := hA.written s i v res x he hx hslot
    obtain ⟨row, hrow, hst₀⟩ := Option.map_eq_some_iff.mp hrun
    have hfinal : row' = finalisedRow i v res row := by
      have := (step_of_hit hs he hrun).1 i
      rw [hrow', hrow, Option.map_some, if_pos ⟨rfl, hst₀⟩] at this
      exact Option.some.inj this
    have hart : w'.store.artifacts ⟨i⟩ = w.store.artifacts ⟨i⟩ := by
      rw [step_artifacts hs]
      simp [writes, passage, he, Pc.writes]
    refine ⟨_, latestOn_snoc.mpr (Or.inl ⟨hhit, rfl⟩), rfl, ?_⟩
    subst hfinal
    exact ⟨rfl, by rw [hart, hA.artifact, hx, Option.map_some], rfl, rfl, rfl⟩

theorem carried_step (hA : Aligned tr w) (hs : step cfg w l = some w') {s : σ} {i : ItemId}
    {v : Loaded} {pc : Pc} {x : Passage σ} (he' : w'.workers s = some ⟨i, .at v pc⟩)
    (hx : latestOn hits i (tr ++ [(w, l)]) = some x) (hslot : x.slot = s) :
    pc.answersFor s (tr ++ [(w, l)]) x.result := by
  by_cases hfirst : pc.isFirst = true
  · cases pc <;> trivial
  rcases step_pc hs he' (by simpa using hfirst) with ⟨hw, hl⟩ | ⟨c, pc₀, rfl, hw, hstep⟩
  · rcases latestOn_snoc.mp hx with ⟨hnew, -⟩ | ⟨-, hold⟩
    · obtain ⟨c, rfl, -⟩ := hits_eq_some.mp hnew
      exact absurd (by rw [hslot]) (hl c)
    · exact answersFor_of_stayed (hA.carried s i v pc x hw hold hslot) hl
  · have hold : pc₀.finalises = none → pc₀.answersFor s tr x.result := by
      intro hpc
      rcases latestOn_snoc.mp hx with ⟨hnew, -⟩ | ⟨-, hold⟩
      · rw [hits_eq_none hw hpc] at hnew
        exact absurd hnew (by simp)
      · exact hA.carried s i v pc₀ x hw hold hslot
    cases hstep with
    | @won r hit =>
      obtain ⟨row, hrow, hrun⟩ := finaliseRunItem_iff.mp hit
      have hown : hits (w, .exec s c) = some ⟨s, i, v, r⟩ :=
        hits_eq_some.mpr ⟨c, rfl, hw, by simp [World.statusOf, hrow, hrun]⟩
      rcases latestOn_snoc.mp hx with ⟨hnew, -⟩ | ⟨hno, -⟩
      · obtain rfl := Option.some.inj (hnew.symm.trans hown)
        rfl
      · exact absurd rfl (hno _ hown)
    | within | ungraded => exact hold rfl
    | @agreed r | @disagreed r =>
      obtain rfl : r = x.result := hold rfl
      simp [Pc.answersFor, askedText_snoc, asks, passage, hw, Pc.asks]
    | reviewed | unreviewed =>
      have hasked : askedText s tr = some x.result.text := hold rfl
      simp [Pc.answersFor, askedText_snoc, asks, passage, hw, Pc.asks, hasked]
    | _ => trivial

theorem committed_step (hA : Aligned tr w) (hs : step cfg w l = some w') :
    ∀ p ∈ tr ++ [(w, l)], ∀ y ∈ commitsGrades p, w'.IsGraded y.2 := by
  intro p hp y hy
  rcases List.mem_append.mp hp with hp | hp
  · exact (hA.committed p hp y hy).step hs
  · obtain rfl := List.mem_singleton.mp hp
    obtain ⟨c, v, g, gs, review, rfl, he, hgs⟩ := commitsGrades_eq_some.mp hy
    obtain ⟨e, he', rfl⟩ := step_exec hs
    obtain rfl := Option.some.inj (he.symm.trans he')
    exact ⟨⟨g, y.2⟩, by simp [executeRunItem, stepRunItem, insertGrades, hgs], rfl⟩

theorem graded_step {σ η : Type} [DecidableEq σ] {w : World σ η}
    {tr : List (World σ η × Label σ η)} {l : Label σ η}
    (hA : Aligned tr w) (hok : InTurn tr w l) {i : ItemId}
    {x : Passage σ} (hx : latestOn hits i (tr ++ [(w, l)]) = some x) :
    GradedFrom i x.result.text (tr ++ [(w, l)]) := by
  rcases latestOn_snoc.mp hx with ⟨hnew, rfl⟩ | ⟨-, hold⟩
  · -- The winner finds no grades, so nobody has committed any.
    intro a p b hab y hy hyi
    have hp : p ∈ tr ++ [(w, l)] := by rw [hab]; simp
    rcases List.mem_append.mp hp with hp | hp
    · obtain ⟨g, hg, hgi⟩ := hA.committed p hp y hy
      exact absurd (hgi.trans hyi) ((hok.2.1 x hnew).2 g hg)
    · obtain rfl := List.mem_singleton.mp hp
      obtain ⟨c, v, g, gs, review, rfl, he, -⟩ := commitsGrades_eq_some.mp hy
      rw [hits_eq_none he rfl] at hnew
      exact absurd hnew (by simp)
  · refine (hA.graded i x hold).snoc fun y hy hyi => ?_
    subst hyi
    have hlast := hok.2.2 y hy
    rw [hold, Option.map_some, Option.some.injEq] at hlast
    obtain ⟨c, v, g, gs, review, rfl, he, -⟩ := commitsGrades_eq_some.mp hy
    exact hA.carried y.1 y.2 v _ x he hold hlast

theorem aligned_step (hA : Aligned tr w) (hok : InTurn tr w l) (hs : step cfg w l = some w') :
    Aligned (tr ++ [(w, l)]) w' where
  artifact i := by
    rw [step_artifacts hs, hA.artifact, latestOn, latestOn, latest_snoc, Option.map_or]
  written s i v r x he' hx hslot := written_step hA hs he' hx hslot
  stored i row' hrow' hst' := stored_step hA hok hs hrow' hst'
  carried s i v pc x he' hx hslot := carried_step hA hs he' hx hslot
  committed := committed_step hA hs
  graded i x hx := graded_step hA hok hx

end Step

/-! ## 6. The guarantee, and the run without it -/

/-- The `model_output` of `list_review_queue`: what the reviewer of an item is shown. -/
def modelOutput (m : Backend) (i : ItemId) : Option String :=
  (m.artifacts ⟨i⟩).map fun artifact => artifact.rawResponse.text

/-- The three places agree: the artifact under the row's key is the one the last winner wrote, its
token counts and latency are the row's, and its text, which is what a reviewer is shown, is the
one every grade was computed from. -/
def Coherent (tr : List (World σ η × Label σ η)) (w : World σ η) (i : ItemId) (row : RunItem) :
    Prop :=
  ∃ winner key artifact, latestOn hits i tr = some winner ∧ row.artifactKey = some key ∧
    w.store.artifacts key = some artifact ∧ artifact = artifactOf winner.loaded winner.result ∧
    row.latencyMs = some artifact.rawResponse.latencyMs ∧
    row.promptTokens = some artifact.rawResponse.promptTokens ∧
    row.completionTokens = some artifact.rawResponse.completionTokens ∧
    modelOutput w.store i = some artifact.rawResponse.text ∧
    GradedFrom i artifact.rawResponse.text tr

/-- **Artifact coherence.**  In every run in which executions keep their turns, the artifact, the
row and the grades of a succeeded item agree. -/
theorem artifact_coherent {tr : List (World σ η × Label σ η)}
    (hrun : Run (step cfg) World.init tr w) (hok : Follows InTurn tr) {i : ItemId} {row : RunItem}
    (hrow : w.store.db.items.get i = some row) (hst : row.status = .succeeded) :
    Coherent tr w i row := by
  have hA : Aligned tr w :=
    hrun.induct aligned_init (fun _ _ _ _ hA hok hs => aligned_step hA hok hs) hok
  obtain ⟨x, hx, rfl, hS⟩ := hA.stored i row hrow hst
  exact ⟨x, _, _, hx, hS.key, hS.artifact, rfl, hS.latency, hS.promptTokens, hS.completionTokens,
    by rw [modelOutput, hS.artifact]; rfl, hA.graded x.item x hx⟩

/-- The provider gives another answer. -/
def answersFive : Choice := { answersMatched with completion := .result ⟨"5", 200000, 100000, 9⟩ }

/-- A message is delivered twice; the second execution starts when the first has finished. -/
theorem artifact_coherent_small : ∃ (tr : List (World (Fin 2) (Fin 1) × Label (Fin 2) (Fin 1)))
    (w : World (Fin 2) (Fin 1)), Run (step (smallConfig 1 1 5000000)) World.init tr w ∧
      w.store.db.grades.length = 1 ∧
      ∃ row, w.store.db.items.get 0 = some row ∧ row.status = .succeeded ∧ Coherent tr w 0 row := by
  obtain ⟨tr, w, hrun, -, htest⟩ := exists_run_of_play
    (step (smallConfig 1 1 5000000)) (World.init : World (Fin 2) (Fin 1)) (fun _ _ => true)
    (launch 0 1 ++ [.deliver 0 0] ++ execs 0 answersMatched 11 ++ [.redeliver 1 0] ++
      execs 1 answersFive 1)
    (fun tr w => w.store.db.grades.length == 1 &&
      (w.store.db.items.get 0).any (fun row => row.status == .succeeded) &&
      followsFrom (fun a v l => decide (InTurn a v l)) [] tr)
    (by decide)
  simp only [Bool.and_eq_true, beq_iff_eq, Option.any_eq_true] at htest
  obtain ⟨⟨hlen, row, hrow, hst⟩, hok⟩ := htest
  have hok : Follows InTurn tr := by simpa using follows_of_followsFrom hok
  exact ⟨tr, w, hrun, hlen, row, hrow, hst, artifact_coherent hrun hok hrow hst⟩

/-- A message is delivered twice.  The execution that loses writes its artifact behind the
winner's update: the row and the grades are of one answer, the blob is of the other. -/
theorem loser_overwrites : ¬ ∀ (lib : Libraries) (settings : Settings)
    (tr : List (World (Fin 2) (Fin 1) × Label (Fin 2) (Fin 1))) (w : World (Fin 2) (Fin 1)),
      Run (step (smallConfig 1 1 5000000)) World.init tr w → Along (Judges lib settings) tr →
        ∀ i row, w.store.db.items.get i = some row → row.status = .succeeded →
          (∀ s e, w.workers s = some e → e.rid ≠ i) → Coherent tr w i row := by
  intro hall
  obtain ⟨tr, w, hrun, hok, htest⟩ := exists_run_of_play
    (step (smallConfig 1 1 5000000)) (World.init : World (Fin 2) (Fin 1)) judgesMatched
    (launch 0 1 ++ [.deliver 0 0, .redeliver 1 0] ++ execs 1 answersFive 1 ++
      execs 0 answersMatched 5 ++ execs 1 answersFive 3 ++ execs 0 answersMatched 6 ++
      execs 1 answersFive 2)
    (fun _ w => (w.store.db.items.get 0).any (fun row => row.status == .succeeded &&
        row.promptTokens == some 100000 && (row.artifactKey.bind w.store.artifacts).any fun artifact =>
          artifact.rawResponse.promptTokens == 200000) &&
      decide (∀ s, w.workers s = none))
    (by decide)
  simp only [Bool.and_eq_true, Option.any_eq_true, beq_iff_eq, decide_eq_true_eq] at htest
  obtain ⟨⟨row, hrow, ⟨hst, htok⟩, artifact, hart, hblob⟩, hidle⟩ := htest
  have hj : Along (Judges plainLibraries {}) tr := hok.mono fun _ _ h => judges_of_matched h
  obtain ⟨winner, key, artifact', -, hkey, hart', -, -, htok', -⟩ :=
    hall plainLibraries {} tr w hrun hj 0 row hrow hst fun s e h => absurd h (by simp [hidle s])
  rw [hkey, Option.bind_some, hart', Option.some.injEq] at hart
  rw [hart, hblob, htok] at htok'
  exact absurd htok' (by decide)

end EvalHarness
