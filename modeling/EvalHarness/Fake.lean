/-
# Runs with the development provider (`app/providers/fake.py`)

`FakeProvider` is what an installation without API keys evaluates with.  It makes the answer out of the
prompt and the model id, so that "repeated runs of the same item are stable".  `fake_provider_stable`
is that promise for the whole system: whatever is delivered twice, dies, is cancelled or replayed,
every succeeded item has the one answer its task and endpoint determine, in its row and in Redis.

The same provider also plays the judge, and a judge's verdict is a JSON object.  `FakeProvider` echoes
the model id and the head of the prompt; unless the id itself quotes a name (`PlainId`) that is no
object with members, and `fake_judge_never_scores` says what comes of it: no judge's score, no review,
and a board that goes by the deterministic grades alone.
-/
import EvalHarness.Artifacts
import EvalHarness.Attempts
import EvalHarness.Auth
import EvalHarness.Isolation
import EvalHarness.Judge
import EvalHarness.Leaderboard
import EvalHarness.Service

namespace EvalHarness

open Lts
open Py (Str str)

/-! ## 1. The provider -/

/-- `int.from_bytes(bytes, "big")`. -/
def fromBytes (bytes : List UInt8) : Nat := bytes.foldl (fun n b => 256 * n + b.toNat) 0

/-- `FakeProvider.complete`. -/
def fakeComplete (dig : Digests) (prompt modelId : String) : CompletionResult :=
  let digest := dig.sha256 (encode s!"{modelId}:{prompt}")
  let seed := fromBytes (digest.take 4)
  { text := s!"[fake:{modelId}] {String.ofList (prompt.toList.take 100)}"
    promptTokens := max 1 (words prompt).length
    completionTokens := 10 + seed % 41
    latencyMs := 5 + seed % 16 }

variable {σ η : Type} [DecidableEq σ] [DecidableEq η] {cfg : Config} {w w' : World σ η}

/-- The provider answers every call, and answers the same question the same way. -/
def AnswersBy (f : String → String → CompletionResult) (w : World σ η) (l : Label σ η) : Prop :=
  ∀ s c i v a, l = .exec s c → w.workers s = some ⟨i, .at v (.complete a)⟩ →
    c.completion = .result (f v.task.prompt v.endpoint.modelId)

/-! ## 2. What a provider without moods leaves behind -/

/-- The completion an execution works with. -/
def Pc.result : Pc → Option CompletionResult
  | .checkCancelled r | .writeArtifact r | .finalise r | .abortCheck r | .gradeRead r | .judge r =>
    some r
  | _ => none

/-- The execution has given its item up, for the provider's sake. -/
def Pc.hasFailed : Pc → Bool
  | .markNonRetryable _ | .markDeadLettered _ | .publishDeadLetter => true
  | _ => false

/-- The errors of an item that did not fail at the provider. -/
def OwnError (error : Option String) : Prop :=
  error = some "eval run cancelled" ∨ error = some "eval run aborted" ∨
    error = some "aborted: eval run spend limit exceeded" ∨
    ∃ e : String, error = some (gradingError e)

/-- The measurements of a row are those of a completion. -/
structure RunItem.Records (row : RunItem) (i : ItemId) (modelId : String) (r : CompletionResult) :
    Prop where
  latencyMs : row.latencyMs = some r.latencyMs
  promptTokens : row.promptTokens = some r.promptTokens
  completionTokens : row.completionTokens = some r.completionTokens
  costUsd : row.costUsd = some (computeCost modelId r.promptTokens r.completionTokens)
  artifactKey : row.artifactKey = some ⟨i⟩

/-- The task and the endpoint of a row. -/
def Catalog.Has (cat : Catalog) (row : RunItem) (task : Task) (endpoint : ModelEndpoint) : Prop :=
  cat.tasks.get row.taskId = some task ∧ cat.endpoints.get row.modelEndpointId = some endpoint

/-- The artifact of a completion. -/
def blobOf (task : Task) (endpoint : ModelEndpoint) (r : CompletionResult) : Artifact :=
  ⟨task.prompt, endpoint.modelId, endpoint.baseUrl, r⟩

structure Stable (cfg : Config) (f : String → String → CompletionResult) (w : World σ η) : Prop where
  result : ∀ s i v pc r, w.workers s = some ⟨i, .at v pc⟩ → pc.result = some r →
    r = f v.task.prompt v.endpoint.modelId
  unfailed : ∀ s i v pc, w.workers s = some ⟨i, .at v pc⟩ → pc.hasFailed = false
  artifact : ∀ i a, w.store.artifacts ⟨i⟩ = some a → ∀ row task endpoint,
    w.store.db.items.get i = some row → cfg.catalog.Has row task endpoint →
      a = blobOf task endpoint (f task.prompt endpoint.modelId)
  /-- There is no artifact without an item. -/
  owned : ∀ i, (w.store.artifacts ⟨i⟩).isSome = true → (w.store.db.items.get i).isSome = true
  status : ∀ i row, w.store.db.items.get i = some row → row.status ≠ .deadLettered
  error : ∀ i row, w.store.db.items.get i = some row → row.status = .failed → OwnError row.error
  columns : ∀ i row task endpoint, w.store.db.items.get i = some row → row.status = .succeeded →
    cfg.catalog.Has row task endpoint →
      row.Records i endpoint.modelId (f task.prompt endpoint.modelId)
  dlq : w.store.dlq = []

variable {f : String → String → CompletionResult}

theorem Stable.init {σ η : Type} : Stable cfg f (World.init : World σ η) where
  result s i v pc r he := absurd he (by simp [World.init])
  unfailed s i v pc he := absurd he (by simp [World.init])
  artifact i a ha := absurd ha (by simp [World.init])
  owned i ha := absurd ha (by simp [World.init])
  status i row h := absurd h (by simp [World.init, Db.empty])
  error i row h := absurd h (by simp [World.init, Db.empty])
  columns i row task endpoint h := absurd h (by simp [World.init, Db.empty])
  dlq := rfl

/-- What an execution has loaded is what the catalog has for its item. -/
theorem Sane.has_loaded {σ η : Type} {w : World σ η}
    (hS : Sane cfg w) {s : σ} {i : ItemId} {v : Loaded} {pc : Pc}
    (he : w.workers s = some ⟨i, .at v pc⟩) {row : RunItem} (hrow : w.store.db.items.get i = some row)
    {task : Task} {endpoint : ModelEndpoint} (hcat : cfg.catalog.Has row task endpoint) :
    v.task = task ∧ v.endpoint = endpoint := by
  obtain ⟨row', hrow', -, hend, htask⟩ := hS.loaded s i v pc he
  obtain rfl := Option.some.inj (hrow.symm.trans hrow')
  exact ⟨Option.some.inj (htask.symm.trans hcat.1), Option.some.inj (hend.symm.trans hcat.2)⟩

theorem Stable.result_step {l : Label σ η} (hI : Stable cfg f w) (hp : AnswersBy f w l)
    (hs : step cfg w l = some w') {s : σ} {i : ItemId} {v : Loaded} {pc : Pc} {r : CompletionResult}
    (he' : w'.workers s = some ⟨i, .at v pc⟩) (hr : pc.result = some r) :
    r = f v.task.prompt v.endpoint.modelId := by
  have hfirst : pc.isFirst = false := by
    cases pc <;> first | rfl | exact absurd hr (by simp [Pc.result])
  rcases step_pc hs he' hfirst with ⟨hw, -⟩ | ⟨c, pc₀, rfl, hw, hstep⟩
  · exact hI.result s i v pc r hw hr
  · cases hstep with
    | answered hc =>
      obtain rfl := Option.some.inj hr
      exact Completion.result.inj (hc.symm.trans (hp s c i v _ rfl hw))
    | passed | written | won | within | ungraded => exact hI.result s i v _ r hw hr
    | _ => exact absurd hr (by simp [Pc.result])

theorem Stable.unfailed_step {l : Label σ η} (hmax : 1 ≤ cfg.retry.maxAttempts)
    (hI : Stable cfg f w) (hp : AnswersBy f w l) (hs : step cfg w l = some w') {s : σ} {i : ItemId}
    {v : Loaded} {pc : Pc} (he' : w'.workers s = some ⟨i, .at v pc⟩) : pc.hasFailed = false := by
  cases step_at hs he' with
  | stayed hw _ => exact hI.unfailed s i v pc hw
  | started _ _ _ _ _ _ hcase =>
    rcases hcase with ⟨rfl, -⟩ | ⟨rfl, -⟩ | ⟨rfl, -⟩
    · rfl
    · rfl
    · rw [nextAttempt, if_pos hmax]
      rfl
  | @stepped c pc₀ hw hstep =>
    cases hstep with
    | retry hc | exhausted hc | rejected hc =>
      exact absurd (hc.symm.trans (hp s c i v _ rfl hw)) (by simp)
    | deadLettered => exact absurd (hI.unfailed s i v _ hw) (by simp [Pc.hasFailed])
    | _ => rfl

theorem Stable.row_step {l : Label σ η} (hS : Sane cfg w) (hI : Stable cfg f w)
    (hs : step cfg w l = some w') {i : ItemId} {row' : RunItem}
    (hrow' : w'.store.db.items.get i = some row') :
    row'.status ≠ .deadLettered ∧ (row'.status = .failed → OwnError row'.error) ∧
      ∀ task endpoint, row'.status = .succeeded → cfg.catalog.Has row' task endpoint →
        row'.Records i endpoint.modelId (f task.prompt endpoint.modelId) := by
  cases hrow : w.store.db.items.get i with
  | none =>
    obtain ⟨_, _, _, _, _, -, -, -, p, rfl, -⟩ := step_item_new hs hrow' hrow
    exact ⟨by simp, by simp, by simp⟩
  | some row =>
    have hch := itemChange hs hrow hrow'
    cases hch with
    | keep =>
      exact ⟨hI.status i _ hrow, hI.error i _ hrow, fun task endpoint hst hcat =>
        hI.columns i _ task endpoint hrow hst hcat⟩
    | markRunning => exact ⟨by simp, by simp, by simp⟩
    | @markFailed s c v pc error hw hpc =>
      refine ⟨by simp, fun _ => ?_, by simp⟩
      cases pc with
      | skipAborted =>
        obtain rfl := Option.some.inj hpc
        exact Or.inr (Or.inl rfl)
      | markGradingFailed e =>
        obtain rfl := Option.some.inj hpc
        exact Or.inr (Or.inr (Or.inr ⟨e, rfl⟩))
      | markNonRetryable e => exact absurd (hI.unfailed s i v _ hw) (by simp [Pc.hasFailed])
      | _ => exact absurd hpc (by simp [Pc.failsWith])
    | markDeadLettered hw => exact absurd (hI.unfailed _ i _ _ hw) (by simp [Pc.hasFailed])
    | markCancelled | cancel => exact ⟨by simp, fun _ => Or.inl rfl, by simp⟩
    | abort => exact ⟨by simp, fun _ => Or.inr (Or.inr (Or.inl rfl)), by simp⟩
    | requeue => exact ⟨by simp, by simp, by simp⟩
    | @finalise s c v r hw =>
      refine ⟨by simp [finalisedRow], by simp [finalisedRow], fun task endpoint _ hcat => ?_⟩
      obtain ⟨htask, hend⟩ := hS.has_loaded hw hrow hcat
      obtain rfl := hI.result s i v _ r hw rfl
      rw [← htask, ← hend]
      exact ⟨rfl, rfl, rfl, rfl, rfl⟩

theorem Stable.artifact_step {l : Label σ η} (hS : Sane cfg w) (hI : Stable cfg f w)
    (hs : step cfg w l = some w') {i : ItemId} {a : Artifact}
    (ha : w'.store.artifacts ⟨i⟩ = some a) {row' : RunItem} {task : Task} {endpoint : ModelEndpoint}
    (hrow' : w'.store.db.items.get i = some row') (hcat : cfg.catalog.Has row' task endpoint) :
    a = blobOf task endpoint (f task.prompt endpoint.modelId) := by
  rw [step_artifacts hs i, Option.or_eq_some_iff] at ha
  rcases ha with ha | ⟨-, ha⟩
  · -- the blob of the step: its execution has loaded the item
    obtain ⟨x, hx, rfl⟩ := Option.map_eq_some_iff.mp ha
    obtain ⟨hpass, hi⟩ := Option.filter_eq_some_iff.mp hx
    obtain rfl : x.item = i := by simpa using hi
    obtain ⟨c, pc, -, he, hpc⟩ := passage_eq_some.mp hpass
    obtain ⟨row, hrow, -⟩ := hS.loaded x.slot x.item x.loaded pc he
    have hkeeps := (itemChange hs hrow hrow').keeps
    have hcat' : cfg.catalog.Has row task endpoint := by
      rw [Catalog.Has, ← hkeeps.2.1, ← hkeeps.2.2]
      exact hcat
    obtain ⟨htask, hend⟩ := hS.has_loaded he hrow hcat'
    cases pc with
    | writeArtifact r =>
      obtain rfl := Option.some.inj hpc
      rw [hI.result _ _ _ _ _ he rfl, artifactOf, htask, hend]
      rfl
    | _ => exact absurd hpc (by simp [Pc.writes])
  · obtain ⟨row, hrow⟩ := Option.isSome_iff_exists.mp (hI.owned i (by simp [ha]))
    have hkeeps := (itemChange hs hrow hrow').keeps
    refine hI.artifact i a ha row task endpoint hrow ?_
    rw [Catalog.Has, ← hkeeps.2.1, ← hkeeps.2.2]
    exact hcat

theorem Stable.owned_step {l : Label σ η} (hS : Sane cfg w) (hI : Stable cfg f w)
    (hs : step cfg w l = some w') {i : ItemId} (ha : (w'.store.artifacts ⟨i⟩).isSome = true) :
    (w'.store.db.items.get i).isSome = true := by
  have hold : (w.store.db.items.get i).isSome = true := by
    obtain ⟨a, ha⟩ := Option.isSome_iff_exists.mp ha
    rw [step_artifacts hs i, Option.or_eq_some_iff] at ha
    rcases ha with ha | ⟨-, ha⟩
    · obtain ⟨x, hx, -⟩ := Option.map_eq_some_iff.mp ha
      obtain ⟨hpass, hi⟩ := Option.filter_eq_some_iff.mp hx
      obtain rfl : x.item = i := by simpa using hi
      obtain ⟨c, pc, -, he, -⟩ := passage_eq_some.mp hpass
      exact hS.sent _ (hS.known x.slot _ he)
    · exact hI.owned i (by simp [ha])
  obtain ⟨row, hrow⟩ := Option.isSome_iff_exists.mp hold
  obtain ⟨row', hrow', -⟩ := step_item hs hrow
  simp [hrow']

theorem Stable.dlq_step {l : Label σ η} (hI : Stable cfg f w) (hs : step cfg w l = some w') :
    w'.store.dlq = [] := by
  refine List.eq_nil_iff_forall_not_mem.mpr fun i hi => ?_
  have hcount := EvalHarness.dlq_step hs i
  have hnone : takes Pc.notices i (w, l) = false := by
    refine Bool.eq_false_iff.mpr fun ht => ?_
    obtain ⟨s, c, v, pc, rfl, he, hpc⟩ := takes_iff.mp ht
    cases pc with
    | publishDeadLetter => exact absurd (hI.unfailed s i v _ he) (by simp [Pc.hasFailed])
    | _ => exact absurd hpc (by simp [Pc.notices])
  rw [hI.dlq, hnone] at hcount
  exact absurd (List.count_eq_zero.mp (by simpa using hcount)) (not_not.mpr hi)

theorem Stable.step {l : Label σ η} (hmax : 1 ≤ cfg.retry.maxAttempts) (hS : Sane cfg w)
    (hI : Stable cfg f w) (hp : AnswersBy f w l) (hs : step cfg w l = some w') :
    Stable cfg f w' where
  result _ _ _ _ _ he' hr := hI.result_step hp hs he' hr
  unfailed _ _ _ _ he' := hI.unfailed_step hmax hp hs he'
  artifact _ _ ha _ _ _ hrow' hcat := hI.artifact_step hS hs ha hrow' hcat
  owned _ ha := hI.owned_step hS hs ha
  status _ _ hrow' := (hI.row_step hS hs hrow').1
  error _ _ hrow' := (hI.row_step hS hs hrow').2.1
  columns _ _ task endpoint hrow' := (hI.row_step hS hs hrow').2.2 task endpoint
  dlq := hI.dlq_step hs

theorem stable_of_run (hmax : 1 ≤ cfg.retry.maxAttempts) {tr : List (World σ η × Label σ η)}
    (h : Run (step cfg) World.init tr w) (hp : Along (AnswersBy f) tr) : Stable cfg f w :=
  (h.invariant (I := fun w => Sane cfg w ∧ Stable cfg f w)
    (fun _ _ _ ⟨hS, hI⟩ hp hs => ⟨sane_step hS hs, hI.step hmax hS hp hs⟩) hp
    ⟨sane_init, .init⟩).2

theorem written_of_run {tr : List (World σ η × Label σ η)} (h : Run (step cfg) World.init tr w) :
    w.Written :=
  h.stable (fun _ _ _ hI hs => hI.step hs) .init

/-- **Runs with `FakeProvider` are stable.**  Whatever the scheduler does, deliveries twice over,
deaths, cancellations, budgets and replays included: no item is dead-lettered, nothing reaches
`evals.dlq`, and what fails does not fail at the provider; a succeeded item has the tokens, the
latency and the cost of the one completion its task and endpoint determine, and the artifact of that
completion in Redis; so two such items of one task and endpoint, of whatever runs, have the same. -/
theorem fake_provider_stable {dig : Digests} (hmax : 1 ≤ cfg.retry.maxAttempts)
    {tr : List (World σ η × Label σ η)} (h : Run (EvalHarness.step cfg) World.init tr w)
    (hp : Along (AnswersBy (fakeComplete dig)) tr) :
    w.store.dlq = [] ∧
    (∀ i row, w.store.db.items.get i = some row → row.status ≠ .deadLettered ∧
      (row.status = .failed → OwnError row.error) ∧
      (row.status = .succeeded → ∃ task endpoint, cfg.catalog.Has row task endpoint ∧
        row.Records i endpoint.modelId (fakeComplete dig task.prompt endpoint.modelId) ∧
        w.store.artifacts ⟨i⟩ =
          some (blobOf task endpoint (fakeComplete dig task.prompt endpoint.modelId)))) ∧
    ∀ i j x y, w.store.db.items.get i = some x → w.store.db.items.get j = some y →
      x.status = .succeeded → y.status = .succeeded → x.taskId = y.taskId →
      x.modelEndpointId = y.modelEndpointId →
        x.latencyMs = y.latencyMs ∧ x.promptTokens = y.promptTokens ∧
          x.completionTokens = y.completionTokens ∧ x.costUsd = y.costUsd ∧
          w.store.artifacts ⟨i⟩ = w.store.artifacts ⟨j⟩ := by
  have hI := stable_of_run hmax h hp
  have hW := written_of_run h
  have hS := sane_of_run h
  have hstored : ∀ {i row task endpoint}, w.store.db.items.get i = some row →
      row.status = .succeeded → cfg.catalog.Has row task endpoint → w.store.artifacts ⟨i⟩ =
        some (blobOf task endpoint (fakeComplete dig task.prompt endpoint.modelId)) := by
    intro i row task endpoint hrow hst hcat
    obtain ⟨a, ha⟩ := Option.isSome_iff_exists.mp
      (hW.succeeded i (Option.map_eq_some_iff.mpr ⟨row, hrow, hst⟩))
    rw [ha, hI.artifact i a ha row task endpoint hrow hcat]
  refine ⟨hI.dlq, fun i row hrow => ⟨hI.status i row hrow, hI.error i row hrow, fun hst => ?_⟩, ?_⟩
  · obtain ⟨⟨task, htask⟩, endpoint, hend⟩ := hS.catalog_of_item i row hrow
    exact ⟨task, endpoint, ⟨htask, hend⟩, hI.columns i row task endpoint hrow hst ⟨htask, hend⟩,
      hstored hrow hst ⟨htask, hend⟩⟩
  · intro i j x y hx hy hstx hsty htask hend
    obtain ⟨⟨task, ht⟩, endpoint, he⟩ := hS.catalog_of_item i x hx
    have hcat : cfg.catalog.Has y task endpoint := ⟨htask ▸ ht, hend ▸ he⟩
    have hcx := hI.columns i x task endpoint hx hstx ⟨ht, he⟩
    have hcy := hI.columns j y task endpoint hy hsty hcat
    exact ⟨hcx.latencyMs.trans hcy.latencyMs.symm, hcx.promptTokens.trans hcy.promptTokens.symm,
      hcx.completionTokens.trans hcy.completionTokens.symm, hcx.costUsd.trans hcy.costUsd.symm,
      (hstored hx hstx ⟨ht, he⟩).trans (hstored hy hsty hcat).symm⟩

/-- SHA-256 of the one text that is hashed below. -/
def smallDigests : Digests where
  sha256 bytes :=
    if bytes = encode "gpt-4o:2 + 2?" then
      [125, 40, 12, 115, 242, 113, 189, 198, 106, 51, 242, 227, 159, 207, 71, 244,
      156, 205, 245, 175, 2, 90, 87, 102, 35, 29, 254, 40, 67, 93, 115, 95]
    else []
  derive _ _ _ := []

/-- What `FakeProvider` answers. -/
def answersFake : Choice :=
  { answers with completion := .result ⟨"[fake:gpt-4o] 2 + 2?", 3, 13, 8⟩ }

theorem fakeComplete_small :
    fakeComplete smallDigests "2 + 2?" "gpt-4o" = ⟨"[fake:gpt-4o] 2 + 2?", 3, 13, 8⟩ := by
  decide +kernel

def callsFake (w : World σ η) (l : Label σ η) : Bool :=
  match l with
  | .exec s c =>
    match w.workers s with
    | some ⟨_, .at v (.complete _)⟩ =>
      v.task.prompt == "2 + 2?" && v.endpoint.modelId == "gpt-4o" &&
        c.completion == answersFake.completion
    | _ => true
  | _ => true

theorem answersBy_of_callsFake {σ η : Type} {w : World σ η}
    {l : Label σ η} (h : callsFake w l = true) :
    AnswersBy (fakeComplete smallDigests) w l := by
  rintro s c i v a rfl he
  simp only [callsFake, he, Bool.and_eq_true, beq_iff_eq] at h
  obtain ⟨⟨hprompt, hmodel⟩, hc⟩ := h
  rw [hc, hprompt, hmodel, fakeComplete_small]
  rfl

/-- Two runs evaluate the same task, the second one with its message delivered twice. -/
theorem fake_provider_stable_small : ∃ (w : World (Fin 2) (Fin 1)) (x y : RunItem),
    w.store.db.items.get 0 = some x ∧ w.store.db.items.get 1 = some y ∧
      x.evalRunId ≠ y.evalRunId ∧ x.completionTokens = y.completionTokens ∧
      x.costUsd = y.costUsd ∧ w.store.artifacts ⟨0⟩ = w.store.artifacts ⟨1⟩ := by
  obtain ⟨tr, w, hrun, hok, htest⟩ := exists_run_of_play (step (smallConfig 1 1 5000000))
    (World.init : World (Fin 2) (Fin 1)) callsFake
    (launchTwo 0 ++ [.deliver 0 0] ++ execs 0 answersFake 11 ++ [.deliver 0 1, .redeliver 1 1] ++
      execs 1 answersFake 1 ++ execs 0 answersFake 11 ++ execs 1 answersFake 8)
    (fun _ w => (w.store.db.items.get 0).any (fun x => x.status == .succeeded && x.evalRunId == 0 &&
        x.taskId == 0 && x.modelEndpointId == 0) &&
      (w.store.db.items.get 1).any fun y => y.status == .succeeded && y.evalRunId == 1 &&
        y.taskId == 0 && y.modelEndpointId == 0)
    (by decide +kernel)
  simp only [Bool.and_eq_true, Option.any_eq_true, beq_iff_eq] at htest
  obtain ⟨⟨x, hx, ⟨⟨hstx, hrx⟩, htx⟩, hmx⟩, y, hy, ⟨⟨hsty, hry⟩, hty⟩, hmy⟩ := htest
  have hp : Along (AnswersBy (fakeComplete smallDigests)) tr :=
    hok.mono fun _ _ h => answersBy_of_callsFake h
  obtain ⟨-, -, hsame⟩ := fake_provider_stable (by decide) hrun hp
  obtain ⟨-, -, htokens, hcost, hart⟩ :=
    hsame 0 1 x y hx hy hstx hsty (htx.trans hty.symm) (hmx.trans hmy.symm)
  exact ⟨w, x, y, hx, hy, by simp [hrx, hry], htokens, hcost, hart⟩

/-! ## 3. The provider as the judge -/

/-- How the judge's prompt begins. -/
def judgeHead : String :=
  "You are a strict eval judge. Score the model answer against each rubric criterion.\n\nTask prompt:\n"

/-- What follows the task's prompt.  `criteria` and `names` are the lines and the names of the
rubric, in which weights are printed. -/
def judgeTail (expectedOutput : Option String) (output criteria names : String) : String :=
  let expectedLine := match expectedOutput with
    | none => ""
    | some expected => if expected = "" then "" else s!"Expected output: {expected}\n"
  s!"\n\n{expectedLine}Model output:\n{output}\n\nRubric:\n{criteria}\n\n" ++
    "Return ONLY a JSON object with this exact shape:\n" ++
    "\x7b\"rubric_scores\": \x7b\"<criterion>\": <0.0-1.0 score>\x7d,\n" ++
    " \"overall\": <weighted mean of rubric_scores>,\n" ++
    s!" \"rationale\": \"<one sentence>\"\x7d\n\nCriterion names: {names}"

/-- `build_judge_prompt`. -/
def buildJudgePrompt (prompt : String) (expectedOutput : Option String)
    (output criteria names : String) : String :=
  judgeHead ++ prompt ++ judgeTail expectedOutput output criteria names

/-- The prompt of the second attempt, behind an error with this text. -/
def retryPrompt (judgePrompt error : String) : String :=
  judgePrompt ++ s!"\n\nYour previous response was not parseable as the required JSON ({error}). " ++
    "Respond with ONLY the JSON object."

theorem retryPrompt_append (s t error : String) :
    retryPrompt (s ++ t) error = s ++ retryPrompt t error := by
  simp only [retryPrompt, String.append_assoc]

/-- The texts `FakeProvider` answers `llm_judge.grade` with, about this output. -/
def FakeAnswers (dig : Digests) (judgeModelId : String) (task : Task) (output : String)
    (first second : Str) : Prop :=
  ∃ criteria names error,
    let judgePrompt := buildJudgePrompt task.prompt task.expectedOutput output criteria names
    first = str (fakeComplete dig judgePrompt judgeModelId).text ∧
      second = str (fakeComplete dig (retryPrompt judgePrompt error) judgeModelId).text

/-- A model id that quotes nothing: no name of a member stands in it, and no fence. -/
structure PlainId (modelId : String) : Prop where
  quote : 0x22 ∉ str modelId
  tick : 0x60 ∉ str modelId

instance (modelId : String) : Decidable (PlainId modelId) :=
  decidable_of_iff (0x22 ∉ str modelId ∧ 0x60 ∉ str modelId)
    ⟨fun ⟨h1, h2⟩ => ⟨h1, h2⟩, fun ⟨h1, h2⟩ => ⟨h1, h2⟩⟩

/-! ### A text that begins with a bracket and has no room for a member -/

/-- Stripping does not reach behind a character that stays. -/
theorem rdropWhile_append {p : Nat → Bool} {s : Str} (hs : ∀ c ∈ s, p c = false) (t : Str) :
    (s ++ t).rdropWhile p = s ++ t.rdropWhile p := by
  have hrev : s.reverse.dropWhile p = s.reverse := by
    cases h : s.reverse with
    | nil => rfl
    | cons c r =>
      have hc : c ∈ s := List.mem_reverse.mp (h ▸ List.mem_cons_self)
      rw [List.dropWhile_cons_of_neg (by simp [hs c hc])]
  rw [List.rdropWhile, List.reverse_append, List.dropWhile_append, hrev]
  split
  · rename_i hnil
    rw [List.isEmpty_iff] at hnil
    simp [List.rdropWhile, hnil]
  · simp [List.rdropWhile]

theorem foldl_fail (codec : Py.Codec) (e : Py.Exc) (s : Str) :
    s.foldl (Py.Json.step codec) (.fail e) = .fail e := by
  induction s with
  | nil => rfl
  | cons c s ih => exact ih

/-- A bracket with a word in it that begins with `fak` is no array. -/
theorem loads_fak {codec : Py.Codec} (hdepth : 1 ≤ codec.depth) (s : Str) :
    Py.Json.loads codec (str "[fak" ++ s) = .error .jsonDecodeError := by
  have hbegin : (str "[fak").foldl (Py.Json.step codec) (.run [] .value) = .fail .jsonDecodeError := by
    have hpos : 0 < codec.depth := hdepth
    simp [str, Py.Json.step, Py.Json.isWs, Py.Json.beginValue, hpos]
  rw [Py.Json.loads, if_neg (by simp [str]), List.foldl_append, hbegin, foldl_fail]
  rfl

/-- Two fences are six backticks. -/
theorem fenced_of_count_lt {s : Str} (h : s.count 0x60 < 6) : fenced s = none := by
  rw [fenced_eq_none_iff]
  rintro ⟨a, b, c, rfl⟩
  have hticks : ticks.count 0x60 = 3 := by decide
  simp only [List.count_append, hticks] at h
  omega

/-- Stripping takes nothing from the word in front. -/
theorem strip_fak (pre x : Str) : Py.strip (str "[fak" ++ pre ++ x) =
    str "[fak" ++ (pre ++ x).rdropWhile Py.isSpace := by
  rw [Py.strip, Py.stripOf, List.append_assoc, ← rdropWhile_append (by decide)]
  rfl

/-- Between two braces there is room for no more than an empty object. -/
theorem loads_short {codec : Py.Codec} (hdepth : 1 ≤ codec.depth) {t : Str} (hlen : t.length ≤ 3)
    (hhead : t.head? = some 0x7b) (hlast : t.getLast? = some 0x7d) :
    Py.Json.loads codec t = .ok (.obj []) ∨ Py.Json.loads codec t = .error .jsonDecodeError := by
  have hpos : 0 < codec.depth := hdepth
  match t, hlen with
  | [a], _ => simp_all
  | [a, b], _ =>
    obtain rfl : a = 0x7b := by simpa using hhead
    obtain rfl : b = 0x7d := by simpa using hlast
    left
    simp [Py.Json.loads, Py.Json.step, Py.Json.isWs, Py.Json.beginValue, hpos, Py.Json.complete,
      Py.Json.finish]
  | [a, b, c], _ =>
    obtain rfl : a = 0x7b := by simpa using hhead
    obtain rfl : c = 0x7d := by simpa using hlast
    have hopen : Py.Json.step codec (.run [] .value) 0x7b = .run [] (.member [] true) := by
      simp [Py.Json.step, Py.Json.isWs, Py.Json.beginValue, hpos]
    have hmember : ∀ c, Py.Json.step codec (.run [] (.member [] true)) c =
        if Py.Json.isWs c then .run [] (.member [] true)
        else if c = 0x22 then .run [] (.key [] {})
        else if c = 0x7d then .done (.obj []) else .fail .jsonDecodeError := by
      intro c
      simp only [Py.Json.step, true_and]
      rfl
    simp only [Py.Json.loads, List.head?_cons, List.foldl_cons, List.foldl_nil, hopen, hmember]
    by_cases hws : Py.Json.isWs b = true
    · left
      rw [if_neg (by decide), if_pos hws, hmember]
      rfl
    · right
      rw [if_neg (by decide), if_neg hws]
      split
      · rfl
      · split <;> rfl

/-- From the first brace to the last there are at most three characters, or there is no brace. -/
theorem braces_short {pre x s : Str} (hpre : 0x7b ∉ pre) (hx : x.length ≤ 3) (hs : s <+: pre ++ x)
    {t : Str} (ht : braces s = some t) :
    t.length ≤ 3 ∧ t.head? = some 0x7b ∧ t.getLast? = some 0x7d := by
  simp only [braces] at ht
  split at ht
  · exact absurd ht (by simp)
  · rename_i hne
    obtain rfl := Option.some.inj ht
    have hinit := List.rdropWhile_prefix (· != 0x7d) (s.dropWhile (· != 0x7b))
    have hdrop : s.dropWhile (· != 0x7b) ≠ [] := fun hnil => hne (by rw [hnil]; rfl)
    refine ⟨?_, ?_, ?_⟩
    · refine hinit.length_le.trans ?_
      rcases List.prefix_or_prefix_of_prefix hs (List.prefix_append pre x) with hsp | ⟨y, rfl⟩
      · -- a brace would stand in front
        refine absurd (List.dropWhile_eq_nil_iff.mpr fun c hc => ?_) hdrop
        have hne : c ≠ 0x7b := fun h => hpre (h ▸ hsp.subset hc)
        simpa using hne
      · rw [List.dropWhile_append_of_pos fun c hc => by
          have hne : c ≠ 0x7b := fun h => hpre (h ▸ hc)
          simpa using hne]
        have hy : y <+: x := (List.prefix_append_right_inj pre).mp hs
        exact (List.dropWhile_suffix _).length_le.trans (hy.length_le.trans hx)
    · have hhead := List.head_dropWhile_not (· != 0x7b) hdrop
      obtain ⟨z, hz⟩ := hinit
      have hfirst : ∀ l, (((s.dropWhile (· != 0x7b)).rdropWhile (· != 0x7d)) ++ l).head? = _ :=
        fun _ => List.head?_append_of_ne_nil _ hne
      rw [← hfirst z, hz, List.head?_eq_some_head hdrop]
      simpa using hhead
    · have hlast := List.rdropWhile_last_not (· != 0x7d) _ hne
      rw [List.getLast?_eq_some_getLast hne]
      simpa using hlast

/-- The parser is behind an object without members, or has failed. -/
def Memberless (st : Py.Json.State) : Prop :=
  st = .done (.obj []) ∨ st = .fail .jsonDecodeError

theorem Memberless.foldl {codec : Py.Codec} {st : Py.Json.State} (h : Memberless st) (s : Str) :
    Memberless (s.foldl (Py.Json.step codec) st) := by
  induction s generalizing st with
  | nil => exact h
  | cons c s ih =>
    refine ih ?_
    obtain rfl | rfl := h
    · by_cases hc : Py.Json.isWs c = true
      · exact .inl (if_pos hc)
      · exact .inr (if_neg hc)
    · exact .inr rfl

/-- Where a member may begin and no name is opened, the parser stays in front of the first member, and
no longer than for blanks. -/
theorem foldl_member {codec : Py.Codec} {s : Str} (hs : 0x22 ∉ s) :
    (s.all Py.Json.isWs = true ∧
      s.foldl (Py.Json.step codec) (.run [] (.member [] true)) = .run [] (.member [] true)) ∨
      Memberless (s.foldl (Py.Json.step codec) (.run [] (.member [] true))) := by
  induction s with
  | nil => exact .inl ⟨rfl, rfl⟩
  | cons c s ih =>
    rw [List.mem_cons, not_or] at hs
    have hstep : Py.Json.step codec (.run [] (.member [] true)) c =
        if Py.Json.isWs c then .run [] (.member [] true)
        else if c = 0x7d then .done (.obj []) else .fail .jsonDecodeError := by
      simp only [Py.Json.step, if_neg (Ne.symm hs.1), true_and]
      rfl
    rw [List.foldl_cons, hstep, List.all_cons]
    by_cases hws : Py.Json.isWs c = true
    · rw [if_pos hws, hws, Bool.true_and]
      exact ih hs.2
    · rw [if_neg hws]
      right
      split
      · exact Memberless.foldl (.inl rfl) s
      · exact Memberless.foldl (.inr rfl) s

/-- A brace and a text without a name, or one with a word in front of whatever follows. -/
theorem loads_brace {codec : Py.Codec} (hdepth : 1 ≤ codec.depth) {s x z : Str} (hs : 0x22 ∉ s)
    (hword : s.all Py.Json.isWs = false) (hz : z <+: s ++ x) :
    Py.Json.loads codec (0x7b :: z) = .ok (.obj []) ∨
      Py.Json.loads codec (0x7b :: z) = .error .jsonDecodeError := by
  have hpos : 0 < codec.depth := hdepth
  have hopen : Py.Json.step codec (.run [] .value) 0x7b = .run [] (.member [] true) := by
    simp [Py.Json.step, Py.Json.isWs, Py.Json.beginValue, hpos]
  have hend : z.foldl (Py.Json.step codec) (.run [] (.member [] true)) =
      .run [] (.member [] true) ∨
      Memberless (z.foldl (Py.Json.step codec) (.run [] (.member [] true))) := by
    rcases List.prefix_or_prefix_of_prefix hz (List.prefix_append s x) with hzs | ⟨y, rfl⟩
    · exact (foldl_member fun h => hs (hzs.subset h)).imp_left And.right
    · rw [List.foldl_append]
      obtain ⟨hall, -⟩ | hdone := foldl_member hs
      · cases hword.symm.trans hall
      · exact .inr (hdone.foldl y)
  rw [Py.Json.loads, if_neg (by simp), List.foldl_cons, hopen]
  obtain hstays | hdone | hfail := hend
  · exact .inr (by rw [hstays]; rfl)
  · exact .inl (by rw [hdone]; rfl)
  · exact .inr (by rw [hfail]; rfl)

/-- From the first brace on. -/
theorem braces_from {a b x s t : Str} (ha : 0x7b ∉ a) (hs : s <+: a ++ 0x7b :: (b ++ x))
    (ht : braces s = some t) : ∃ z, t = 0x7b :: z ∧ z <+: b ++ x := by
  simp only [braces] at ht
  split at ht
  · cases ht
  · rename_i hne
    obtain rfl := Option.some.inj ht
    have hdrop : s.dropWhile (· != 0x7b) ≠ [] := fun hnil => hne (by rw [hnil]; rfl)
    have hskip : ∀ c ∈ a, (c != 0x7b) = true := fun c hc => bne_iff_ne.mpr fun h => ha (h ▸ hc)
    rcases List.prefix_or_prefix_of_prefix hs (List.prefix_append a _) with hsa | ⟨y, rfl⟩
    · exact absurd (List.dropWhile_eq_nil_iff.mpr fun c hc => hskip c (hsa.subset hc)) hdrop
    · rw [List.dropWhile_append_of_pos hskip] at hne hdrop ⊢
      have hy : y <+: 0x7b :: (b ++ x) := (List.prefix_append_right_inj a).mp hs
      cases y with
      | nil => exact absurd rfl hdrop
      | cons c y =>
        obtain ⟨rfl, hrest⟩ := List.cons_prefix_cons.mp hy
        rw [List.dropWhile_cons_of_neg (by simp)] at hne ⊢
        have hinit := List.rdropWhile_prefix (· != 0x7d) (0x7b :: y)
        obtain ⟨d, z, hz⟩ := List.exists_cons_of_ne_nil hne
        rw [hz] at hinit ⊢
        obtain ⟨rfl, hzy⟩ := List.cons_prefix_cons.mp hinit
        exact ⟨z, rfl, hzy.trans hrest⟩

section Reading

variable {lib : JudgeLibraries} {rubric : List RubricCriterion}

/-- What stands between the braces of such a text is an empty object or no JSON. -/
theorem loads_braces (hdepth : 1 ≤ lib.codec.depth) {pre word x s t : Str} (hquote : 0x22 ∉ pre)
    (hword : 0x7b ∉ word ∧ 0x22 ∉ word ∧ word.all Py.Json.isWs = false) (hx : x.length ≤ 3)
    (hs : s <+: pre ++ word ++ x) (ht : braces s = some t) :
    Py.Json.loads lib.codec t = .ok (.obj []) ∨
      Py.Json.loads lib.codec t = .error .jsonDecodeError := by
  obtain ⟨hbrace, hname, hblank⟩ := hword
  by_cases hpre : 0x7b ∈ pre
  · obtain ⟨a, b, rfl, ha⟩ := List.eq_append_cons_of_mem hpre
    have hsplit : a ++ 0x7b :: b ++ word ++ x = a ++ 0x7b :: (b ++ word ++ x) := by simp
    obtain ⟨z, rfl, hz⟩ := braces_from ha (hsplit ▸ hs) ht
    refine loads_brace hdepth (fun h => ?_) ?_ hz
    · rcases List.mem_append.mp h with h | h
      · exact hquote (by simp [h])
      · exact hname h
    · rw [List.all_append, hblank, Bool.and_false]
  · have hnone : 0x7b ∉ pre ++ word := fun h => (List.mem_append.mp h).elim hpre hbrace
    obtain ⟨hlen, hhead, hlast⟩ := braces_short hnone hx hs ht
    exact loads_short hdepth hlen hhead hlast

/-- The judge's two handlers take what such a text raises. -/
theorem readVerdict_bracket (rubric : List RubricCriterion) (hdepth : 1 ≤ lib.codec.depth)
    {pre word x : Str} (hquote : 0x22 ∉ pre) (htick : 0x60 ∉ pre ++ word)
    (hword : 0x7b ∉ word ∧ 0x22 ∉ word ∧ word.all Py.Json.isWs = false) (hx : x.length ≤ 3) :
    ∃ e, readVerdict lib rubric (str "[fak" ++ (pre ++ word) ++ x) = .error (.parse e) ∨
      readVerdict lib rubric (str "[fak" ++ (pre ++ word) ++ x) = .error (.validation e) := by
  have hinit : Py.strip (str "[fak" ++ (pre ++ word) ++ x) <+:
      (str "[fak" ++ (pre ++ word)) ++ x := by
    rw [strip_fak, List.append_assoc (str "[fak")]
    exact (List.prefix_append_right_inj _).mpr (List.rdropWhile_prefix _ _)
  have hfront : ∀ {c s}, c ∉ str "[fak" → c ∉ s → c ∉ str "[fak" ++ s := fun h h' hc =>
    (List.mem_append.mp hc).elim h h'
  have hfence : fenced (Py.strip (str "[fak" ++ (pre ++ word) ++ x)) = none := by
    refine fenced_of_count_lt ((hinit.sublist.count_le 0x60).trans_lt ?_)
    rw [List.count_append, List.count_eq_zero.mpr (hfront (by decide) htick), Nat.zero_add]
    exact (List.count_le_length.trans hx).trans_lt (by decide)
  have hload : Py.Json.loads lib.codec (Py.strip (str "[fak" ++ (pre ++ word) ++ x)) =
      .error .jsonDecodeError := by
    rw [strip_fak]
    exact loads_fak hdepth _
  simp only [readVerdict, extractJson, hfence, Option.getD_none, extractFrom, hload]
  cases ht : braces (Py.strip (str "[fak" ++ (pre ++ word) ++ x)) with
  | none => exact ⟨_, Or.inl rfl⟩
  | some t =>
    rw [← List.append_assoc] at hinit
    rcases loads_braces hdepth (hfront (by decide) hquote) hword hx hinit ht with hload | hload
    · exact ⟨_, Or.inr (by simp only [hload]; rfl)⟩
    · exact ⟨_, Or.inl (by simp only [hload]; rfl)⟩

/-- What `FakeProvider` answers to a prompt of the judge: a hundred characters of it are the head and
three more. -/
theorem fakeComplete_text (dig : Digests) (judgeModelId rest : String) :
    str (fakeComplete dig (judgeHead ++ rest) judgeModelId).text =
      str "[fake:" ++ str judgeModelId ++ str "] " ++ str judgeHead ++
        (rest.toList.take 3).map Char.toNat := by
  have htake : (judgeHead ++ rest).toList.take 100 = judgeHead.toList ++ rest.toList.take 3 := by
    have hlen : judgeHead.toList.length = 97 := by decide
    rw [String.toList_append, List.take_append, hlen, List.take_of_length_le (by omega)]
  simp only [fakeComplete, htake, String.ofList_append, String.ofList_toList]
  simp only [str, toString, String.toList_append, List.map_append, String.toList_ofList,
    List.append_assoc]

theorem readVerdict_fake (rubric : List RubricCriterion) (hdepth : 1 ≤ lib.codec.depth)
    {judgeModelId : String} (hid : PlainId judgeModelId) (dig : Digests) (rest : String) :
    ∃ e, readVerdict lib rubric (str (fakeComplete dig (judgeHead ++ rest) judgeModelId).text) =
      .error e ∧ ∀ x, e ≠ .other x := by
  have htext : str (fakeComplete dig (judgeHead ++ rest) judgeModelId).text =
      str "[fak" ++ (str "e:" ++ str judgeModelId ++ str "] " ++ str judgeHead) ++
        (rest.toList.take 3).map Char.toNat := by
    simp only [fakeComplete_text, List.append_assoc]
    rfl
  have hquote : 0x22 ∉ str "e:" ++ str judgeModelId ++ str "] " := by
    simp only [List.mem_append, not_or]
    exact ⟨⟨by decide, hid.quote⟩, by decide⟩
  have htick : 0x60 ∉ str "e:" ++ str judgeModelId ++ str "] " ++ str judgeHead := by
    simp only [List.mem_append, not_or]
    exact ⟨⟨⟨by decide, hid.tick⟩, by decide⟩, by decide⟩
  rw [htext]
  obtain ⟨e, he | he⟩ := readVerdict_bracket rubric hdepth hquote htick
    ⟨by decide, by decide, by decide⟩ (x := (rest.toList.take 3).map Char.toNat) (by simp)
  · exact ⟨_, he, by simp⟩
  · exact ⟨_, he, by simp⟩

/-- **`FakeProvider` returns no verdict**: neither of its two texts is accepted. -/
theorem judgeOutcome_fake {dig : Digests} {judgeModelId : String} {task : Task} {output : String}
    {first second : Str} (hdepth : 1 ≤ lib.codec.depth) (hid : PlainId judgeModelId)
    (h : FakeAnswers dig judgeModelId task output first second) :
    ∃ e, judgeOutcome lib rubric (answers2 first second) = .unparseable e := by
  obtain ⟨criteria, names, error, rfl, rfl⟩ := h
  rw [buildJudgePrompt, String.append_assoc, retryPrompt_append]
  obtain ⟨e₁, h₁, hcaught₁⟩ := readVerdict_fake rubric hdepth hid dig
    (task.prompt ++ judgeTail task.expectedOutput output criteria names)
  obtain ⟨e₂, h₂, hcaught₂⟩ := readVerdict_fake rubric hdepth hid dig
    (retryPrompt (task.prompt ++ judgeTail task.expectedOutput output criteria names) error)
  rw [judgeOutcome, grade_second h₁ hcaught₁, h₂]
  cases e₂ with
  | other x => exact absurd rfl (hcaught₂ x)
  | parse t | validation t => exact ⟨_, rfl⟩

end Reading

/-! ### What the graders make of it -/

/-- Grades of a judge that was never understood. -/
def Unscored (grades : List NewGrade) : Prop :=
  ∀ g ∈ grades, g.grader = .llmJudge → ∃ e, g = failedJudgeGrade e

/-- A judge without a verdict gives no score and asks for no review. -/
theorem gradeRunItem_unscored {lib : Libraries} {settings : Settings} {task : Task} {output : String}
    {judge : JudgeOutcome} {gs : List NewGrade} {review : Option ReviewReason}
    (hj : ∀ rubric, rubricFromConfig lib task.graderConfig = .ok (some rubric) →
      ∃ e, judge = .unparseable e)
    (h : gradeRunItem lib settings task output judge = .graded gs review) :
    Unscored gs ∧ review = none := by
  have hdet : ∀ d : Option DeterministicGrade, Unscored (d.toList.map (·.toGrade)) := by
    intro d g hg hkind
    obtain ⟨x, -, rfl⟩ := List.mem_map.mp hg
    exact absurd hkind (by simp [DeterministicGrade.toGrade])
  cases gradeRunItem_cases h with
  | unjudged => exact ⟨hdet _, rfl⟩
  | @unparseable e =>
    refine ⟨fun g hg hkind => ?_, rfl⟩
    rcases List.mem_append.mp hg with hg | hg
    · exact hdet _ g hg hkind
    · exact ⟨e, List.mem_singleton.mp hg⟩
  | judged _ hr | compared _ hr _ => exact absurd (hj _ hr) (by simp)

/-- The judge of the schedule is `llm_judge.grade` with `FakeProvider` behind it. -/
def FakeJudges (lib : Libraries) (jlib : JudgeLibraries) (settings : Settings) (dig : Digests)
    (judgeModelId : String) (w : World σ η) (l : Label σ η) : Prop :=
  ∀ s c i v r, l = .exec s c → w.workers s = some ⟨i, .at v (.judge r)⟩ →
    ∃ judge, c.grading = gradeRunItem lib settings v.task r.text judge ∧
      ∀ rubric, rubricFromConfig lib v.task.graderConfig = .ok (some rubric) →
        ∃ first second, FakeAnswers dig judgeModelId v.task r.text first second ∧
          judge = judgeOutcome jlib rubric (answers2 first second)

/-- The judge has neither scored nor disagreed. -/
structure Unjudged (w : World σ η) : Prop where
  stored : Unscored (w.store.db.grades.map (·.toNewGrade))
  unreviewed : w.store.db.reviews = []
  graded : ∀ s i v pc gs review, w.workers s = some ⟨i, .at v pc⟩ →
    pc.graded = some (gs, review) → Unscored gs ∧ review = none

section Judging

variable {lib : Libraries} {jlib : JudgeLibraries} {settings : Settings} {dig : Digests}
  {judgeModelId : String}

theorem Unjudged.step {l : Label σ η} (hdepth : 1 ≤ jlib.codec.depth) (hid : PlainId judgeModelId)
    (hI : Unjudged w) (hj : FakeJudges lib jlib settings dig judgeModelId w l)
    (hs : step cfg w l = some w') : Unjudged w' := by
  have htables : Unscored (w'.store.db.grades.map (·.toNewGrade)) ∧ w'.store.db.reviews = [] := by
    rcases step_grades hs with ⟨hg, hr⟩ | ⟨s, c, i, v, gs, review, -, he, -, hdb⟩
    · rw [hg, hr]
      exact ⟨hI.stored, hI.unreviewed⟩
    · obtain ⟨hgs, rfl⟩ := hI.graded s i v _ gs review he rfl
      rw [hdb]
      refine ⟨fun g hg hkind => ?_, by simp [insertGrades, hI.unreviewed]⟩
      rw [insertGrades, List.map_append] at hg
      rcases List.mem_append.mp hg with hg | hg
      · exact hI.stored g hg hkind
      · exact hgs g (by simpa [Function.comp_def] using hg) hkind
  refine ⟨htables.1, htables.2, fun s i v pc gs review he' hpc => ?_⟩
  have hfirst : pc.isFirst = false := by
    cases pc <;> first | rfl | exact absurd hpc (by simp [Pc.graded])
  rcases step_pc hs he' hfirst with ⟨hw, -⟩ | ⟨c, pc₀, rfl, hw, hstep⟩
  · exact hI.graded s i v pc gs review hw hpc
  · cases hstep with
    | agreed hc | disagreed hc =>
      obtain ⟨rfl, rfl⟩ := Prod.mk.inj (Option.some.inj hpc)
      obtain ⟨judge, hjudge, hfake⟩ := hj s c i v _ rfl hw
      refine gradeRunItem_unscored (fun rubric hr => ?_) (hjudge.symm.trans hc)
      obtain ⟨first, second, hans, rfl⟩ := hfake rubric hr
      exact judgeOutcome_fake hdepth hid hans
    | reviewed | unreviewed =>
      obtain ⟨rfl, rfl⟩ := Prod.mk.inj (Option.some.inj hpc)
      have hgs := hI.graded s i v _ _ _ hw rfl
      exact ⟨hgs.1, by first | rfl | exact hgs.2⟩
    | _ => exact absurd hpc (by simp [Pc.graded])

/-- The database without the judge's grades. -/
def Db.unjudged (db : Db) : Db :=
  { db with grades := db.grades.filter fun g => g.grader == .deterministic }

/-- Grades without a score are no rows of the relation `effective`. -/
theorem effective_unjudged {db : Db} (h : Unscored (db.grades.map (·.toNewGrade))) (cat : Catalog)
    (filters : Task → Bool) : effective cat db filters = effective cat db.unjudged filters := by
  have hnone : ∀ g ∈ db.grades, g.grader = .llmJudge → g.score = none := by
    intro g hg hkind
    obtain ⟨e, he⟩ := h g.toNewGrade (List.mem_map.mpr ⟨g, hg, rfl⟩) hkind
    rw [he]
    rfl
  have hjudge : ∀ i, (db.grades.filter fun jg =>
      jg.runItemId == i && jg.grader == .llmJudge && jg.score.isSome) =
        db.unjudged.grades.filter fun jg =>
          jg.runItemId == i && jg.grader == .llmJudge && jg.score.isSome := by
    intro i
    rw [Db.unjudged, List.filter_filter, List.filter_eq_nil_iff.mpr, List.filter_eq_nil_iff.mpr]
    · intro g hg
      cases g.grader <;> simp
    · intro g hg
      cases hk : g.grader with
      | deterministic => simp
      | llmJudge => simp [hnone g hg hk]
  have hdet : ∀ i, (db.grades.filter fun dg =>
      dg.runItemId == i && dg.grader == .deterministic && dg.score.isSome) =
        db.unjudged.grades.filter fun dg =>
          dg.runItemId == i && dg.grader == .deterministic && dg.score.isSome := by
    intro i
    rw [Db.unjudged, List.filter_filter]
    refine List.filter_congr fun g _ => ?_
    cases g.grader <;> simp
  simp only [effective, Sql.leftJoin, hjudge, hdet]
  rfl

/-- **With `FakeProvider` behind it the judge never scores.**  In every run, the judge's model id
quoting nothing: nobody is asked for a review, whatever the judge has graded is the grade of a verdict
that could not be read, and every leaderboard is the one without the judge's grades. -/
theorem fake_judge_never_scores (hdepth : 1 ≤ jlib.codec.depth) (hid : PlainId judgeModelId)
    {tr : List (World σ η × Label σ η)} (h : Run (step cfg) World.init tr w)
    (hj : Along (FakeJudges lib jlib settings dig judgeModelId) tr) :
    w.store.db.reviews = [] ∧
      (∀ g ∈ w.store.db.grades, g.grader = .llmJudge → ∃ e, g.toNewGrade = failedJudgeGrade e) ∧
      ∀ collation taskSetId capability,
        getLeaderboard collation cfg.catalog w.store.db taskSetId capability =
          getLeaderboard collation cfg.catalog w.store.db.unjudged taskSetId capability := by
  have hI : Unjudged w := h.invariant (fun _ _ _ hI hj hs => hI.step hdepth hid hj hs) hj
    ⟨fun g hg => absurd hg (by simp [World.init, Db.empty]), rfl,
      fun _ _ _ _ _ _ he => absurd he (by simp [World.init])⟩
  refine ⟨hI.unreviewed, fun g hg hkind => ?_, fun collation taskSetId capability => ?_⟩
  · exact hI.stored g.toNewGrade (List.mem_map.mpr ⟨g, hg, rfl⟩) hkind
  · simp only [getLeaderboard, leaderboard, leaderboardRows, scoredRows,
      effective_unjudged hI.stored]

end Judging

/-- What `FakeProvider` says to the judge's prompts about the small task, both times. -/
def fakeSays : Str :=
  str "[fake:" ++ str "gpt-4o-mini" ++ str "] " ++ str judgeHead ++ str "2 +"

/-- `FakeProvider` answers the task, and then its judge. -/
def judgedFake : Choice :=
  { answersFake with
    grading := .graded [⟨.deterministic, some 0, some false, none, "exact match"⟩,
      failedJudgeGrade ("judge verdict unparseable after 2 attempts: " ++
        "no JSON object found in judge response")] none }

theorem gradeRunItem_small : gradeRunItem rubricLibraries {} comparedTask "[fake:gpt-4o] 2 + 2?"
    (judgeOutcome sampleJudge [⟨"accuracy"⟩] (answers2 fakeSays fakeSays)) = judgedFake.grading := by
  decide +kernel

def judgesFake (w : World σ η) (l : Label σ η) : Bool :=
  match l with
  | .exec s c =>
    match w.workers s with
    | some ⟨_, .at v (.judge r)⟩ =>
      v.task == comparedTask && r.text == "[fake:gpt-4o] 2 + 2?" && c.grading == judgedFake.grading
    | _ => true
  | _ => true

theorem fakeJudges_of_judgesFake {σ η : Type} {w : World σ η}
    {l : Label σ η} (h : judgesFake w l = true) :
    FakeJudges rubricLibraries sampleJudge {} smallDigests "gpt-4o-mini" w l := by
  rintro s c i v r rfl he
  simp only [judgesFake, he, Bool.and_eq_true, beq_iff_eq] at h
  obtain ⟨⟨ht, hr⟩, hc⟩ := h
  refine ⟨judgeOutcome sampleJudge [⟨"accuracy"⟩] (answers2 fakeSays fakeSays),
    by rw [hc, ht, hr, gradeRunItem_small], fun rubric hrubric => ⟨fakeSays, fakeSays, ?_, ?_⟩⟩
  · rw [ht, hr]
    refine ⟨"- accuracy (weight 1.0/1.00): ", "accuracy", "no JSON object found in judge response",
      ?_, ?_⟩
    · rw [buildJudgePrompt, String.append_assoc, fakeComplete_text, String.toList_append]
      rfl
    · rw [buildJudgePrompt, String.append_assoc, retryPrompt_append, fakeComplete_text,
        retryPrompt_append, String.toList_append]
      rfl
  · rw [ht] at hrubric
    obtain rfl := Option.some.inj (Except.ok.inj (hrubric.symm.trans
      (rfl : rubricFromConfig rubricLibraries comparedTask.graderConfig = .ok (some [⟨"accuracy"⟩]))))
    rfl

/-- A task for both graders: the judge leaves a grade without a score, and the board has the zero of
the other one. -/
theorem fake_judge_never_scores_small : ∃ w : World (Fin 1) (Fin 1), w.store.db.reviews = [] ∧
    (∃ g ∈ w.store.db.grades, g.grader = .llmJudge ∧ ∃ e, g.toNewGrade = failedJudgeGrade e) ∧
      w.store.db.effectiveScore 0 = some (.milli 0) := by
  obtain ⟨tr, w, hrun, hok, htest⟩ := exists_run_of_play (step comparedConfig)
    (World.init : World (Fin 1) (Fin 1)) judgesFake
    (launch 0 1 ++ [.deliver 0 0] ++ execs 0 judgedFake 11)
    (fun _ w => w.store.db.grades.any (fun g => g.grader == .llmJudge) &&
      w.store.db.effectiveScore 0 == some (.milli 0))
    (by decide +kernel)
  simp only [Bool.and_eq_true, List.any_eq_true, beq_iff_eq] at htest
  obtain ⟨⟨g, hg, hkind⟩, hscore⟩ := htest
  obtain ⟨hnone, hgrades, -⟩ := fake_judge_never_scores (by decide) (by decide) hrun
    (hok.mono fun _ _ h => fakeJudges_of_judgesFake h)
  exact ⟨w, hnone, ⟨g, hg, hkind, hgrades g hg hkind⟩, hscore⟩

end EvalHarness
