/-
# The provider adapters (`app/providers/openai.py`, `app/providers/anthropic.py`)

`OpenAIProvider.complete` and `AnthropicProvider.complete` are the same function of what the HTTP
call does, up to names and to the path to the text in the body; `Adapter` has these, and
`Adapter.complete` is the function.  It is to raise nothing but the two provider errors, the only
ones the worker's retry loop takes.  Two steps on the way from a response with status 200 to its
result raise something else: `response.json()`, which stands outside the `try`, and `int` of a token
count, whose `ValueError` and `OverflowError` are not among the exceptions the `try` handles.
`providers_declared` says that there are no others, and that they are what leaves an item running.
-/
import EvalHarness.Lib.PyAccess
import EvalHarness.Retry

namespace EvalHarness

open Lts (Run Follows)
open Py (Str str OnlyShape onlyShape_bind_iff)

/-! ## 1. The adapters -/

/-- What the adapters take from the interpreter. -/
structure Interpreter where
  /-- `str` of a value of a body. -/
  toStr : Py.Json → String
  /-- The text of what taking the body apart raises. -/
  shapeError : Py.Json → String
  /-- The text of an exception nobody handles. -/
  describe : Py.Exc → String

/-- What the HTTP call of an adapter does. -/
inductive HttpOutcome
  /-- `httpx.TimeoutException`. -/
  | timeout (error : String)
  /-- Any other `httpx.HTTPError`. -/
  | transport (error : String)
  /-- `json` is what `response.json()` does. -/
  | response (statusCode : Nat) (text : String) (json : Except Py.Exc Py.Json) (latencyMs : Int)

/-- What `complete` raises. -/
inductive CompleteExc
  | retryable (error : String)
  | nonRetryable (error : String)
  | other (e : Py.Exc)
  deriving DecidableEq

/-- `_RETRYABLE_STATUS`. -/
def retryableStatus : List Nat := [429, 500, 502, 503, 504]

/-- What one adapter has of its own. -/
structure Adapter where
  name : String
  keyVariable : String
  /-- The text of the first choice. -/
  content : Py.Json → Except Py.Exc Py.Json
  promptTokens : Str
  completionTokens : Str
  content_onlyShape : ∀ body, OnlyShape (content body)

/-- The body of the `try`: the content, and the two token counts. -/
def Adapter.readBody (p : Adapter) (body : Py.Json) : Except Py.Exc (Py.Json × Int × Int) := do
  let content ← p.content body
  let usage ← body.getKey (str "usage")
  let promptTokens ← (← usage.getKey p.promptTokens).toInt
  let completionTokens ← (← usage.getKey p.completionTokens).toInt
  return (content, promptTokens, completionTokens)

/-- `complete`, as both adapters have it. -/
def Adapter.complete (p : Adapter) (lib : Interpreter) (apiKey : String) (outcome : HttpOutcome) :
    Except CompleteExc CompletionResult :=
  let name := p.name
  if apiKey = "" then
    let keyVariable := p.keyVariable
    .error (.nonRetryable s!"{keyVariable} is not set")
  else
    match outcome with
    | .timeout e => .error (.retryable s!"{name} request timed out: {e}")
    | .transport e => .error (.retryable s!"{name} transport error: {e}")
    | .response statusCode text json latencyMs =>
      if statusCode ≠ 200 then
        let start := String.ofList (text.toList.take 200)
        let message := s!"{name} HTTP {statusCode}: {start}"
        if statusCode ∈ retryableStatus then .error (.retryable message)
        else .error (.nonRetryable message)
      else
        match json with
        | .error e => .error (.other e)
        | .ok body =>
          match p.readBody body with
          | .ok (content, promptTokens, completionTokens) =>
            .ok ⟨lib.toStr content, promptTokens, completionTokens, latencyMs⟩
          | .error e =>
            if e.isShapeError then
              let exc := lib.shapeError body
              .error (.retryable s!"unexpected {name} response shape: {exc}")
            else .error (.other e)

/-- `body["choices"][0]["message"]["content"]`. -/
def openaiContent (body : Py.Json) : Except Py.Exc Py.Json := do
  let choices ← body.getKey (str "choices")
  let choice ← choices.getIndex 0
  let message ← choice.getKey (str "message")
  message.getKey (str "content")

/-- `body["content"][0]["text"]`. -/
def anthropicContent (body : Py.Json) : Except Py.Exc Py.Json := do
  let content ← body.getKey (str "content")
  let block ← content.getIndex 0
  block.getKey (str "text")

def openai : Adapter where
  name := "openai"
  keyVariable := "OPENAI_API_KEY"
  content := openaiContent
  promptTokens := str "prompt_tokens"
  completionTokens := str "completion_tokens"
  content_onlyShape body := by
    simp [openaiContent, onlyShape_bind_iff, Py.Json.getKey_onlyShape, Py.Json.getIndex_onlyShape]

def anthropic : Adapter where
  name := "anthropic"
  keyVariable := "ANTHROPIC_API_KEY"
  content := anthropicContent
  promptTokens := str "input_tokens"
  completionTokens := str "output_tokens"
  content_onlyShape body := by
    simp [anthropicContent, onlyShape_bind_iff, Py.Json.getKey_onlyShape,
      Py.Json.getIndex_onlyShape]

/-- `OpenAIProvider.complete`. -/
def OpenAIProvider.complete : Interpreter → String → HttpOutcome →
    Except CompleteExc CompletionResult := openai.complete

/-- `AnthropicProvider.complete`. -/
def AnthropicProvider.complete : Interpreter → String → HttpOutcome →
    Except CompleteExc CompletionResult := anthropic.complete

/-! ## 2. What escapes -/

/-- A result, or one of the two declared errors. -/
def Declared {α : Type} (x : Except CompleteExc α) : Prop := ∀ e, x ≠ .error (.other e)

/-- The token counts the adapter gets to convert are ones `int` converts. -/
def Adapter.TokensConvert (p : Adapter) (body : Py.Json) : Prop :=
  ∀ content, p.content body = .ok content → ∀ usage, body.getKey (str "usage") = .ok usage →
    ∀ promptTokens, usage.getKey p.promptTokens = .ok promptTokens →
      promptTokens.Converts ∧ ∀ n, promptTokens.toInt = .ok n →
        ∀ completionTokens, usage.getKey p.completionTokens = .ok completionTokens →
          completionTokens.Converts

/-- A response with status 200, if there is one, has a JSON body with such token counts. -/
def Adapter.Acceptable (p : Adapter) (apiKey : String) (outcome : HttpOutcome) : Prop :=
  apiKey ≠ "" → ∀ text json latencyMs, outcome = .response 200 text json latencyMs →
    ∃ body, json = .ok body ∧ p.TokensConvert body

section Escapes

variable (p : Adapter) (lib : Interpreter) (apiKey : String)

/-- Only the conversions of the token counts raise something else than a shape error. -/
theorem Adapter.readBody_onlyShape_iff (body : Py.Json) :
    OnlyShape (p.readBody body) ↔ p.TokensConvert body := by
  simp only [Adapter.readBody, onlyShape_bind_iff, p.content_onlyShape, Py.Json.getKey_onlyShape,
    Py.Json.toInt_onlyShape_iff, true_and]
  constructor
  · intro h content hcontent usage husage promptTokens hprompt
    obtain ⟨hconverts, hrest⟩ := h content hcontent usage husage promptTokens hprompt
    exact ⟨hconverts, fun n hn completionTokens hcompletion =>
      (hrest n hn completionTokens hcompletion).1⟩
  · intro h content hcontent usage husage promptTokens hprompt
    obtain ⟨hconverts, hrest⟩ := h content hcontent usage husage promptTokens hprompt
    exact ⟨hconverts, fun n hn completionTokens hcompletion =>
      ⟨hrest n hn completionTokens hcompletion, fun _ _ => Py.onlyShape_ok _⟩⟩

theorem Adapter.acceptable_ok_iff {apiKey : String} (hkey : apiKey ≠ "") {text : String}
    {body : Py.Json} {latencyMs : Int} :
    p.Acceptable apiKey (.response 200 text (.ok body) latencyMs) ↔ p.TokensConvert body := by
  constructor
  · intro h
    obtain ⟨body', hbody, htokens⟩ := h hkey _ _ _ rfl
    rwa [Except.ok.inj hbody]
  · intro h _ text' json' latencyMs' heq
    cases heq
    exact ⟨body, rfl, h⟩

/-- **When an adapter raises only what it declares.** -/
theorem Adapter.declared_iff (outcome : HttpOutcome) :
    Declared (p.complete lib apiKey outcome) ↔ p.Acceptable apiKey outcome := by
  by_cases hkey : apiKey = ""
  · simp [Adapter.complete, Adapter.Acceptable, hkey, Declared]
  cases outcome with
  | timeout e => simp [Adapter.complete, Adapter.Acceptable, hkey, Declared]
  | transport e => simp [Adapter.complete, Adapter.Acceptable, hkey, Declared]
  | response statusCode text json latencyMs =>
    by_cases hstatus : statusCode = 200
    · subst hstatus
      cases json with
      | error e => simp [Adapter.complete, Adapter.Acceptable, hkey, Declared]
      | ok body =>
        rw [p.acceptable_ok_iff hkey, ← p.readBody_onlyShape_iff]
        simp only [Adapter.complete, hkey, if_false, ne_eq, not_true_eq_false]
        cases hbody : p.readBody body with
        | ok r => exact iff_of_true (by simp [Declared]) (Py.onlyShape_ok r)
        | error e =>
          cases hshape : e.isShapeError with
          | true => simp [Declared, OnlyShape, hshape]
          | false => simp [Declared, OnlyShape, hshape]
    · by_cases hretry : statusCode ∈ retryableStatus
      · simp [Adapter.complete, Adapter.Acceptable, hkey, hstatus, hretry, Declared]
      · simp [Adapter.complete, Adapter.Acceptable, hkey, hstatus, hretry, Declared]

end Escapes

/-! ## 3. The worker over an adapter -/

/-- What an adapter tells the retry loop, if the loop handles it. -/
def completion? : Except CompleteExc CompletionResult → Option Completion
  | .ok r => some (.result r)
  | .error (.retryable e) => some (.retryable e)
  | .error (.nonRetryable e) => some (.nonRetryable e)
  | .error (.other _) => none

/-- What the environment decides during one step, the provider's HTTP call in place of its
outcome. -/
structure HttpChoice where
  http : HttpOutcome
  grading : GradingOutcome
  now : Timestamp := 0

def HttpChoice.toChoice (provider : HttpOutcome → Except CompleteExc CompletionResult)
    (c : HttpChoice) : Choice :=
  ⟨(completion? (provider c.http)).getD (.retryable ""), c.grading, c.now⟩

/-- A step of an execution that calls `provider`.  What the retry loop does not handle ends the
execution where it is. -/
def providerStep (lib : Interpreter) (cfg : Config) (rid : ItemId)
    (provider : HttpOutcome → Except CompleteExc CompletionResult) (y : Backend × Next)
    (c : HttpChoice) : Option (Backend × Next) :=
  match provider c.http with
  | .error (.other e) =>
    if atCall y then some (y.1, .raised (lib.describe e))
    else aloneChecked cfg rid y (c.toChoice provider)
  | _ => aloneChecked cfg rid y (c.toChoice provider)

section Worker

variable {lib : Interpreter} {cfg : Config} {rid : ItemId} {m m' : Backend}
  {provider : HttpOutcome → Except CompleteExc CompletionResult}

/-- Any step but a call whose exception escapes is one of the worker's. -/
theorem providerStep_eq {y : Backend × Next} {c : HttpChoice}
    (h : atCall y = true → Declared (provider c.http)) :
    providerStep lib cfg rid provider y c = aloneChecked cfg rid y (c.toChoice provider) := by
  unfold providerStep
  split
  · rename_i e he
    have hno : ¬ atCall y = true := fun hy => h hy e he
    rw [if_neg hno]
  · rfl

theorem providerStep_escape {y : Backend × Next} {c : HttpChoice} (hy : atCall y = true)
    (h : ¬ Declared (provider c.http)) :
    ∃ e, providerStep lib cfg rid provider y c = some (y.1, .raised e) := by
  unfold Declared at h
  push Not at h
  obtain ⟨e, he⟩ := h
  exact ⟨lib.describe e, by simp [providerStep, he, hy]⟩

/-- The steps of the trace as the worker's own. -/
def workerTrace (provider : HttpOutcome → Except CompleteExc CompletionResult)
    (tr : List ((Backend × Next) × HttpChoice)) : List ((Backend × Next) × Choice) :=
  tr.map fun p => (p.1, p.2.toChoice provider)

/-- **Runs over an adapter.**  They are the worker's runs, except that the last call may end one. -/
theorem providerRun_cases {tr : List ((Backend × Next) × HttpChoice)} {y : Backend × Next}
    (hrun : Run (providerStep lib cfg rid provider) (m, .goto .start) tr y) :
    (Run (aloneChecked cfg rid) (m, .goto .start) (workerTrace provider tr) y ∧
      ∀ p ∈ tr, atCall p.1 = true → Declared (provider p.2.http)) ∨
    ∃ tr' z c e, tr = tr' ++ [(z, c)] ∧ atCall z = true ∧ ¬ Declared (provider c.http) ∧
      Run (aloneChecked cfg rid) (m, .goto .start) (workerTrace provider tr') z ∧
      y = (z.1, .raised e) := by
  induction hrun with
  | nil => exact .inl ⟨.nil, by simp⟩
  | @snoc tr z c y hrun hs ih =>
    obtain ⟨halone, hall⟩ | ⟨tr', z', c', e, -, -, -, -, rfl⟩ := ih
    · by_cases hescape : atCall z = true ∧ ¬ Declared (provider c.http)
      · obtain ⟨e, he⟩ : ∃ e, providerStep lib cfg rid provider z c = some (z.1, .raised e) :=
          providerStep_escape hescape.1 hescape.2
        exact .inr ⟨tr, z, c, e, rfl, hescape.1, hescape.2, halone,
          Option.some.inj (hs.symm.trans he)⟩
      · have hdeclared : atCall z = true → Declared (provider c.http) :=
          fun hz => not_not.mp fun hno => hescape ⟨hz, hno⟩
        rw [providerStep_eq hdeclared] at hs
        refine .inl ⟨?_, ?_⟩
        · rw [workerTrace, List.map_append]
          exact halone.snoc hs
        · intro p hp hcall
          obtain hp | hp := List.mem_append.mp hp
          · exact hall p hp hcall
          · obtain rfl := List.mem_singleton.mp hp
            exact hdeclared hcall
    · -- an execution that has raised takes no further step
      rw [providerStep_eq (fun h => by cases h)] at hs
      cases hs

/-- **What an escaping exception does.**  A finished execution has moved its item out of `running`,
unless an exception got past the retry loop or the database refused what the last answer made it
write. -/
theorem leaves_running_iff (x : Executable cfg rid m) {tr : List ((Backend × Next) × HttpChoice)}
    {next : Next} (hrun : Run (providerStep lib cfg rid provider) (m, .goto .start) tr (m', next))
    (hend : next.phase? = none) :
    (m'.db.items.get rid).map RunItem.status ≠ some .running ↔
      (∀ y ∈ tr, atCall y.1 = true → Declared (provider y.2.http)) ∧
        ∀ a ∈ lastAnswer (workerTrace provider tr), x.Stores a := by
  obtain ⟨halone, hall⟩ | ⟨tr', z, c, e, rfl, hz, hescape, halone, hy⟩ := providerRun_cases hrun
  · rw [not_running_iff (x := x) halone hend, and_iff_right hall]
  · refine iff_of_false (fun hno => hno ?_) fun hall => hescape (hall.1 (z, c) (by simp) hz)
    obtain ⟨rfl, -⟩ := Prod.mk.inj hy
    exact x.running_at_call halone hz

theorem providerRun_length_le {tr : List ((Backend × Next) × HttpChoice)} {y : Backend × Next}
    (hrun : Run (providerStep lib cfg rid provider) (m, .goto .start) tr y) :
    tr.length ≤ 2 * cfg.retry.maxAttempts + 14 := by
  obtain ⟨halone, -⟩ | ⟨tr', z, c, e, rfl, -, -, halone, -⟩ := providerRun_cases hrun
  · have hle := execution_length_le halone
    rw [workerTrace, List.length_map] at hle
    omega
  · have hle := execution_length_le halone
    rw [workerTrace, List.length_map] at hle
    rw [List.length_append, List.length_singleton]
    omega

end Worker

/-- The interpreter, for the page below and for texts. -/
def samplePython : Interpreter where
  toStr
    | .str s => String.ofList (s.map Char.ofNat)
    | _ => ""
  shapeError _ := ""
  describe _ := "Expecting value: line 1 column 1 (char 0)"

/-- A proxy's page, with status 200. -/
def htmlPage : HttpOutcome := .response 200 "<html>" (.error .jsonDecodeError) 3

end EvalHarness
