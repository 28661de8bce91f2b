/-
# Artifacts as they are stored (`app/artifacts.py`)

The system keeps the artifact of an item as a record.  The code keeps it as a JSON text in Redis,
under a key made of the item's id, and takes it apart again with `json.loads` and two `.get`s.
`redisAfter` is what the SETs of a history leave in Redis; `artifacts_stored` says that reading it the
code's way gives what the system has, for every item, in every state of every run.

The ids are UUIDs, and different ones have different texts (`Uuids`).
-/
import EvalHarness.Coherence
import EvalHarness.Extract
import EvalHarness.Lib.PyJsonTrip

namespace EvalHarness

open Lts
open Py (Str Exc str Codec)
open Py.Json (dumps loads)

/-! ## 1. `app/artifacts.py` -/

/-- `str(uuid)`. -/
structure Uuids where
  text : ItemId → Str
  injective : Function.Injective text

/-- The string values of a Redis database. -/
abbrev Redis := Str → Option Str

variable {codec : Codec} {ids : Uuids}

def buildArtifactKey (ids : Uuids) (rid : ItemId) : Str := str "artifact:" ++ ids.text rid

namespace Redis

/-- `set_artifact`: the database behind it, and the key. -/
def setArtifact (codec : Codec) (ids : Uuids) (db : Redis) (rid : ItemId) (artifact : Py.Json) :
    Redis × Str :=
  let key := buildArtifactKey ids rid
  (Function.update db key (some (dumps codec artifact)), key)

/-- `get_artifact`. -/
def getArtifact (codec : Codec) (ids : Uuids) (db : Redis) (rid : ItemId) :
    Except Exc (Option Py.Json) :=
  match db (buildArtifactKey ids rid) with
  | none => .ok none
  | some raw => (loads codec raw).map some

end Redis

theorem buildArtifactKey_injective (ids : Uuids) : Function.Injective (buildArtifactKey ids) :=
  fun _ _ h => ids.injective (List.append_cancel_left h)

open Redis (getArtifact)

section Laws

variable (db : Redis) (rid : ItemId) (artifact : Py.Json)

/-- What is set is read back, -/
theorem getArtifact_setArtifact (hf : artifact.Faithful codec) (hd : artifact.nesting ≤ codec.depth) :
    getArtifact codec ids (Redis.setArtifact codec ids db rid artifact).1 rid = .ok (some artifact) := by
  simp only [getArtifact, Redis.setArtifact, Function.update_self, Py.Json.loads_dumps hf hd]
  rfl

/-- and no other artifact changes. -/
theorem getArtifact_setArtifact_of_ne {rid' : ItemId} (h : rid' ≠ rid) :
    getArtifact codec ids (Redis.setArtifact codec ids db rid artifact).1 rid' =
      getArtifact codec ids db rid' := by
  have hkey : buildArtifactKey ids rid' ≠ buildArtifactKey ids rid :=
    fun heq => h (buildArtifactKey_injective ids heq)
  simp only [getArtifact, Redis.setArtifact, Function.update_of_ne hkey]

end Laws

/-! ## 2. The blob of a completion -/

/-- The dictionary `execute_run_item` builds. -/
def Artifact.toJson (a : Artifact) : Py.Json :=
  .obj [
    (str "request", .obj [
      (str "prompt", .str (str a.prompt)),
      (str "model_id", .str (str a.modelId)),
      (str "base_url", (a.baseUrl.map fun url => .str (str url)).getD .null)]),
    (str "raw_response", .obj [
      (str "text", .str (str a.rawResponse.text)),
      (str "prompt_tokens", .int a.rawResponse.promptTokens),
      (str "completion_tokens", .int a.rawResponse.completionTokens),
      (str "latency_ms", .int a.rawResponse.latencyMs)]),
    (str "judge_raw", .null)]

/-- `int.__repr__` prints it. -/
def Printed (n : Int) : Prop := (Nat.digits 10 n.natAbs).length ≤ Py.maxStrDigits

instance (n : Int) : Decidable (Printed n) := inferInstanceAs (Decidable (_ ≤ _))

/-- `json.dumps` prints the three numbers of a completion. -/
structure CompletionResult.Printed (r : CompletionResult) : Prop where
  promptTokens : EvalHarness.Printed r.promptTokens
  completionTokens : EvalHarness.Printed r.completionTokens
  latencyMs : EvalHarness.Printed r.latencyMs

instance (r : CompletionResult) : Decidable r.Printed :=
  decidable_of_iff (Printed r.promptTokens ∧ Printed r.completionTokens ∧ Printed r.latencyMs)
    ⟨fun ⟨h1, h2, h3⟩ => ⟨h1, h2, h3⟩, fun ⟨h1, h2, h3⟩ => ⟨h1, h2, h3⟩⟩

/-- A text of the program has no surrogates. -/
theorem isScalar_str (s : String) : ∀ c ∈ str s, Py.Json.isScalar c = true := by
  intro c hc
  obtain ⟨ch, -, rfl⟩ := List.mem_map.mp hc
  have hvalid : ch.toNat < 0xd800 ∨ 0xdfff < ch.toNat ∧ ch.toNat < 0x110000 := ch.valid
  simpa [Py.Json.isScalar] using hvalid

theorem faithful_str (s : String) : (Py.Json.str (str s)).Faithful codec := isScalar_str s

theorem Artifact.faithful {a : Artifact} (h : a.rawResponse.Printed) :
    a.toJson.Faithful codec := by
  have hbase : ((a.baseUrl.map fun url => Py.Json.str (str url)).getD .null).Faithful codec := by
    cases a.baseUrl with
    | none => trivial
    | some url => exact faithful_str url
  have hkeys : [str "request", str "raw_response", str "judge_raw"].Nodup := by decide
  have hrequest : [str "prompt", str "model_id", str "base_url"].Nodup := by decide
  have hresponse : [str "text", str "prompt_tokens", str "completion_tokens",
    str "latency_ms"].Nodup := by decide
  refine ⟨hkeys, isScalar_str _, ⟨hrequest, isScalar_str _, faithful_str _, isScalar_str _,
    faithful_str _, isScalar_str _, hbase, trivial⟩, isScalar_str _, ⟨hresponse, isScalar_str _,
    faithful_str _, isScalar_str _, h.promptTokens, isScalar_str _, h.completionTokens,
    isScalar_str _, h.latencyMs, trivial⟩, isScalar_str _, trivial, trivial⟩

theorem Artifact.nesting (a : Artifact) : a.toJson.nesting = 2 := by
  cases h : a.baseUrl <;>
    simp [Artifact.toJson, h, Py.Json.nesting, Py.Json.nestingMembers]

/-! ## 3. What the review queue makes of it -/

/-- `v.get(key)`; `none` is the `AttributeError` of a value that is no dictionary. -/
def jsonGet (v : Py.Json) (key : Str) : Option Py.Json :=
  match v with
  | .obj fields => some (Py.Json.field fields key)
  | _ => none

/-- The `model_output` of `list_review_queue`, as its response model takes it; `none` when this
raises. -/
def outputOf (artifact : Option Py.Json) : Option (Option Str) :=
  match artifact with
  | none => some none
  | some artifact =>
    if artifact.truthy then do
      let raw ← jsonGet artifact (str "raw_response")
      match ← jsonGet (if raw.truthy then raw else .obj []) (str "text") with
      | .null => some none
      | .str s => some (some s)
      | _ => none
    else some none

/-- A reviewer is shown the text of the completion. -/
theorem outputOf_toJson (a : Artifact) :
    outputOf (some a.toJson) = some (some (str a.rawResponse.text)) := rfl

/-! ## 4. Redis in a run -/

variable {σ η : Type} [DecidableEq σ] [DecidableEq η] {cfg : Config} {w w' : World σ η}

/-- What the SETs of a history leave. -/
def redisAfter (codec : Codec) (ids : Uuids) (tr : List (World σ η × Label σ η)) : Redis :=
  tr.foldl (fun db p =>
    match writes p with
    | some x => (Redis.setArtifact codec ids db x.item (artifactOf x.loaded x.result).toJson).1
    | none => db) fun _ => none

/-- `set_artifact` prints what it writes; of an integer it does not, `json.dumps` raises. -/
def WritesPrinted (w : World σ η) (l : Label σ η) : Prop := ∀ x ∈ writes (w, l), x.result.Printed

instance (w : World σ η) (l : Label σ η) : Decidable (WritesPrinted w l) :=
  inferInstanceAs (Decidable (∀ x ∈ writes (w, l), x.result.Printed))

/-- Redis has the texts of these artifacts, and nothing else. -/
structure Stores (codec : Codec) (ids : Uuids) (db : Redis) (artifacts : ArtifactKey → Option Artifact) :
    Prop where
  text : ∀ i, getArtifact codec ids db i = .ok ((artifacts ⟨i⟩).map Artifact.toJson)
  keys : ∀ key, db key ≠ none → ∃ i, key = buildArtifactKey ids i ∧ artifacts ⟨i⟩ ≠ none

theorem stores_step {tr : List (World σ η × Label σ η)} {l : Label σ η} (hdepth : 2 ≤ codec.depth)
    (hI : Stores codec ids (redisAfter codec ids tr) w.store.artifacts)
    (hp : WritesPrinted w l) (hs : step cfg w l = some w') :
    Stores codec ids (redisAfter codec ids (tr ++ [(w, l)])) w'.store.artifacts := by
  have hafter := step_artifacts hs
  rw [redisAfter, List.foldl_append, ← redisAfter, List.foldl_cons, List.foldl_nil]
  cases hx : writes (w, l) with
  | none =>
    have hsame : w'.store.artifacts = w.store.artifacts := by
      funext key
      simpa [hx] using hafter key.runItemId
    rw [hsame]
    exact hI
  | some x =>
    have hprinted := hp x hx
    have hother : ∀ i, i ≠ x.item → w'.store.artifacts ⟨i⟩ = w.store.artifacts ⟨i⟩ := by
      intro i hi
      simpa [hx, Option.filter_some, Ne.symm hi] using hafter i
    have hown : w'.store.artifacts ⟨x.item⟩ = some (artifactOf x.loaded x.result) := by
      simpa [hx, Option.filter_some] using hafter x.item
    refine ⟨fun i => ?_, fun key hkey => ?_⟩
    · by_cases hi : i = x.item
      · subst hi
        rw [hown]
        exact getArtifact_setArtifact _ _ _ (Artifact.faithful hprinted)
          (by rw [Artifact.nesting]; exact hdepth)
      · rw [hother i hi, ← hI.text i]
        exact getArtifact_setArtifact_of_ne _ _ _ hi
    · by_cases hi : key = buildArtifactKey ids x.item
      · exact ⟨x.item, hi, by simp [hown]⟩
      · simp only [Redis.setArtifact, Function.update_of_ne hi] at hkey
        obtain ⟨i, rfl, hstored⟩ := hI.keys key hkey
        exact ⟨i, rfl, by rwa [hother i fun h => hi (by rw [h])]⟩

theorem stores_of_run {tr : List (World σ η × Label σ η)} (hdepth : 2 ≤ codec.depth)
    (hrun : Run (step cfg) World.init tr w) (hp : Along WritesPrinted tr) :
    Stores codec ids (redisAfter codec ids tr) w.store.artifacts := by
  refine hrun.induct (J := fun tr w => Stores codec ids (redisAfter codec ids tr) w.store.artifacts)
    ⟨fun _ => rfl, fun _ h => absurd rfl h⟩ (fun _ _ _ _ hI hp hs => stores_step hdepth hI hp hs)
    hp.follows

/-! ### Who has written -/

/-- The execution has written its artifact. -/
def Pc.hasWritten : Pc → Bool
  | .finalise _ | .abortCheck _ | .gradeRead _ | .judge _ | .reviewCheck .. | .gradeCommit .. => true
  | _ => false

/-- An execution past its SET and a succeeded item have an artifact. -/
structure World.Written (w : World σ η) : Prop where
  written : ∀ s i v pc, w.workers s = some ⟨i, .at v pc⟩ → pc.hasWritten = true →
    (w.store.artifacts ⟨i⟩).isSome = true
  succeeded : ∀ i, w.statusOf i = some .succeeded → (w.store.artifacts ⟨i⟩).isSome = true

theorem World.Written.init {σ η : Type} : (World.init : World σ η).Written where
  written s i v pc he := absurd he (by simp [World.init])
  succeeded i hst := absurd hst (by simp [World.statusOf, World.init, Db.empty])

/-- Artifacts stay. -/
theorem artifact_step {l : Label σ η} (hs : step cfg w l = some w') {i : ItemId}
    (h : (w.store.artifacts ⟨i⟩).isSome = true) : (w'.store.artifacts ⟨i⟩).isSome = true := by
  rw [step_artifacts hs i]
  simp [h]

theorem World.Written.step {l : Label σ η} (hI : w.Written) (hs : step cfg w l = some w') :
    w'.Written where
  written s i v pc he' hpc := by
    have hfirst : pc.isFirst = false := by
      cases pc <;> first | rfl | exact absurd hpc (by simp [Pc.hasWritten])
    rcases step_pc hs he' hfirst with ⟨hw, -⟩ | ⟨c, pc₀, rfl, hw, hstep⟩
    · exact artifact_step hs (hI.written s i v pc hw hpc)
    · cases hstep with
      | written =>
        have hx : writes (w, Label.exec s c) = some ⟨s, i, v, _⟩ :=
          passage_eq_some.mpr ⟨c, _, rfl, hw, rfl⟩
        rw [step_artifacts hs i, hx]
        simp
      | won | within | ungraded | agreed | disagreed | reviewed | unreviewed =>
        exact artifact_step hs (hI.written s i v _ hw rfl)
      | _ => exact absurd hpc (by simp [Pc.hasWritten])
  succeeded i hst := by
    obtain ⟨row', hrow', hst'⟩ := Option.map_eq_some_iff.mp hst
    cases hrow : w.store.db.items.get i with
    | none =>
      obtain ⟨_, _, _, _, _, -, -, -, p, rfl, -⟩ := step_item_new hs hrow' hrow
      exact absurd hst' (by simp)
    | some row =>
      cases itemChange hs hrow hrow' with
      | keep => exact artifact_step hs (hI.succeeded i (Option.map_eq_some_iff.mpr ⟨_, hrow, hst'⟩))
      | finalise hw => exact artifact_step hs (hI.written _ i _ _ hw rfl)
      | _ => exact absurd hst' (by simp)

/-- The system has the artifact of the last SET. -/
theorem artifacts_of_run {tr : List (World σ η × Label σ η)} (hrun : Run (step cfg) World.init tr w)
    (i : ItemId) : w.store.artifacts ⟨i⟩ =
      (latestOn writes i tr).map fun x => artifactOf x.loaded x.result := by
  induction hrun with
  | nil => rfl
  | snoc _ hs ih => rw [step_artifacts hs, ih, latestOn, latestOn, latest_snoc, Option.map_or]

/-- **Artifacts survive their store.**  In every state of every run, duplicate deliveries and deaths
included, as long as `json.dumps` prints what it is given: for every item, `get_artifact` reads from
Redis the artifact the last `set_artifact` of the item wrote, or nothing if there was none; a reviewer
is shown its text; and Redis has no other keys. -/
theorem artifacts_stored (codec : Py.Codec) (ids : Uuids) {tr : List (World σ η × Label σ η)}
    (hdepth : 2 ≤ codec.depth)
    (hrun : Run (step cfg) World.init tr w) (hp : Along WritesPrinted tr) :
    (∀ i, getArtifact codec ids (redisAfter codec ids tr) i =
        .ok ((latestOn writes i tr).map fun x => (artifactOf x.loaded x.result).toJson) ∧
      ((getArtifact codec ids (redisAfter codec ids tr) i).toOption.bind outputOf) =
        some ((modelOutput w.store i).map str)) ∧
    ∀ key, redisAfter codec ids tr key ≠ none →
      ∃ i, key = buildArtifactKey ids i ∧ (latestOn writes i tr).isSome = true := by
  have hstores : Stores codec ids (redisAfter codec ids tr) w.store.artifacts :=
    stores_of_run hdepth hrun hp
  refine ⟨fun i => ?_, fun key hkey => ?_⟩
  · have hlast := artifacts_of_run hrun i
    rw [hstores.text i, modelOutput, hlast, Option.map_map]
    refine ⟨rfl, ?_⟩
    cases latestOn writes i tr with
    | none => rfl
    | some x => exact outputOf_toJson _
  · obtain ⟨i, rfl, hstored⟩ := hstores.keys key hkey
    rw [artifacts_of_run hrun i] at hstored
    exact ⟨i, rfl, by simpa [Option.isSome_iff_ne_none] using hstored⟩

/-- Ids as hexadecimal digits. -/
def hexIds : Uuids where
  text i := (Nat.digits 16 i).map Py.hexDigit
  injective i j h := by
    have hvalues : ∀ n, ((Nat.digits 16 n).map Py.hexDigit).map Py.hexValue =
        (Nat.digits 16 n).map some := by
      intro n
      rw [List.map_map]
      exact List.map_congr_left fun d hd =>
        (Py.hexValue_hexDigit (Nat.digits_lt_base (by decide) hd)).1
    have hsome : (Nat.digits 16 i).map some = (Nat.digits 16 j).map some := by
      rw [← hvalues, ← hvalues]
      exact congrArg (List.map Py.hexValue) h
    exact Nat.digits_inj_iff.mp (List.map_injective_iff.mpr (Option.some_injective Nat) hsome)

/-- The artifact of item 0, written and read. -/
theorem artifacts_stored_small : ∃ (tr : List (World (Fin 1) (Fin 1) × Label (Fin 1) (Fin 1)))
    (w : World (Fin 1) (Fin 1)), modelOutput w.store 0 = some "4" ∧
      ((getArtifact plainJson.codec hexIds (redisAfter plainJson.codec hexIds tr) 0).toOption.bind
        outputOf) = some (some (str "4")) := by
  obtain ⟨tr, w, hrun, hp, htest⟩ := exists_run_of_play (step (smallConfig 1 1 5000000))
    (World.init : World (Fin 1) (Fin 1)) (fun w l => decide (WritesPrinted w l))
    (launch 0 1 ++ [.deliver 0 0] ++ execs 0 answers 6)
    (fun _ w => modelOutput w.store 0 == some "4") (by decide +kernel)
  have hout : modelOutput w.store 0 = some "4" := beq_iff_eq.mp htest
  have hp : Along WritesPrinted tr := hp.mono fun _ _ h => of_decide_eq_true h
  have hread := ((artifacts_stored plainJson.codec hexIds (by decide) hrun hp).1 0).2
  exact ⟨tr, w, hout, by rw [hread, hout]; rfl⟩

end EvalHarness
