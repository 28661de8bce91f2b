/-
# The gate (`app/middleware.py`, `require_role` of `app/auth.py`, the routers' dependencies)

A request meets the middleware, which looks for the row its key opens, then the dependency of its
router, which asks for the row's role, and only then its handler.  Between the look and the handler
anything may happen: another request may delete the row.

Section 1 has the code under its names, section 2 the gate as a transition system around any other
(`step`), whose labels say which endpoint's handler they begin (`needs`).  What is behind the gate
enters in `Access.lean`.  Whatever it is, a handler that begins has an admission in its past
(`serves_of_run`), and every stored row comes from the script through admins (`allTrusted_of_run`).

What path a request is routed by is the framework's business, and need not be the path the
middleware reads; so a request carries both, and nothing is assumed of the two.
-/
import EvalHarness.Lib.Sql
import EvalHarness.Api
import EvalHarness.Auth

namespace EvalHarness

open Lts
open Py (Exc)

/-! ## 1. From a request to its handler -/

/-- The routers of `app/api/v1`. -/
inductive Router
  | taskSets | models | evalRuns | deadLetters | reviewQueue | leaderboard | apiKeys
  deriving DecidableEq, Repr

/-- The roles in a router's `dependencies=[Depends(require_role(..))]`. -/
def Router.roles : Router → List ApiKeyRole
  | .taskSets | .models | .evalRuns | .deadLetters | .apiKeys => [.admin]
  | .reviewQueue | .leaderboard => [.admin, .reviewer]

/-- The handlers. -/
inductive Endpoint
  | createTaskSet | listTaskSets | getTaskSet | createTask
  | createModelEndpoint | listModelEndpoints | getModelEndpoint
  | createEvalRun | getEvalRun | cancelEvalRun | listDeadLetters
  | replayRunItem
  | listReviewQueue | reviewQueueStats | claimReviewItem | resolveReviewItem
  | getLeaderboard | getLeaderboardHistory | getCapabilityBreakdown
  | createApiKey | listApiKeys | deleteApiKey
  deriving DecidableEq, Repr

/-- The router a handler is registered with. -/
def Endpoint.router : Endpoint → Router
  | .createTaskSet | .listTaskSets | .getTaskSet | .createTask => .taskSets
  | .createModelEndpoint | .listModelEndpoints | .getModelEndpoint => .models
  | .createEvalRun | .getEvalRun | .cancelEvalRun | .listDeadLetters => .evalRuns
  | .replayRunItem => .deadLetters
  | .listReviewQueue | .reviewQueueStats | .claimReviewItem | .resolveReviewItem => .reviewQueue
  | .getLeaderboard | .getLeaderboardHistory | .getCapabilityBreakdown => .leaderboard
  | .createApiKey | .listApiKeys | .deleteApiKey => .apiKeys

def Endpoint.roles (e : Endpoint) : List ApiKeyRole := e.router.roles

structure Request where
  method : String
  /-- `request.url.path`. -/
  urlPath : String
  xApiKey : Option String
  authorization : Option String
  /-- The handler the router has for it, if one of ours. -/
  endpoint : Option Endpoint

def EXEMPT_PATHS : List String :=
  ["/healthz", "/readyz", "/metrics", "/openapi.json", "/docs", "/redoc", "/favicon.ico"]

/-- `s.strip()`. -/
def stripText (s : String) : String :=
  let blank (c : Char) := Py.isSpace c.toNat
  String.ofList ((s.toList.dropWhile blank).rdropWhile blank)

/-- `_extract_key` after the first header. -/
def extractBearer (req : Request) : Option String :=
  let header := ((req.authorization).getD "").toList
  let scheme := "Bearer ".toList
  if scheme.isPrefixOf header then some (stripText (String.ofList (header.drop scheme.length)))
  else none

/-- `_extract_key`. -/
def extractKey (req : Request) : Option String :=
  match req.xApiKey with
  | some header => if header ≠ "" then some (stripText header) else extractBearer req
  | none => extractBearer req

/-- Why a request does not get to a handler. -/
inductive Refusal
  | http (e : HttpError)
  /-- The middleware raises: a 500. -/
  | raised (e : Exc)
  /-- No handler of ours: a 404, a 405 or one of the health endpoints. -/
  | elsewhere
  deriving DecidableEq

/-- `ApiKeyMiddleware.dispatch` up to `call_next`: what it leaves in `request.state.auth`.  The
`rows` are those the lookup returns. -/
def dispatch (dig : Digests) (rows : String → List (ApiKeyId × ApiKey)) (req : Request) :
    Except Refusal (Option AuthContext) :=
  if req.method = "OPTIONS" ∨ req.urlPath ∈ EXEMPT_PATHS then .ok none
  else
    match extractKey req with
    | none => .error (.http ⟨401, "Missing API key"⟩)
    | some rawKey =>
      match authenticate dig rawKey (rows rawKey) with
      | .error e => .error (.raised e)
      | .ok none => .error (.http ⟨401, "Invalid API key"⟩)
      | .ok (some context) => .ok (some context)

/-- The `.value` of a role. -/
def ApiKeyRole.value : ApiKeyRole → String
  | .admin => "admin"
  | .reviewer => "reviewer"

/-- `_require` of `require_role`: the context, or the exception. -/
def requireRole (roles : List ApiKeyRole) : Option AuthContext → Except Refusal AuthContext
  | none => .error (.http ⟨401, "Authentication required"⟩)
  | some context =>
    if context.role ∉ roles then
      let allowed := String.intercalate ", " (roles.map (·.value))
      .error (.http ⟨403, s!"requires role in \x7b{allowed}\x7d"⟩)
    else .ok context

/-- The way of a request to its handler. -/
def admitRequest (dig : Digests) (rows : String → List (ApiKeyId × ApiKey)) (req : Request) :
    Except Refusal (Endpoint × AuthContext) :=
  match dispatch dig rows req with
  | .error e => .error e
  | .ok auth =>
    match req.endpoint with
    | none => .error .elsewhere
    | some e =>
      match requireRole e.roles auth with
      | .error r => .error r
      | .ok context => .ok (e, context)

/-- The request presents a key that opens this stored row. -/
structure Opens (dig : Digests) (keys : Table ApiKeyId ApiKey) (req : Request) (id : ApiKeyId)
    (row : ApiKey) : Prop where
  stored : keys.get id = some row
  presented : ∃ rawKey, extractKey req = some rawKey ∧ verifyApiKey dig rawKey row.keyHash = .ok true

/-- Who is authenticated has presented the key of a row. -/
theorem authenticate_some {dig : Digests} {rawKey : String} {rows : List (ApiKeyId × ApiKey)}
    {context : AuthContext} (h : authenticate dig rawKey rows = .ok (some context)) :
    ∃ row, (context.apiKeyId, row) ∈ rows ∧ context.name = row.name ∧ context.role = row.role ∧
      verifyApiKey dig rawKey row.keyHash = .ok true := by
  induction rows with
  | nil => exact absurd h (by simp [authenticate])
  | cons x rows ih =>
    obtain ⟨id, row⟩ := x
    rw [authenticate] at h
    cases hv : verifyApiKey dig rawKey row.keyHash with
    | error e =>
      rw [hv] at h
      exact absurd h (by simp [bind, Except.bind])
    | ok b =>
      rw [hv] at h
      cases b with
      | true =>
        obtain rfl := Option.some.inj (Except.ok.inj h)
        exact ⟨row, List.mem_cons_self, rfl, rfl, hv⟩
      | false =>
        obtain ⟨row', hmem, hrow'⟩ := ih h
        exact ⟨row', List.mem_cons_of_mem _ hmem, hrow'⟩

/-- A request the middleware lets pass unasked is not admitted: the dependency stops it. -/
theorem admitRequest_ok {dig : Digests} {rows : String → List (ApiKeyId × ApiKey)} {req : Request}
    {e : Endpoint} {context : AuthContext} (h : admitRequest dig rows req = .ok (e, context)) :
    req.endpoint = some e ∧ context.role ∈ e.roles ∧
      ∃ rawKey, extractKey req = some rawKey ∧
        authenticate dig rawKey (rows rawKey) = .ok (some context) := by
  unfold admitRequest at h
  cases hd : dispatch dig rows req with
  | error r => rw [hd] at h; exact absurd h (by simp)
  | ok auth =>
    rw [hd] at h
    cases he : req.endpoint with
    | none => rw [he] at h; exact absurd h (by simp)
    | some e' =>
      simp only [he] at h
      cases auth with
      | none => exact absurd h (by simp [requireRole])
      | some context' =>
        by_cases hrole : context'.role ∈ e'.roles
        · simp only [requireRole, hrole, not_true_eq_false, if_false] at h
          obtain ⟨rfl, rfl⟩ := Prod.mk.inj (Except.ok.inj h)
          refine ⟨rfl, hrole, ?_⟩
          unfold dispatch at hd
          split at hd
          · exact absurd hd (by simp)
          · cases hkey : extractKey req with
            | none => rw [hkey] at hd; exact absurd hd (by simp)
            | some rawKey =>
              rw [hkey] at hd
              refine ⟨rawKey, rfl, ?_⟩
              cases hauth : authenticate dig rawKey (rows rawKey) with
              | error x => simp [hauth] at hd
              | ok answer =>
                cases answer with
                | none => simp [hauth] at hd
                | some c => simpa [hauth] using hd
        · exact absurd h (by simp [requireRole, hrole])

/-! ## 2. The gate around a system -/

variable {S L ι : Type} [DecidableEq ι]

structure Gate (S ι : Type) where
  keys : Table ApiKeyId ApiKey
  /-- Requests on their way from the dependency to their handler. -/
  admitted : ι → Option (Endpoint × AuthContext)
  inner : S

def Gate.start (s : S) : Gate S ι := ⟨Table.empty, fun _ => none, s⟩

def Gate.setRequest (G : Gate S ι) (h : ι) (x : Option (Endpoint × AuthContext)) : Gate S ι :=
  { G with admitted := Function.update G.admitted h x }

inductive GateLabel (L ι : Type)
  /-- A request comes in; the lookup returns its candidates in this order. -/
  | arrive (h : ι) (req : Request) (order : Sql.TieOrder (ApiKeyId × ApiKey))
  /-- The first step of an admitted request's handler, behind the gate. -/
  | serve (h : ι) (l : L)
  /-- The handler of an admitted request for `/v1/api-keys`. -/
  | serveKeys (h : ι) (op : KeyOp)
  /-- `scripts/create_api_key.py`. -/
  | script (id : ApiKeyId) (name : String) (role : ApiKeyRole) (rawKey : String)
      (salt : List UInt8)
  /-- A step behind the gate that begins no handler. -/
  | inner (l : L)
  /-- An admitted request ends without changing anything. -/
  | leave (h : ι)

/-- The handler an operation on the keys belongs to. -/
def KeyOp.endpoint : KeyOp → Endpoint
  | .create .. => .createApiKey
  | .delete _ => .deleteApiKey

/-- The transitions. -/
def gateStep (dig : Digests) (step : S → L → Option S) (needs : L → Option Endpoint)
    (G : Gate S ι) : GateLabel L ι → Option (Gate S ι)
  | .arrive h req order =>
    if G.admitted h ≠ none then none
    else
      match admitRequest dig (fun rawKey => order.rows (candidates dig G.keys rawKey)) req with
      | .error _ => some G
      | .ok x => some (G.setRequest h (some x))
  | .serve h l =>
    match G.admitted h with
    | none => none
    | some (e, _) =>
      if needs l = some e then (step G.inner l).map fun s => { G with inner := s }.setRequest h none
      else none
  | .serveKeys h op =>
    match G.admitted h with
    | none => none
    | some (e, _) =>
      if e = op.endpoint then
        (keyStep dig G.keys op).map fun keys => { G with keys }.setRequest h none
      else none
  | .script id name role rawKey salt =>
    (keyStep dig G.keys (.create id name role rawKey salt)).map fun keys => { G with keys }
  | .inner l => if needs l = none then (step G.inner l).map fun s => { G with inner := s } else none
  | .leave h => if G.admitted h = none then none else some (G.setRequest h none)

variable {dig : Digests} {step : S → L → Option S} {needs : L → Option Endpoint}
  {G G' G₀ : Gate S ι}

/-- The transitions, each with what it needs and what it makes of the gate. -/
inductive GateStep (dig : Digests) (step : S → L → Option S) (needs : L → Option Endpoint)
    (G : Gate S ι) : GateLabel L ι → Gate S ι → Prop
  | admitted {h req order e context}
      (ha : admitRequest dig (fun rawKey => order.rows (candidates dig G.keys rawKey)) req =
        .ok (e, context)) :
      GateStep dig step needs G (.arrive h req order) (G.setRequest h (some (e, context)))
  | refused {h req order} : GateStep dig step needs G (.arrive h req order) G
  | serve {h l e context s} (hg : G.admitted h = some (e, context)) (hn : needs l = some e)
      (hs : step G.inner l = some s) :
      GateStep dig step needs G (.serve h l) ({ G with inner := s }.setRequest h none)
  | serveKeys {h op context keys} (hg : G.admitted h = some (op.endpoint, context))
      (hk : keyStep dig G.keys op = some keys) :
      GateStep dig step needs G (.serveKeys h op) ({ G with keys }.setRequest h none)
  | script {id name role rawKey salt keys}
      (hk : keyStep dig G.keys (.create id name role rawKey salt) = some keys) :
      GateStep dig step needs G (.script id name role rawKey salt) { G with keys }
  | inner {l s} (hn : needs l = none) (hs : step G.inner l = some s) :
      GateStep dig step needs G (.inner l) { G with inner := s }
  | leave {h} : GateStep dig step needs G (.leave h) (G.setRequest h none)

theorem gateStep_cases {l : GateLabel L ι} (hs : gateStep dig step needs G l = some G') :
    GateStep dig step needs G l G' := by
  cases l with
  | arrive h req order =>
    obtain ⟨-, hs⟩ := Option.ite_none_left_eq_some.mp hs
    split at hs
    · obtain rfl := Option.some.inj hs
      exact .refused
    · rename_i x hx
      obtain rfl := Option.some.inj hs
      exact .admitted hx
  | serve h l =>
    simp only [gateStep] at hs
    split at hs
    · exact absurd hs (by simp)
    · rename_i e context hg
      obtain ⟨hn, hs⟩ := Option.ite_none_right_eq_some.mp hs
      obtain ⟨s, hstep, rfl⟩ := Option.map_eq_some_iff.mp hs
      exact .serve hg hn hstep
  | serveKeys h op =>
    simp only [gateStep] at hs
    split at hs
    · exact absurd hs (by simp)
    · rename_i e context hg
      obtain ⟨he, hs⟩ := Option.ite_none_right_eq_some.mp hs
      obtain ⟨keys, hk, rfl⟩ := Option.map_eq_some_iff.mp hs
      exact .serveKeys (he ▸ hg) hk
  | script id name role rawKey salt =>
    simp only [gateStep] at hs
    obtain ⟨keys, hk, rfl⟩ := Option.map_eq_some_iff.mp hs
    exact .script hk
  | inner l =>
    obtain ⟨hn, hs⟩ := Option.ite_none_right_eq_some.mp hs
    obtain ⟨s, hstep, rfl⟩ := Option.map_eq_some_iff.mp hs
    exact .inner hn hstep
  | leave h =>
    obtain ⟨-, hs⟩ := Option.ite_none_left_eq_some.mp hs
    obtain rfl := Option.some.inj hs
    exact .leave

/-! ## 3. Every change has an admission in its past -/

/-- The slot a step empties. -/
def GateLabel.frees : GateLabel L ι → Option ι
  | .serve h _ | .serveKeys h _ | .leave h => some h
  | .arrive .. | .script .. | .inner _ => none

/-- In this history the slot was admitted to a handler, by a key that opened a row with one of its
roles, and has not used the admission yet. -/
structure Admitted (dig : Digests) (tr : List (Gate S ι × GateLabel L ι)) (h : ι) (e : Endpoint)
    (id : ApiKeyId) (row : ApiKey) : Prop where
  arrived : ∃ a u req order b, tr = a ++ (u, GateLabel.arrive h req order) :: b ∧
    (∀ p ∈ b, p.2.frees ≠ some h) ∧ req.endpoint = some e ∧ Opens dig u.keys req id row
  allowed : row.role ∈ e.roles

theorem Admitted.snoc {S L ι : Type} {G : Gate S ι}
    {tr : List (Gate S ι × GateLabel L ι)} {h : ι} {e : Endpoint}
    {id : ApiKeyId} {row : ApiKey} (ha : Admitted dig tr h e id row) {l : GateLabel L ι}
    (hl : l.frees ≠ some h) : Admitted dig (tr ++ [(G, l)]) h e id row := by
  obtain ⟨⟨a, u, req, order, b, rfl, hb, h⟩, hrole⟩ := ha
  refine ⟨⟨a, u, req, order, b ++ [(G, l)], by simp, fun p hp => ?_, h⟩, hrole⟩
  rcases List.mem_append.mp hp with hp | hp
  · exact hb p hp
  · rwa [List.mem_singleton.mp hp]

/-- Whoever is admitted has presented the key of a row with the role. -/
theorem opens_of_admitRequest {S ι : Type} {G : Gate S ι}
    {req : Request} {order : Sql.TieOrder (ApiKeyId × ApiKey)} {e : Endpoint}
    {context : AuthContext}
    (h : admitRequest dig (fun rawKey => order.rows (candidates dig G.keys rawKey)) req =
      .ok (e, context)) :
    req.endpoint = some e ∧ ∃ row, Opens dig G.keys req context.apiKeyId row ∧
      row.role ∈ e.roles := by
  obtain ⟨he, hrole, rawKey, hkey, hauth⟩ := admitRequest_ok h
  obtain ⟨row, hmem, -, hr, hv⟩ := authenticate_some hauth
  have hstored := List.mem_of_mem_filter ((order.perm _).mem_iff.mp hmem)
  exact ⟨he, row, ⟨(Table.mem_rows_iff _).mp hstored, rawKey, hkey, hv⟩, hr ▸ hrole⟩

/-- What a step makes of the slots: one is filled by an arrival, or they stay or are emptied. -/
theorem gateStep_admitted {l : GateLabel L ι} (hs : gateStep dig step needs G l = some G') {h : ι}
    {x : Endpoint × AuthContext} (hx : G'.admitted h = some x) :
    (G.admitted h = some x ∧ l.frees ≠ some h) ∨ ∃ req order, l = .arrive h req order ∧
      admitRequest dig (fun rawKey => order.rows (candidates dig G.keys rawKey)) req = .ok x := by
  have hset : ∀ {K : Gate S ι} {h' y}, (K.setRequest h' y).admitted h = some x →
      h' = h ∧ y = some x ∨ h' ≠ h ∧ K.admitted h = some x := by
    intro K h' y hx
    by_cases heq : h' = h
    · subst heq
      exact Or.inl ⟨rfl, by simpa [Gate.setRequest] using hx⟩
    · exact Or.inr ⟨heq, by simpa [Gate.setRequest, Function.update_of_ne (Ne.symm heq)] using hx⟩
  cases gateStep_cases hs with
  | @admitted h' req order e context ha =>
    rcases hset hx with ⟨rfl, hy⟩ | ⟨-, hold⟩
    · obtain rfl := Option.some.inj hy
      exact Or.inr ⟨req, order, rfl, ha⟩
    · exact Or.inl ⟨hold, by simp [GateLabel.frees]⟩
  | refused | script | inner => exact Or.inl ⟨hx, by simp [GateLabel.frees]⟩
  | serve | serveKeys | leave =>
    rcases hset hx with ⟨-, hy⟩ | ⟨hne, hold⟩
    · exact absurd hy (by simp)
    · exact Or.inl ⟨hold, fun h => hne (Option.some.inj h)⟩

theorem admitted_of_run {tr : List (Gate S ι × GateLabel L ι)} (h₀ : ∀ h, G₀.admitted h = none)
    (hrun : Run (gateStep dig step needs) G₀ tr G) :
    ∀ h e context, G.admitted h = some (e, context) →
      ∃ row, Admitted dig tr h e context.apiKeyId row := by
  induction hrun with
  | nil => exact fun h e context hx => absurd hx (by simp [h₀])
  | @snoc tr u l u' _ hs ih =>
    intro h e context hx
    rcases gateStep_admitted hs hx with ⟨hold, hl⟩ | ⟨req, order, rfl, ha⟩
    · obtain ⟨row, hrow⟩ := ih h e context hold
      exact ⟨row, hrow.snoc hl⟩
    · obtain ⟨he, row, hopens, hrole⟩ := opens_of_admitRequest ha
      exact ⟨row, ⟨tr, u, req, order, [], rfl, by simp, he, hopens⟩, hrole⟩

/-- The handler a label begins, and the slot it does it for. -/
def GateLabel.serves (needs : L → Option Endpoint) : GateLabel L ι → Option (ι × Endpoint)
  | .serve h l => (needs l).map fun e => (h, e)
  | .serveKeys h op => some (h, op.endpoint)
  | _ => none

/-- A handler that begins was admitted. -/
theorem serves_admitted {l : GateLabel L ι} (hs : gateStep dig step needs G l = some G') {h : ι}
    {e : Endpoint} (hl : l.serves needs = some (h, e)) :
    ∃ context, G.admitted h = some (e, context) := by
  cases gateStep_cases hs with
  | @serve h' l' e' context s hg hn _ =>
    rw [GateLabel.serves, hn] at hl
    obtain ⟨rfl, rfl⟩ := Prod.mk.inj (Option.some.inj hl)
    exact ⟨context, hg⟩
  | @serveKeys h' op context keys hg _ =>
    obtain ⟨rfl, rfl⟩ := Prod.mk.inj (Option.some.inj hl)
    exact ⟨context, hg⟩
  | admitted | refused | script | inner | leave => exact absurd hl (by simp [GateLabel.serves])

/-- A handler begins only for an admitted slot. -/
theorem serves_of_run {a b : List (Gate S ι × GateLabel L ι)} {u : Gate S ι} {l : GateLabel L ι}
    (h₀ : ∀ h, G₀.admitted h = none) (hrun : Run (gateStep dig step needs) G₀ (a ++ (u, l) :: b) G)
    {h : ι} {e : Endpoint} (hl : l.serves needs = some (h, e)) :
    ∃ id row, Admitted dig a h e id row := by
  obtain ⟨ha, u', hs, -⟩ := hrun.at
  obtain ⟨context, hg⟩ := serves_admitted hs hl
  obtain ⟨row, hrow⟩ := admitted_of_run h₀ ha h e context hg
  exact ⟨context.apiKeyId, row, hrow⟩

/-! ## 4. Where the keys come from -/

/-- In this history the row was inserted by the script, or by a request that was admitted with the key
of a row of which the same holds. -/
inductive Trusted (dig : Digests) :
    List (Gate S ι × GateLabel L ι) → ApiKeyId → ApiKey → Prop
  | script {a b u id name role rawKey salt} :
      Trusted dig (a ++ (u, .script id name role rawKey salt) :: b) id
        (issue dig name role rawKey salt)
  | issued {a b u h id name role rawKey salt id' row} (hby : Trusted dig a id' row)
      (ha : Admitted dig a h .createApiKey id' row) :
      Trusted dig (a ++ (u, .serveKeys h (.create id name role rawKey salt)) :: b) id
        (issue dig name role rawKey salt)

theorem Trusted.append {S L ι : Type}
    {tr : List (Gate S ι × GateLabel L ι)} {id : ApiKeyId} {row : ApiKey}
    (h : Trusted dig tr id row) (tr' : List (Gate S ι × GateLabel L ι)) :
    Trusted dig (tr ++ tr') id row := by
  cases h with
  | script =>
    rw [List.append_assoc, List.cons_append]
    exact .script
  | issued hby ha =>
    rw [List.append_assoc, List.cons_append]
    exact .issued hby ha

/-- What an operation leaves in the table was there or is the row it creates. -/
theorem keyStep_get {keys keys' : Table ApiKeyId ApiKey} {op : KeyOp}
    (hk : keyStep dig keys op = some keys') {id : ApiKeyId} {row : ApiKey}
    (hrow : keys'.get id = some row) :
    keys.get id = some row ∨ ∃ name role rawKey salt, op = .create id name role rawKey salt ∧
      row = issue dig name role rawKey salt := by
  cases op with
  | create id' name role rawKey salt =>
    obtain rfl := Option.some.inj hk
    cases hins : createApiKey keys id' (issue dig name role rawKey salt) with
    | none => exact Or.inl (by rwa [hins] at hrow)
    | some keys' =>
      rw [hins, Option.getD_some] at hrow
      obtain ⟨-, hbatch⟩ := Option.ite_none_right_eq_some.mp hins
      rcases (Table.get_insertAll_some hbatch).mp hrow with hold | hnew
      · exact Or.inl hold
      · obtain ⟨rfl, rfl⟩ := Prod.mk.inj (List.mem_singleton.mp hnew)
        exact Or.inr ⟨name, role, rawKey, salt, rfl, rfl⟩
  | delete id' =>
    obtain rfl := Option.some.inj hk
    exact Or.inl (Table.get_delete_some.mp hrow).1

/-- The rows of every state a run goes through, and of its last. -/
structure AllTrusted (dig : Digests) (tr : List (Gate S ι × GateLabel L ι)) (G : Gate S ι) :
    Prop where
  past : ∀ p ∈ tr, ∀ id row, p.1.keys.get id = some row → Trusted dig tr id row
  now : ∀ id row, G.keys.get id = some row → Trusted dig tr id row

/-- **A chain of trust.**  On every run from an empty table, whatever is behind the gate: every row
ever stored was inserted by the script or by a request whose key opened the row of an admin, which
was itself inserted so. -/
theorem allTrusted_of_run {tr : List (Gate S ι × GateLabel L ι)} {s : S}
    (hrun : Run (gateStep dig step needs) (Gate.start s) tr G) : AllTrusted dig tr G := by
  induction hrun with
  | nil => exact ⟨fun p hp => absurd hp (by simp), fun _ _ h => absurd h (by simp [Gate.start])⟩
  | @snoc tr u l u' hrun hs ih =>
    have hpast : ∀ p ∈ tr ++ [(u, l)], ∀ id row, p.1.keys.get id = some row →
        Trusted dig (tr ++ [(u, l)]) id row := by
      intro p hp id row hrow
      rcases List.mem_append.mp hp with hp | hp
      · exact (ih.past p hp id row hrow).append _
      · rw [List.mem_singleton.mp hp] at hrow
        exact (ih.now id row hrow).append _
    refine ⟨hpast, fun id row hrow => ?_⟩
    have hkeep : u.keys.get id = some row → Trusted dig (tr ++ [(u, l)]) id row :=
      fun h => (ih.now id row h).append _
    cases gateStep_cases hs with
    | admitted | refused | serve | inner | leave => exact hkeep hrow
    | script hk =>
      rcases keyStep_get hk hrow with hold | ⟨name, role, rawKey, salt, hop, rfl⟩
      · exact hkeep hold
      · obtain ⟨rfl, rfl, rfl, rfl, rfl⟩ := KeyOp.create.inj hop
        exact .script
    | @serveKeys h op context keys hg hk =>
      rcases keyStep_get hk hrow with hold | ⟨name, role, rawKey, salt, rfl, rfl⟩
      · exact hkeep hold
      · -- the row that admitted the request was stored when it arrived
        obtain ⟨row', hrow'⟩ := admitted_of_run (fun _ => rfl) hrun h _ context hg
        obtain ⟨a, v, req, order, b, rfl, -, -, hopens⟩ := hrow'.arrived
        exact .issued (ih.past _ (List.mem_append_right _ List.mem_cons_self) _ _ hopens.stored) hrow'

/-- The step inserts a row under this id. -/
def GateLabel.creates : GateLabel L ι → Option ApiKeyId
  | .script id .. | .serveKeys _ (.create id ..) => some id
  | _ => none

/-- A row that is stored after a step was stored before, or is the step's own. -/
theorem gateStep_get {l : GateLabel L ι} (hs : gateStep dig step needs G l = some G')
    {id : ApiKeyId} {row : ApiKey} (hrow : G'.keys.get id = some row) :
    G.keys.get id = some row ∨ l.creates = some id := by
  cases gateStep_cases hs with
  | admitted | refused | serve | inner | leave => exact Or.inl hrow
  | script hk =>
    rcases keyStep_get hk hrow with hold | ⟨_, _, _, _, hop, -⟩
    · exact Or.inl hold
    · obtain ⟨rfl, -⟩ := KeyOp.create.inj hop
      exact Or.inr rfl
  | serveKeys _ hk =>
    rcases keyStep_get hk hrow with hold | ⟨_, _, _, _, rfl, -⟩
    · exact Or.inl hold
    · exact Or.inr rfl

/-- The rows a step does not insert or delete stay. -/
theorem gateStep_keys {l : GateLabel L ι} (hs : gateStep dig step needs G l = some G')
    (hscript : ∀ id name role rawKey salt, l ≠ .script id name role rawKey salt)
    (hserve : ∀ h op, l ≠ .serveKeys h op) : G'.keys = G.keys := by
  cases gateStep_cases hs with
  | admitted | refused | serve | inner | leave => rfl
  | serveKeys => exact absurd rfl (hserve _ _)
  | script => exact absurd rfl (hscript _ _ _ _ _)

/-! ## 5. What is behind the gate -/

/-- The step behind the gate a label is. -/
def innerLabel (_ : Gate S ι) : GateLabel L ι → Option L
  | .serve _ l | .inner l => some l
  | _ => none

/-- What those behind the gate see of a run. -/
def innerView (tr : List (Gate S ι × GateLabel L ι)) : List (S × L) :=
  view Gate.inner innerLabel tr

/-- A run of the gate is a run of what is behind it. -/
theorem inner_of_run {tr : List (Gate S ι × GateLabel L ι)}
    (hrun : Run (gateStep dig step needs) G₀ tr G) :
    Run step G₀.inner (innerView tr) G.inner := by
  refine hrun.view fun u l u' hs => ?_
  cases gateStep_cases hs with
  | serve _ _ hstep | inner _ hstep =>
    refine ⟨fun h => absurd h (by simp [innerLabel]), fun l' hl => ?_⟩
    obtain rfl := Option.some.inj hl
    exact hstep
  | admitted | refused | serveKeys | script | leave =>
    exact ⟨fun _ => rfl, fun l' hl => absurd hl (by simp [innerLabel])⟩

/-- A step behind the gate that begins a handler was begun by a request. -/
theorem served_of_view {tr : List (Gate S ι × GateLabel L ι)}
    (hrun : Run (gateStep dig step needs) G₀ tr G) {s : S} {l : L} {e : Endpoint}
    (hmem : (s, l) ∈ innerView tr) (hn : needs l = some e) :
    ∃ a u h b, tr = a ++ (u, .serve h l) :: b ∧ u.inner = s := by
  obtain ⟨u, x, hx, rfl, hl⟩ := mem_view.mp hmem
  obtain ⟨a, b, rfl⟩ := List.append_of_mem hx
  cases x with
  | serve h l' =>
    obtain rfl := Option.some.inj hl
    exact ⟨a, u, h, b, rfl, rfl⟩
  | inner l' =>
    obtain rfl := Option.some.inj hl
    obtain ⟨-, u', hs, -⟩ := hrun.at
    cases gateStep_cases hs with
    | inner hnone _ => exact absurd (hn.symm.trans hnone) (by simp)
  | arrive | serveKeys | script | leave => exact absurd hl (by simp [innerLabel])

end EvalHarness
