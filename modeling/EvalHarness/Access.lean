/-
# The gate of the harness

`Gate.lean` around the two systems that have requests: the site, where evaluations are asked for, and
the service, where reviews are.  Behind the gate they do what they did, so what is known of their runs
(`launched_of_run`, `recorded_of_run`) says which request did it, and the gate says with whose key.
-/
import EvalHarness.Gate
import EvalHarness.Growth
import EvalHarness.Service

namespace EvalHarness

open Lts

variable {σ η κ ι : Type} [DecidableEq σ] [DecidableEq η] [DecidableEq κ] [DecidableEq ι]

/-! ## 1. Which steps begin a handler -/

/-- The handler a step of the system begins.  The later steps of a request need no admission. -/
def Label.needs : Label σ η → Option Endpoint
  | .create .. => some .createEvalRun
  | .cancel .. => some .cancelEvalRun
  | .replay .. => some .replayRunItem
  | .handler .. | .drop _ | .deliver .. | .redeliver .. | .exec .. | .crash _ => none

def SiteLabel.needs : SiteLabel σ η → Option Endpoint
  | .world l => l.needs
  | .taskSet _ => some .createTaskSet
  | .task .. => some .createTask
  | .endpoint .. => some .createModelEndpoint

def DeskLabel.needs : DeskLabel κ → Option Endpoint
  | .claim .. => some .claimReviewItem
  | .resolve .. => some .resolveReviewItem
  | .insert .. | .read _ | .drop _ => none

def ServiceLabel.needs : ServiceLabel σ η κ → Option Endpoint
  | .work l _ => l.needs
  | .desk l => l.needs

/-! ## 2. Whatever is behind the gate -/

/-- A request with this key for this handler. -/
def presents (key : String) (e : Endpoint) : Request := ⟨"POST", "/v1", some key, none, some e⟩

/-- The lookup returns its rows as they were inserted. -/
def asInserted : Sql.TieOrder (ApiKeyId × ApiKey) := ⟨id, fun _ => .refl _⟩

/-- The script makes a key for an admin. -/
def oneKey {L ι : Type} : List (GateLabel L ι) := [.script 1 "console" .admin "alpha" [1, 2]]

/-- And one for a reviewer. -/
def twoKeys {L ι : Type} : List (GateLabel L ι) :=
  oneKey ++ [.script 2 "laptop" .reviewer "beta" [3, 4]]

/-- A request comes in for this slot. -/
def GateLabel.arrives {L ι : Type} [DecidableEq ι] (h : ι) : GateLabel L ι → Bool
  | .arrive h' _ _ => h' == h
  | _ => false

/-- The small installation behind its gate. -/
abbrev SmallGate := Gate (Site (Fin 1) (Fin 1)) (Fin 2)

abbrev SmallGateLabel := GateLabel (SiteLabel (Fin 1) (Fin 1)) (Fin 2)

def smallGateStep : SmallGate → SmallGateLabel → Option SmallGate :=
  gateStep sampleDigests (siteStep (smallConfig 1 1 5000000)) SiteLabel.needs

def smallGate : SmallGate := Gate.start (Site.start (smallConfig 1 1 5000000).catalog)

section Any

variable {S L : Type} {dig : Digests} {step : S → L → Option S} {needs : L → Option Endpoint}
  {G G₀ : Gate S ι}

/-- **Complete mediation.**  Whatever is behind the gate, on every run and in any interleaving: a step
that is neither the script's nor one of a party behind the gate leaves the keys and what is behind
the gate alone, or begins a handler; and then a request for that handler has arrived before, with a
key that opened a stored row whose role the handler's router asks for, and has begun nothing since. -/
theorem complete_mediation {a b : List (Gate S ι × GateLabel L ι)} {u : Gate S ι}
    {l : GateLabel L ι} (h₀ : ∀ h, G₀.admitted h = none)
    (hrun : Run (gateStep dig step needs) G₀ (a ++ (u, l) :: b) G)
    (hscript : ∀ id name role rawKey salt, l ≠ .script id name role rawKey salt)
    (hinner : ∀ l', l ≠ .inner l') :
    ∃ u', gateStep dig step needs u l = some u' ∧
      (u'.keys = u.keys ∧ u'.inner = u.inner ∨
        ∃ h e id row, l.serves needs = some (h, e) ∧ Admitted dig a h e id row) := by
  obtain ⟨-, u', hs, -⟩ := hrun.at
  refine ⟨u', hs, ?_⟩
  have hserves : ∀ h e, l.serves needs = some (h, e) →
      ∃ h e id row, l.serves needs = some (h, e) ∧ Admitted dig a h e id row := by
    intro h e hl
    obtain ⟨id, row, hrow⟩ := serves_of_run h₀ hrun hl
    exact ⟨h, e, id, row, hl, hrow⟩
  cases gateStep_cases hs with
  | admitted | refused | leave => exact Or.inl ⟨rfl, rfl⟩
  | @serve h l' e _ _ _ hn _ => exact Or.inr (hserves h e (by simp [GateLabel.serves, hn]))
  | serveKeys => exact Or.inr (hserves _ _ rfl)
  | script => exact absurd rfl (hscript _ _ _ _ _)
  | inner => exact absurd rfl (hinner _)

end Any

/-- The run of the small installation is created for the admin. -/
theorem complete_mediation_small : ∃ (a : List (SmallGate × SmallGateLabel)) (u : SmallGate)
    (id : ApiKeyId) (row : ApiKey), Run smallGateStep smallGate a u ∧
      Admitted sampleDigests a 0 .createEvalRun id row := by
  obtain ⟨a, u, hrun, -, htest⟩ := exists_run_of_play smallGateStep smallGate (fun _ _ => true)
    (oneKey ++ [.arrive 0 (presents " alpha" .createEvalRun) asInserted])
    (fun _ u => (u.inner.world.store.db.runs.get 0).isNone &&
      (smallGateStep u (.serve 0 (.world (.create 0 smallRequest 0 [0] 0)))).any
        fun u' => (u'.inner.world.store.db.runs.get 0).isSome)
    (by decide +kernel)
  obtain ⟨hnone, hstep⟩ := Bool.and_eq_true_iff.mp htest
  obtain ⟨u', hs, hsome⟩ := (Option.any_eq_true ..).mp hstep
  obtain ⟨u'', hs', hcase⟩ := complete_mediation (fun _ => rfl) (hrun.snoc hs) (by simp) (by simp)
  obtain rfl := Option.some.inj (hs.symm.trans hs')
  rcases hcase with ⟨-, hsame⟩ | ⟨h, e, id, row, hl, hadm⟩
  · rw [hsame] at hsome
    simp_all
  · obtain ⟨rfl, rfl⟩ := Prod.mk.inj (Option.some.inj hl)
    exact ⟨a, u, id, row, hrun, hadm⟩

section Any

variable {S L : Type} {dig : Digests} {step : S → L → Option S} {needs : L → Option Endpoint}
  {G G₀ : Gate S ι}

/-- A request that opens no admin's row of these keys. -/
def Lowly (dig : Digests) (keys : Table ApiKeyId ApiKey) (l : GateLabel L ι) : Prop :=
  ∀ h req order, l = .arrive h req order → ∀ id row, Opens dig keys req id row →
    row.role = .reviewer

/-- **No escalation.**  From any state with nobody inside, whatever is behind the gate: as long as no
request presents a key that opens an admin's row of the table as it is now, and the script is not
run, the table stays as it is, and no handler begins that is not open to reviewers. -/
theorem no_escalation {tr : List (Gate S ι × GateLabel L ι)} (h₀ : ∀ h, G₀.admitted h = none)
    (hrun : Run (gateStep dig step needs) G₀ tr G)
    (hlow : ∀ p ∈ tr, Lowly dig G₀.keys p.2)
    (hscript : ∀ p ∈ tr, ∀ id name role rawKey salt, p.2 ≠ .script id name role rawKey salt) :
    G.keys = G₀.keys ∧
      ∀ p ∈ tr, ∀ h e, p.2.serves needs = some (h, e) → .reviewer ∈ e.roles := by
  have hall : G.keys = G₀.keys ∧
      (∀ h e context, G.admitted h = some (e, context) → .reviewer ∈ e.roles) ∧
      ∀ p ∈ tr, ∀ h e, p.2.serves needs = some (h, e) → .reviewer ∈ e.roles := by
    induction hrun with
    | nil =>
      exact ⟨rfl, fun h e context hx => absurd hx (by simp [h₀]), fun p hp => absurd hp (by simp)⟩
    | @snoc tr u l u' _ hs ih =>
      obtain ⟨hkeys, hinside, hserved⟩ := ih (fun p hp => hlow p (List.mem_append_left _ hp))
        fun p hp => hscript p (List.mem_append_left _ hp)
      have hnow : ∀ h e, l.serves needs = some (h, e) → .reviewer ∈ e.roles := by
        intro h e hl
        obtain ⟨context, hg⟩ := serves_admitted hs hl
        exact hinside h e context hg
      refine ⟨?_, fun h e context hx => ?_, fun p hp h e hl => ?_⟩
      · rw [← hkeys]
        refine gateStep_keys hs (hscript (u, l) (by simp)) ?_
        rintro h op rfl
        -- the keys are for admins only
        have hrole := hnow h op.endpoint rfl
        cases op <;> exact absurd hrole (by simp [KeyOp.endpoint, Endpoint.roles, Endpoint.router,
          Router.roles])
      · rcases gateStep_admitted hs hx with ⟨hold, -⟩ | ⟨req, order, rfl, ha⟩
        · exact hinside h e context hold
        · obtain ⟨he, row, hopens, hrole⟩ := opens_of_admitRequest ha
          rw [hkeys] at hopens
          have hlowly := hlow (u, .arrive h req order) (by simp)
          rwa [hlowly h req order rfl _ row hopens] at hrole
      · rcases List.mem_append.mp hp with hp | hp
        · exact hserved p hp h e hl
        · obtain rfl := List.mem_singleton.mp hp
          exact hnow h e hl
  exact ⟨hall.1, hall.2.2⟩

end Any

/-- What is to be checked of a step. -/
def lowlyLabel {L ι : Type} (dig : Digests) (keys : Table ApiKeyId ApiKey) : GateLabel L ι → Bool
  | .arrive _ req _ => keys.rows.all fun x => (extractKey req).all fun rawKey =>
      x.2.role == .reviewer || (verifyApiKey dig rawKey x.2.keyHash).toOption != some true
  | .serve .. | .inner _ | .leave _ => true
  | .serveKeys .. | .script .. => false

theorem lowly_of_label {L ι : Type} {dig : Digests} {keys : Table ApiKeyId ApiKey}
    {l : GateLabel L ι} (h : lowlyLabel dig keys l = true) :
    Lowly dig keys l ∧ ∀ id name role rawKey salt, l ≠ .script id name role rawKey salt := by
  refine ⟨?_, fun id name role rawKey salt hl => by rw [hl] at h; exact absurd h (by simp [lowlyLabel])⟩
  rintro h' req order rfl id row ⟨hrow, rawKey, hkey, hv⟩
  have hx := List.all_eq_true.mp h (id, row) ((Table.mem_rows_iff _).mpr hrow)
  simpa [hkey, hv, Except.toOption] using hx

/-- A reviewer asks for a key, in vain, and for the board. -/
theorem no_escalation_small : ∃ (G₀ G : SmallGate) (tr : List (SmallGate × SmallGateLabel)),
    Run smallGateStep G₀ tr G ∧ tr.length = 3 ∧ (G₀.keys.get 1).isSome ∧ G.keys = G₀.keys := by
  obtain ⟨-, G₀, -, -, htest⟩ := exists_run_of_play smallGateStep smallGate (fun _ _ => true)
    twoKeys (fun _ u => decide (∀ h, u.admitted h = none) && (u.keys.get 1).isSome &&
      (play smallGateStep (fun _ l => lowlyLabel sampleDigests u.keys l) u
        [.arrive 0 (presents "beta" .createApiKey) asInserted,
          .arrive 0 (presents "beta" .getLeaderboard) asInserted, .leave 0]).any
            fun r => r.1.length == 3)
    (by decide +kernel)
  simp only [Bool.and_eq_true, decide_eq_true_eq, Option.any_eq_true, beq_iff_eq] at htest
  obtain ⟨⟨hfree, hkey⟩, r, hplay, hlen⟩ := htest
  obtain ⟨hrun, hall⟩ := play_sound _ hplay
  obtain ⟨hkeys, -⟩ := no_escalation hfree hrun (fun p hp => (lowly_of_label (hall p hp)).1)
    fun p hp => (lowly_of_label (hall p hp)).2
  exact ⟨G₀, r.2, r.1, hrun, hlen, hkey, hkeys⟩

section Any

variable {S L : Type} {dig : Digests} {step : S → L → Option S} {needs : L → Option Endpoint}
  {G G₀ : Gate S ι}

/-- A request arrives and is admitted under this row. -/
def AdmitsUnder (dig : Digests) (G : Gate S ι) (l : GateLabel L ι) (id : ApiKeyId) : Prop :=
  ∃ h req order e context, l = .arrive h req order ∧ context.apiKeyId = id ∧
    admitRequest dig (fun rawKey => order.rows (candidates dig G.keys rawKey)) req =
      .ok (e, context)

/-- Under a row that is not there nobody is admitted. -/
theorem not_admitsUnder {ι S L : Type} {G : Gate S ι}
    {l : GateLabel L ι} {id : ApiKeyId} (hgone : G.keys.get id = none) :
    ¬ AdmitsUnder dig G l id := by
  rintro ⟨h, req, order, e, context, -, rfl, ha⟩
  obtain ⟨-, row, hopens, -⟩ := opens_of_admitRequest ha
  rw [hopens.stored] at hgone
  cases hgone

/-- **Revocation.**  Once a row is deleted, and as long as no new row takes its id, no request that
arrives is admitted under it: who is inside under it was inside when it was deleted, for the same
handler, and has not left since. -/
theorem revocation {u u₁ v : Gate S ι} {b : List (Gate S ι × GateLabel L ι)} {h : ι}
    {id : ApiKeyId} (hs : gateStep dig step needs u (.serveKeys h (.delete id)) = some u₁)
    (hrun : Run (gateStep dig step needs) u₁ b v) (hnew : ∀ p ∈ b, p.2.creates ≠ some id) :
    v.keys.get id = none ∧ (∀ p ∈ b, ¬ AdmitsUnder dig p.1 p.2 id) ∧
      ∀ h' e context, v.admitted h' = some (e, context) → context.apiKeyId = id →
        u.admitted h' = some (e, context) ∧ ∀ p ∈ b, p.2.frees ≠ some h' := by
  induction hrun with
  | nil =>
    -- the deletion itself
    cases gateStep_cases hs with
    | serveKeys hg hk =>
      obtain rfl := Option.some.inj hk
      refine ⟨?_, fun p hp => absurd hp (by simp), fun h' e context hx _ =>
        ⟨?_, fun p hp => absurd hp (by simp)⟩⟩
      · by_contra hne
        obtain ⟨row, hrow⟩ := Option.ne_none_iff_exists'.mp hne
        exact (Table.get_delete_some.mp hrow).2 rfl
      · rcases gateStep_admitted hs hx with ⟨hold, -⟩ | ⟨_, _, h, -⟩
        · exact hold
        · cases h
  | @snoc b v l v' _ hstep ih =>
    obtain ⟨hgone, hnone, hinside⟩ := ih fun p hp => hnew p (List.mem_append_left _ hp)
    have hthis := hnew (v, l) (by simp)
    refine ⟨?_, fun p hp => ?_, fun h' e context hx hid => ?_⟩
    · by_contra hne
      obtain ⟨row, hrow⟩ := Option.ne_none_iff_exists'.mp hne
      rcases gateStep_get hstep hrow with hold | hl
      · cases hgone.symm.trans hold
      · exact hthis hl
    · rcases List.mem_append.mp hp with hp | hp
      · exact hnone p hp
      · obtain rfl := List.mem_singleton.mp hp
        exact not_admitsUnder hgone
    · rcases gateStep_admitted hstep hx with ⟨hold, hstays⟩ | ⟨req, order, rfl, ha⟩
      · obtain ⟨hu, hfrees⟩ := hinside h' e context hold hid
        refine ⟨hu, fun p hp => ?_⟩
        rcases List.mem_append.mp hp with hp | hp
        · exact hfrees p hp
        · obtain rfl := List.mem_singleton.mp hp
          exact hstays
      · have hadmits : AdmitsUnder dig v (.arrive h' req order : GateLabel L ι) id :=
          ⟨h', req, order, e, context, rfl, hid, ha⟩
        exact absurd hadmits (not_admitsUnder hgone)

end Any

/-- The reviewer's key is deleted while a request with it is under way.  When that one has left, the
next is refused. -/
theorem revocation_small : ∃ (u v : SmallGate) (b : List (SmallGate × SmallGateLabel)),
    (u.admitted 1).isSome ∧ v.keys.get 2 = none ∧ v.admitted 1 = none ∧
      (b.any fun p => p.2.arrives 1) = true ∧
      ∀ p ∈ b, ¬ AdmitsUnder sampleDigests p.1 p.2 2 := by
  obtain ⟨-, u, -, -, htest⟩ := exists_run_of_play smallGateStep smallGate (fun _ _ => true)
    (twoKeys ++ [.arrive 0 (presents "alpha" .deleteApiKey) asInserted,
      .arrive 1 (presents "beta" .listReviewQueue) asInserted])
    (fun _ u => (u.admitted 1).isSome && (smallGateStep u (.serveKeys 0 (.delete 2))).any fun u₁ =>
      (play smallGateStep (fun _ l => decide (l.creates ≠ some 2)) u₁
        [.leave 1, .arrive 1 (presents "beta" .listReviewQueue) asInserted]).any fun r =>
          (r.2.admitted 1).isNone && r.1.any fun p => p.2.arrives 1)
    (by decide +kernel)
  obtain ⟨hinside, hrest⟩ := Bool.and_eq_true_iff.mp htest
  obtain ⟨u₁, hs, hplay⟩ := (Option.any_eq_true ..).mp hrest
  obtain ⟨r, hr, hout⟩ := (Option.any_eq_true ..).mp hplay
  obtain ⟨hidle, harrives⟩ := Bool.and_eq_true_iff.mp hout
  obtain ⟨hrun, hall⟩ := play_sound _ hr
  obtain ⟨hgone, hnone, -⟩ := revocation hs hrun fun p hp => of_decide_eq_true (hall p hp)
  exact ⟨u, r.2, r.1, hinside, hgone, Option.isNone_iff_eq_none.mp hidle, harrives, hnone⟩

/-! ## 3. Authorised steps -/

section Authorised

variable {S L : Type} {dig : Digests} {step : S → L → Option S} {needs : L → Option Endpoint}
  {G : Gate S ι} {s₀ : S}

/-- In this history a handler began with such a step, for a request with a key that opened a row with
one of its roles, a row that came from the script through admins. -/
def Authorised (dig : Digests) (tr : List (Gate S ι × GateLabel L ι)) (e : Endpoint)
    (P : L → Prop) : Prop :=
  ∃ a u h l b id row, tr = a ++ (u, .serve h l) :: b ∧ P l ∧ Admitted dig a h e id row ∧
    Trusted dig a id row

theorem authorised_of_view {tr : List (Gate S ι × GateLabel L ι)}
    (hrun : Run (gateStep dig step needs) (Gate.start s₀) tr G) {s : S} {l : L} {e : Endpoint}
    (hmem : (s, l) ∈ innerView tr) (hn : needs l = some e) {P : L → Prop} (hP : P l) :
    Authorised dig tr e P := by
  obtain ⟨a, u, h, b, rfl, -⟩ := served_of_view hrun hmem hn
  have hl : (GateLabel.serve h l : GateLabel L ι).serves needs = some (h, e) := by
    simp [GateLabel.serves, hn]
  obtain ⟨id, row, hrow⟩ := serves_of_run (fun _ => rfl) hrun hl
  refine ⟨a, u, h, l, b, id, row, rfl, hP, hrow, ?_⟩
  have htrusted := allTrusted_of_run hrun.at.1
  obtain ⟨a', v, req, order, b', rfl, -, -, hopens⟩ := hrow.arrived
  exact htrusted.past _ (List.mem_append_right _ List.mem_cons_self) _ _ hopens.stored

end Authorised

/-! ## 4. Nobody is called for nobody -/

variable {cfg : Config} {dig : Digests}

/-- **No call without an admin.**  On every run of the site behind its gate: whenever a worker calls a
provider, it does so for an item of a run that was created before by a request with the key of an
admin, and that key came from the script through admins. -/
theorem calls_authorised {cat : Catalog} {a b : List (Gate (Site σ η) ι × GateLabel (SiteLabel σ η) ι)}
    {u G : Gate (Site σ η) ι} {s : σ} {c : Choice} {i : ItemId} {v : Loaded} {n : Nat}
    (hrun : Run (gateStep dig (siteStep cfg) SiteLabel.needs) (Gate.start (Site.start cat))
      (a ++ (u, .inner (.world (.exec s c))) :: b) G)
    (he : u.inner.world.workers s = some ⟨i, .at v (.complete n)⟩) :
    ∃ row, u.inner.world.store.db.items.get i = some row ∧
      Authorised dig a .createEvalRun fun l => ∃ h payload itemIds now,
        l = .world (.create h payload row.evalRunId itemIds now) := by
  obtain ⟨ha, -⟩ := hrun.at
  have hsite : Run (siteStep cfg) (Site.start cat) (innerView a) u.inner := inner_of_run ha
  have hS := saneSite_of_run hsite
  obtain ⟨row, hrow⟩ := Option.isSome_iff_exists.mp (hS.sent i (hS.known s _ he))
  obtain ⟨run, hr⟩ := hS.run_of_item i row hrow
  obtain ⟨w, h, payload, itemIds, now, hmem, -⟩ := launched_of_run hsite _ run hr
  exact ⟨row, hrow, authorised_of_view ha hmem rfl ⟨h, payload, itemIds, now, rfl⟩⟩

/-- The slot's next step is the first call of item 0. -/
def World.calls (w : World σ η) (s : σ) : Bool :=
  match w.workers s with
  | some ⟨0, .at _ (.complete 1)⟩ => true
  | _ => false

/-- The admin's run is created and its one item begun; the next step calls the provider. -/
theorem calls_authorised_small : ∃ (a : List (SmallGate × SmallGateLabel)) (u : SmallGate)
    (row : RunItem), u.inner.world.store.db.items.get 0 = some row ∧
      Authorised sampleDigests a .createEvalRun fun l => ∃ h payload itemIds now,
        l = SiteLabel.world (.create h payload row.evalRunId itemIds now) := by
  obtain ⟨a, u, hrun, -, htest⟩ := exists_run_of_play smallGateStep smallGate (fun _ _ => true)
    (oneKey ++ [.arrive 0 (presents "alpha" .createEvalRun) asInserted,
      .serve 0 (.world (.create 0 smallRequest 0 [0] 0)), .inner (.world (.handler 0 0)),
      .inner (.world (.deliver 0 0))] ++ (execs 0 answers 2).map fun l => .inner (.world l))
    (fun _ u => u.inner.world.calls 0 &&
      (smallGateStep u (.inner (.world (.exec 0 answers)))).isSome)
    (by decide +kernel)
  obtain ⟨hat, hstep⟩ := Bool.and_eq_true_iff.mp htest
  obtain ⟨u', hs⟩ := Option.isSome_iff_exists.mp hstep
  rw [World.calls] at hat
  split at hat
  · rename_i v hw
    obtain ⟨row, hrow, hauth⟩ := calls_authorised (hrun.snoc hs) hw
    exact ⟨a, u, row, hrow, hauth⟩
  · exact absurd hat (by simp)

/-! ## 5. Nobody labels without a key -/

theorem claim_of_claimWins {κ : Type}
    {k : ReviewId} {p : Desk κ × DeskLabel κ} (h : claimWins k p = true) :
    ∃ h now, p.2 = .claim h k now := by
  obtain ⟨d, l⟩ := p
  cases l with
  | claim h' k' now =>
    obtain ⟨hk, -⟩ := Bool.and_eq_true_iff.mp h
    exact ⟨h', now, by rw [beq_iff_eq.mp hk]⟩
  | insert | resolve | read | drop => exact absurd h (by simp [claimWins])

theorem resolve_of_resolvedLabel {κ : Type}
    {k : ReviewId} {p : Desk κ × DeskLabel κ} {x : UnitFloat}
    (h : resolvedLabel k p = some x) : ∃ h payload now, p.2 = .resolve h k payload now ∧
      payload.label = x := by
  obtain ⟨d, l⟩ := p
  cases l with
  | resolve h' k' payload now =>
    obtain ⟨⟨rfl, -⟩, hx⟩ := Option.ite_none_right_eq_some.mp h
    exact ⟨h', payload, now, rfl, Option.some.inj hx⟩
  | insert | claim | read | drop => exact absurd h (by simp [resolvedLabel])

/-- A step of the desk that is no insertion is one of the service. -/
theorem desk_of_mem_deskView {σ η κ : Type} [DecidableEq σ] [DecidableEq η]
    {tr : List (Service σ η κ × ServiceLabel σ η κ)} {d : Desk κ}
    {l : DeskLabel κ} (h : (d, l) ∈ deskView cfg tr) (hl : l.isInsert = false) :
    ∃ S, (S, ServiceLabel.desk l) ∈ tr := by
  obtain ⟨S, x, hmem, -, hx⟩ := mem_view.mp h
  cases x with
  | desk l' =>
    obtain rfl := Option.some.inj hx
    exact ⟨S, hmem⟩
  | work l' k =>
    obtain ⟨w, -, hw⟩ := Option.bind_eq_some_iff.mp hx
    obtain ⟨row, -, rfl⟩ := Option.map_eq_some_iff.mp hw
    exact absurd hl (by simp [insertOf, DeskLabel.isInsert])

/-- **No label without a key.**  On every run of the service behind its gate: a review that is no
longer open was claimed, and one that is resolved has its label, by requests with the keys of admins
or reviewers that came from the script through admins. -/
theorem labels_authorised {tr : List (Gate (Service σ η κ) ι × GateLabel (ServiceLabel σ η κ) ι)}
    {G : Gate (Service σ η κ) ι}
    (hrun : Run (gateStep dig (serviceStep cfg) ServiceLabel.needs) (Gate.start Service.init) tr G)
    {k : ReviewId} {row : ReviewItem} (hrow : G.inner.desk.reviews.get k = some row) :
    (row.status ≠ .open → Authorised dig tr .claimReviewItem fun l => ∃ h now,
      l = .desk (.claim h k now)) ∧
    ∀ q, row.reviewerLabel = some q → Authorised dig tr .resolveReviewItem fun l =>
      ∃ h payload now, l = .desk (.resolve h k payload now) ∧ payload.label.score = q := by
  have hservice : Run (serviceStep cfg) Service.init (innerView tr) G.inner := inner_of_run hrun
  have hrec := recorded_of_run (desk_of_run hservice) k
  rw [hrow] at hrec
  have hclaimed : (deskView cfg (innerView tr)).countP (claimWins k) = 1 →
      Authorised dig tr .claimReviewItem fun l => ∃ h now, l = .desk (.claim h k now) := by
    intro hc
    obtain ⟨p, hp, hwin⟩ := List.countP_pos_iff.mp (hc ▸ Nat.one_pos)
    obtain ⟨d, l⟩ := p
    obtain ⟨h, now, rfl⟩ := claim_of_claimWins hwin
    obtain ⟨S, hmem⟩ := desk_of_mem_deskView hp rfl
    exact authorised_of_view hrun hmem rfl ⟨h, now, rfl⟩
  cases hrec with
  | «open» hst _ _ hcols =>
    exact ⟨fun h => absurd hst h, fun q hq => absurd (hcols.2.2.symm.trans hq) (by simp)⟩
  | claimed _ hc _ hcols =>
    exact ⟨fun _ => hclaimed hc, fun q hq => absurd (hcols.2.2.symm.trans hq) (by simp)⟩
  | @resolved _ _ _ x _ hc hr hcols =>
    refine ⟨fun _ => hclaimed hc, fun q hq => ?_⟩
    obtain rfl := Option.some.inj (hcols.2.2.symm.trans hq)
    obtain ⟨p, hp, hx⟩ := List.mem_filterMap.mp (hr ▸ List.mem_singleton.mpr rfl)
    obtain ⟨d, l⟩ := p
    obtain ⟨h, payload, now, rfl, rfl⟩ := resolve_of_resolvedLabel hx
    obtain ⟨S, hmem⟩ := desk_of_mem_deskView hp rfl
    exact authorised_of_view hrun hmem rfl ⟨h, payload, now, rfl, rfl⟩

/-- The service of one item behind its gate: an admin has it evaluated, a reviewer claims and resolves
its review. -/
def reviewedByKey (s : σ) (h : η) (k : κ) (g : ι) : List (GateLabel (ServiceLabel σ η κ) ι) :=
  twoKeys ++ [.arrive g (presents "alpha" .createEvalRun) asInserted,
    .serve g (.work (.create h smallRequest 0 [0] 0) 0)] ++
    ((gradedUndecided s h).tail.map fun l => .inner (.work l 0)) ++
    [.arrive g (presents "beta" .claimReviewItem) asInserted, .serve g (.desk (.claim k 0 3)),
      .inner (.desk (.read k)), .arrive g (presents "beta" .resolveReviewItem) asInserted,
      .serve g (.desk (.resolve k 0 ⟨fourFifths, none⟩ 5))]

/-- Its label is the reviewer's. -/
theorem labels_authorised_small : ∃ (tr : List (Gate (Service (Fin 1) (Fin 1) (Fin 1)) (Fin 1) ×
    GateLabel (ServiceLabel (Fin 1) (Fin 1) (Fin 1)) (Fin 1))),
    Authorised sampleDigests tr .resolveReviewItem fun l => ∃ h payload now,
      l = ServiceLabel.desk (.resolve h 0 payload now) ∧ payload.label.score = .milli 800 := by
  obtain ⟨tr, G, hrun, -, htest⟩ := exists_run_of_play
    (gateStep sampleDigests (serviceStep comparedConfig) ServiceLabel.needs)
    (Gate.start (Service.init : Service (Fin 1) (Fin 1) (Fin 1)) :
      Gate (Service (Fin 1) (Fin 1) (Fin 1)) (Fin 1)) (fun _ _ => true)
    (reviewedByKey 0 0 0 0)
    (fun _ G => (G.inner.desk.reviews.get 0).any fun row => row.reviewerLabel == some (.milli 800))
    (by decide +kernel)
  obtain ⟨row, hrow, hlabel⟩ := (Option.any_eq_true ..).mp htest
  exact ⟨tr, (labels_authorised hrun hrow).2 _ (by simpa using hlabel)⟩

end EvalHarness
