/-
# The three views of the leaderboard agree

The history of a model name and the capability breakdown of an endpoint aggregate the same relation
`effective` as the leaderboard, but filter it at other places and group it by other keys.
`views_agree` says that they count and average the same rows: in every state that satisfies the
foreign keys of `run_item`, whatever rows the joins multiply.
-/
import EvalHarness.Leaderboard
import EvalHarness.WellFormed

namespace EvalHarness

/-! ## 1. The queries -/

structure HistoryPoint where
  modelVersion : String
  evalRunId : RunId
  evaluatedAt : Timestamp
  meanScore : Option Sql.Numeric
  n : Nat
  deriving DecidableEq

/-- The `FROM` and the `WHERE` of `_HISTORY_SQL`. -/
def historyScored (cat : Catalog) (db : Db) (modelName : String) :
    List ((Effective × EndpointId × ModelEndpoint) × RunId × EvalRun) :=
  (Sql.join (fun x er => er.1 == x.1.evalRunId)
    (joinEndpoints cat (effective cat db fun _ => true)) db.runs.rows).filter fun y =>
      y.1.1.score.isSome && y.1.2.2.name == modelName

/-- `_HISTORY_SQL` in front of its `ORDER BY`. -/
def historyPoints (cat : Catalog) (db : Db) (modelName : String) : List HistoryPoint :=
  (Sql.groupBy (fun y => (y.1.2.2.modelVersion, y.2.1, y.2.2.createdAt))
    (historyScored cat db modelName)).map fun g =>
      { modelVersion := g.1.1, evalRunId := g.1.2.1, evaluatedAt := g.1.2.2,
        meanScore := meanScore (g.2.map (·.1.1)), n := g.2.length }

/-- `get_leaderboard_history`. -/
def history (collation : String → String → Bool) (cat : Catalog) (db : Db) (modelName : String) :
    List HistoryPoint :=
  Sql.orderBy
    (fun p p' => if p.evaluatedAt = p'.evaluatedAt then collation p.modelVersion p'.modelVersion
      else p.evaluatedAt ≤ p'.evaluatedAt)
    (historyPoints cat db modelName)

structure CapabilityRow where
  capability : String
  meanScore : Option Sql.Numeric
  passRate : Option Sql.Numeric
  n : Nat
  deriving DecidableEq

/-- The select list of `_CAPABILITIES_SQL` over one group. -/
def CapabilityRow.of (capability : String) (rows : List Effective) : CapabilityRow :=
  { capability, meanScore := EvalHarness.meanScore rows, passRate := EvalHarness.passRate rows,
    n := rows.length }

/-- `_CAPABILITIES_SQL` in front of its `ORDER BY`. -/
def capabilityRows (cat : Catalog) (db : Db) (id : EndpointId) : List CapabilityRow :=
  let scored := (effective cat db fun _ => true).filter fun e =>
    e.score.isSome && e.modelEndpointId == id
  (Sql.groupBy (·.capability) scored).map fun g => .of g.1 g.2

/-- `get_capability_breakdown`. -/
def capabilityBreakdown (collation : String → String → Bool) (cat : Catalog) (db : Db)
    (id : EndpointId) : List CapabilityRow :=
  Sql.orderBy (fun r r' => collation r.capability r'.capability) (capabilityRows cat db id)

/-- The foreign keys of `run_item` that the views join on. -/
structure Db.ForeignKeys (cat : Catalog) (db : Db) : Prop where
  endpoint : ∀ i row, db.items.get i = some row →
    ∃ me, cat.endpoints.get row.modelEndpointId = some me
  run : ∀ i row, db.items.get i = some row → ∃ run, db.runs.get row.evalRunId = some run

/-- The system keeps them: an item is inserted behind its run, for an endpoint of the catalog. -/
theorem foreignKeys_of_run {σ η : Type} [DecidableEq σ] [DecidableEq η] {cfg : Config}
    {w : World σ η} {tr : List (World σ η × Label σ η)}
    (h : Lts.Run (step cfg) World.init tr w) : w.store.db.ForeignKeys cfg.catalog where
  endpoint i row hrow := ((sane_of_run h).catalog_of_item i row hrow).2
  run i row hrow := (sane_of_run h).run_of_item i row hrow

/-! ## 2. The relation under a filter -/

section Filters

variable {cat : Catalog} {db : Db} {filters : Task → Bool}

theorem taskFilters_none : taskFilters none none = fun _ => true := rfl

/-- A capability filter inside the relation is one on its column. -/
theorem effective_capability {capability : String} (hc : capability ≠ "") :
    effective cat db (taskFilters none (some capability)) =
      (effective cat db fun _ => true).filter fun e => e.capability == capability := by
  simp only [effective, List.filter_map, List.filter_filter]
  congr 1
  refine List.filter_congr fun x _ => ?_
  simp [taskFilters, beq_false_of_ne hc, Effective.of, Bool.and_comm]

/-- A row of the relation has its endpoint and its run from an item. -/
theorem item_of_effective {e : Effective} (h : e ∈ effective cat db filters) :
    ∃ i row, db.items.get i = some row ∧ e.modelEndpointId = row.modelEndpointId ∧
      e.evalRunId = row.evalRunId := by
  obtain ⟨x, hx, rfl⟩ := List.mem_map.mp h
  have hri := Sql.mem_of_mem_join (Sql.mem_of_mem_leftJoin (Sql.mem_of_mem_leftJoin
    (Sql.mem_of_mem_leftJoin (List.mem_of_mem_filter hx))))
  exact ⟨_, _, (db.items.mem_rows_iff).mp hri, rfl, rfl⟩

end Filters

/-! ## 3. Capabilities -/

section Capabilities

variable {cat : Catalog} {db : Db} {collation : String → String → Bool} {id : EndpointId}

theorem endpointRows_capability {capability : String} (hc : capability ≠ "") :
    endpointRows cat db (taskFilters none (some capability)) id =
      (endpointRows cat db (fun _ => true) id).filter fun e => e.capability == capability := by
  rw [endpointRows, endpointRows, effective_capability hc, List.filter_filter, List.filter_filter]
  exact List.filter_congr fun e _ => Bool.and_comm _ _

/-- The breakdown's rows for a capability: one over the endpoint's rows of it, if there are any. -/
theorem breakdown_filter (capability : String) :
    ((capabilityBreakdown collation cat db id).filter fun r => r.capability == capability) =
      if ((endpointRows cat db (fun _ => true) id).filter fun e =>
          e.capability == capability) = [] then []
      else [.of capability ((endpointRows cat db (fun _ => true) id).filter fun e =>
        e.capability == capability)] := by
  have hsel := Sql.groupBy_filter (fun e : Effective => e.capability)
    (endpointRows cat db (fun _ => true) id) fun k => k == capability
  have hconst : Sql.groupBy (fun e : Effective => e.capability)
      ((endpointRows cat db (fun _ => true) id).filter fun e => e.capability == capability) =
        if ((endpointRows cat db (fun _ => true) id).filter fun e =>
          e.capability == capability) = [] then [] else [(capability, _)] :=
    Sql.groupBy_const fun e he => beq_iff_eq.mp (List.mem_filter.mp he).2
  have hrows : ((capabilityRows cat db id).filter fun r => r.capability == capability) =
      if ((endpointRows cat db (fun _ => true) id).filter fun e =>
          e.capability == capability) = [] then []
      else [.of capability ((endpointRows cat db (fun _ => true) id).filter fun e =>
        e.capability == capability)] := by
    rw [capabilityRows, List.filter_map]
    refine (congrArg _ (hsel.trans hconst)).trans ?_
    split <;> rfl
  rw [capabilityBreakdown, Sql.filter_orderBy, hrows]
  rw [hrows]
  split <;> simp

/-- An endpoint with rows exists. -/
theorem Db.ForeignKeys.endpoint_of_rows (hfk : db.ForeignKeys cat) {filters : Task → Bool}
    (h : endpointRows cat db filters id ≠ []) : ∃ me, cat.endpoints.get id = some me := by
  obtain ⟨e, he⟩ := List.exists_mem_of_ne_nil _ h
  obtain ⟨he, hsel⟩ := List.mem_filter.mp he
  simp only [Bool.and_eq_true, beq_iff_eq] at hsel
  obtain ⟨i, row, hrow, hid, -⟩ := item_of_effective he
  rw [← hsel.2, hid]
  exact hfk.endpoint i row hrow

theorem capability_row (hfk : db.ForeignKeys cat) {capability : String} (hc : capability ≠ "") :
    ((capabilityBreakdown collation cat db id).filter fun r => r.capability == capability).map
        (fun r => (r.meanScore, r.passRate, r.n)) =
      ((getLeaderboard collation cat db none (some capability)).filter fun r =>
        r.modelEndpointId == id).map fun r => (r.meanScore, r.passRate, r.n) := by
  rw [breakdown_filter, getLeaderboard, leaderboard_filter, endpointRow,
    ← endpointRows_capability hc]
  split
  · rfl
  · rename_i hne
    obtain ⟨me, hme⟩ := hfk.endpoint_of_rows hne
    rw [hme]
    rfl

theorem sum_capabilities (hfk : db.ForeignKeys cat) :
    ((capabilityBreakdown collation cat db id).map (·.n)).sum =
      (((getLeaderboard collation cat db none none).filter fun r =>
        r.modelEndpointId == id).map (·.n)).sum := by
  have hrows : ((capabilityRows cat db id).map (·.n)).sum =
      (endpointRows cat db (fun _ => true) id).length := by
    rw [capabilityRows, List.map_map]
    exact Sql.sum_length_groupBy _ _
  rw [capabilityBreakdown, ((Sql.orderBy_perm _ _).map _).sum_eq, hrows, getLeaderboard,
    taskFilters_none, leaderboard_filter, endpointRow]
  split
  · rename_i hnil
    rw [hnil]
    rfl
  · rename_i hne
    obtain ⟨me, hme⟩ := hfk.endpoint_of_rows hne
    simp [hme, LeaderboardRow.of]

end Capabilities

/-! ## 4. History -/

section History

variable {cat : Catalog} {db : Db} {collation : String → String → Bool} {name : String}

/-- The scored rows of the endpoints of a name. -/
def namedRows (cat : Catalog) (db : Db) (name : String) :
    List (Effective × EndpointId × ModelEndpoint) :=
  (scoredRows cat db fun _ => true).filter fun x => x.2.2.name == name

/-- The join with the runs neither loses a row nor doubles one. -/
theorem length_historyScored (hfk : db.ForeignKeys cat) :
    (historyScored cat db name).length = (namedRows cat db name).length := by
  have hone : ∀ x ∈ joinEndpoints cat (effective cat db fun _ => true),
      (db.runs.rows.countP fun er => er.1 == x.1.evalRunId) = 1 := by
    intro x hx
    obtain ⟨i, row, hrow, -, hrun⟩ := item_of_effective (Sql.mem_of_mem_join hx)
    obtain ⟨run, hget⟩ := hfk.run i row hrow
    exact Table.countP_key_eq_one (hrun ▸ hget)
  have hfst := Sql.map_fst_join hone
  calc (historyScored cat db name).length
      = ((historyScored cat db name).map Prod.fst).length := by rw [List.length_map]
    _ = ((joinEndpoints cat (effective cat db fun _ => true)).filter fun x =>
          x.1.score.isSome && x.2.2.name == name).length := by
        rw [← hfst, List.filter_map]
        rfl
    _ = (namedRows cat db name).length := by
        rw [namedRows, scoredRows, List.filter_filter]
        congr 1
        exact List.filter_congr fun x _ => Bool.and_comm _ _

theorem sum_history (hfk : db.ForeignKeys cat) :
    ((history collation cat db name).map (·.n)).sum = (namedRows cat db name).length := by
  have hrows : ((historyPoints cat db name).map (·.n)).sum =
      (historyScored cat db name).length := by
    rw [historyPoints, List.map_map]
    exact Sql.sum_length_groupBy _ _
  rw [history, ((Sql.orderBy_perm _ _).map _).sum_eq, hrows, length_historyScored hfk]

theorem sum_named : (((getLeaderboard collation cat db none none).filter fun r =>
    r.name == name).map (·.n)).sum = (namedRows cat db name).length := by
  have hsel := Sql.groupBy_filter (fun x : Effective × EndpointId × ModelEndpoint =>
    (x.2.1, x.2.2.name)) (scoredRows cat db fun _ => true) fun k => k.2 == name
  have hn : ((leaderboardRows cat db fun _ => true).filter fun r => r.name == name).map (·.n) =
      (Sql.groupBy (fun x : Effective × EndpointId × ModelEndpoint => (x.2.1, x.2.2.name))
        (namedRows cat db name)).map fun g => g.2.length := by
    rw [leaderboardRows, List.filter_map, List.map_map]
    refine (congrArg (List.map _) hsel).trans (List.map_congr_left fun g _ => ?_)
    exact List.length_map _
  rw [getLeaderboard, leaderboard, taskFilters_none,
    (((Sql.orderBy_perm _ _).filter _).map _).sum_eq, hn, Sql.sum_length_groupBy]

end History

/-! ## 5. Agreement -/

/-- **The three views agree.**  The breakdown of an endpoint has a row for a capability exactly when
the leaderboard of that capability has one for the endpoint, with the same statistics; and the
counts of the breakdown, and those of the history of a name, add up to the leaderboard's. -/
theorem views_agree (collation : String → String → Bool) {cat : Catalog} {db : Db}
    (hfk : db.ForeignKeys cat) :
    (∀ id capability, capability ≠ "" →
      ((capabilityBreakdown collation cat db id).filter fun r => r.capability == capability).map
          (fun r => (r.meanScore, r.passRate, r.n)) =
        ((getLeaderboard collation cat db none (some capability)).filter fun r =>
          r.modelEndpointId == id).map fun r => (r.meanScore, r.passRate, r.n)) ∧
    (∀ id, ((capabilityBreakdown collation cat db id).map (·.n)).sum =
      (((getLeaderboard collation cat db none none).filter fun r =>
        r.modelEndpointId == id).map (·.n)).sum) ∧
    ∀ name, ((history collation cat db name).map (·.n)).sum =
      (((getLeaderboard collation cat db none none).filter fun r =>
        r.name == name).map (·.n)).sum := by
  refine ⟨fun id capability hc => capability_row hfk hc, fun id => sum_capabilities hfk,
    fun name => ?_⟩
  rw [sum_history hfk, sum_named]

/-- The board with a second deterministic grade for its first item. -/
def doubledDb : Db :=
  { boardDb with grades := boardGrade 0 .deterministic (some 200) :: boardDb.grades }

theorem doubledDb_items {i : ItemId} {row : RunItem} (h : doubledDb.items.get i = some row) :
    row = boardItem 50 ∨ row = boardItem 90 := by
  have hmem := (doubledDb.items.mem_rows_iff).mpr h
  simp only [doubledDb, boardDb, List.mem_cons, List.not_mem_nil, or_false, Prod.mk.injEq] at hmem
  exact hmem.imp And.right And.right

theorem doubledDb_foreignKeys : doubledDb.ForeignKeys boardCatalog where
  endpoint i row h := by
    rcases doubledDb_items h with rfl | rfl <;> exact ⟨_, rfl⟩
  run i row h := by
    rcases doubledDb_items h with rfl | rfl <;> exact ⟨_, rfl⟩

/-- The doubled row is counted in every view. -/
theorem views_agree_small :
    ((history (fun a b => decide (a ≤ b)) boardCatalog doubledDb "small").map (·.n)).sum = 3 ∧
      ((capabilityBreakdown (fun a b => decide (a ≤ b)) boardCatalog doubledDb 0).map
        (·.n)).sum = 3 := by
  obtain ⟨-, hcap, hname⟩ := views_agree (fun a b => decide (a ≤ b)) doubledDb_foreignKeys
  constructor
  · rw [hname, sum_named]
    decide
  · rw [hcap, getLeaderboard, leaderboard_filter]
    decide

end EvalHarness
