/-
# One replay for one dead letter

`replay_run_item` reads the item's status, updates the item under a guard, and publishes a
message whatever the guard said.  A request whose update finds the item still `dead_lettered`
has moved it to `queued` itself, and nobody else can do so before the item is a dead letter
again; `replay_once` draws the conclusion for runs all of whose requests are of this kind.
`replayed_twice` is a run with one that is not.
-/
import EvalHarness.Held
import Mathlib.Data.Fintype.Basic

namespace EvalHarness

open Lts

variable {σ η : Type} [DecidableEq σ] [DecidableEq η] {cfg : Config} {W W' : Session σ η}

/-! ## 1. The events -/

/-- The item for which a request publishes a message and answers 202. -/
def acknowledged (p : Session σ η × Stmt σ η) : Option ItemId :=
  match p.2 with
  | .whole (.handler h _) =>
    match p.1.world.handlers h with
    | some (.replayEnqueue i) => some i
    | _ => none
  | _ => none

/-- The item that becomes a dead letter. -/
def deadLettered (p : Session σ η × Stmt σ η) : Option ItemId :=
  match p.2 with
  | .whole (.exec s _) =>
    match p.1.world.workers s with
    | some ⟨i, .at _ (.markDeadLettered _)⟩ =>
      if p.1.world.statusOf i = some .deadLettered then none else some i
    | _ => none
  | _ => none

/-- The item whose guarded update is the next statement of a request. -/
def requeuing (p : Session σ η × Stmt σ η) : Option ItemId :=
  match p.2 with
  | .replay h =>
    match p.1.world.handlers h, p.1.replays h with
    | some (.replayCommit i _), none => some i
    | _, _ => none
  | _ => none

/-- The statement is the slot's. -/
def Stmt.isBy (h : η) : Stmt σ η → Bool
  | .replay h' => h' == h
  | .whole (.handler h' _) | .whole (.drop h') | .whole (.create h' ..) | .whole (.cancel h' _)
  | .whole (.replay h' _) => h' == h
  | _ => false

/-- The transaction of request `h` commits, and moves item `i` from `dead_lettered` to
`queued`. -/
def Requeued (cfg : Config) (h : η) (i : ItemId) (p : Session σ η × Stmt σ η) : Prop :=
  p.2 = .replay h ∧ p.1.world.statusOf i = some .deadLettered ∧
    ∃ W', stmt cfg p.1 p.2 = some W' ∧ W'.world.statusOf i = some .queued

/-- A request's update finds its item `dead_lettered`, and no item becomes a dead letter between
the commit of a replay and its message. -/
def Timely (W : Session σ η) (l : Stmt σ η) : Prop :=
  (∀ i ∈ requeuing (W, l), W.world.statusOf i = some .deadLettered) ∧
    ∀ i ∈ deadLettered (W, l), ∀ h, W.world.handlers h ≠ some (.replayEnqueue i)

instance [Fintype η] (W : Session σ η) (l : Stmt σ η) : Decidable (Timely W l) :=
  inferInstanceAs (Decidable ((∀ i ∈ requeuing (W, l), W.world.statusOf i = some .deadLettered) ∧
    ∀ i ∈ deadLettered (W, l), ∀ h, W.world.handlers h ≠ some (.replayEnqueue i)))

/-! ## 2. Who moves an item, and where requests come from -/

theorem handler_of_acknowledged {σ η : Type} {W : Session σ η} {l : Label σ η} {i : ItemId}
    (ha : acknowledged (W, .whole l) = some i) :
    ∃ h now, l = .handler h now ∧ W.world.handlers h = some (.replayEnqueue i) := by
  cases l with
  | handler h now =>
    simp only [acknowledged] at ha
    split at ha
    · rename_i j hx
      obtain rfl := Option.some.inj ha
      exact ⟨h, now, rfl, hx⟩
    · exact absurd ha (by simp)
  | _ => exact absurd ha (by simp [acknowledged])

/-- An item that is a dead letter after a whole transition was one before, or has just become
one. -/
theorem dead_of_whole {l : Label σ η} {w : World σ η} (hs : step cfg W.world l = some w)
    {i : ItemId} (h : w.statusOf i = some .deadLettered) :
    W.world.statusOf i = some .deadLettered ∨ deadLettered (W, .whole l) = some i := by
  obtain ⟨row', hrow', hst⟩ := Option.map_eq_some_iff.mp h
  cases hrow : W.world.store.db.items.get i with
  | none =>
    obtain ⟨_, _, _, _, _, -, -, -, _, rfl, -⟩ := step_item_new hs hrow' hrow
    exact absurd hst (by simp)
  | some row =>
    have hch := itemChange hs hrow hrow'
    cases hch with
    | keep => exact Or.inl (by simp [World.statusOf, hrow, hst])
    | markDeadLettered he =>
      by_cases hd : W.world.statusOf i = some .deadLettered
      · exact Or.inl hd
      · exact Or.inr (by simp [deadLettered, he, hd])
    | finalise => exact absurd hst (by simp [finalisedRow])
    | _ => exact absurd hst (by simp)

/-- A request that has a message to publish after a whole transition had it before. -/
theorem owing_of_whole {l : Label σ η} {w : World σ η} (hs : step cfg W.world l = some w)
    (hl : W.world.splits l = false) {h : η} {i : ItemId}
    (hx : w.handlers h = some (.replayEnqueue i)) :
    W.world.handlers h = some (.replayEnqueue i) ∧ (Stmt.whole l).isBy h = false := by
  cases step_request hs hx with
  | stayed hw hl' =>
    refine ⟨hw, ?_⟩
    have busy : ∀ {h'}, W.world.handlers h' = none → h' ≠ h := by
      rintro h' hidle rfl
      exact absurd (hidle.symm.trans hw) (by simp)
    cases step_cases hs with
    | createRefused hidle | cancelRefused hidle | replayRefused hidle | cancelling hidle
      | replaying hidle => simpa [Stmt.isBy] using busy hidle
    | created hc => simpa [Stmt.isBy] using busy hc.idle
    | @handled h' now =>
      have hne : h' ≠ h := fun hh => hl' now (hh ▸ rfl)
      simpa [Stmt.isBy] using hne
    | @dropped h' =>
      have hne : h' ≠ h := by
        rintro rfl
        exact absurd hx (by simp)
      simpa [Stmt.isBy] using hne
    | delivered | redelivered | executed | died => rfl
  | created hc hx => exact absurd hx (by simp)
  | cancelling _ _ hx => exact absurd hx (by simp)
  | replaying _ _ hx => exact absurd hx (by simp)
  | @moved now x hw hn =>
    cases stepHandler_next hn with
    | commit => exact absurd hl (by simp [World.splits, hw])

/-- The commit of `o` moves the items it holds, and no other. -/
theorem Transacting.statusOf_commit (hT : Transacting cfg W) {o : Party σ η} {w' : World σ η}
    (hc : CommitOf W o w') (i : ItemId) :
    w'.statusOf i = W.world.statusOf i ∨
      (∃ row, W.items.get i = some (o, row)) ∧ W.world.statusOf i = some .deadLettered ∧
        w'.statusOf i = some .queued := by
  cases hrow : W.world.store.db.items.get i with
  | none =>
    refine Or.inl ?_
    cases hrow' : (W.committed o).items.get i with
    | none => simp [World.statusOf, hc.db, hrow, hrow']
    | some row' =>
      obtain ⟨row, h⟩ := Session.get_of_committed.1 hrow'
      exact absurd (hrow.symm.trans h) (by simp)
  | some row =>
    obtain ⟨row', hrow', hcase⟩ := hT.committed_item o hrow
    rcases hcase with ⟨rfl, -⟩ | ⟨hown, hst, rfl⟩
    · exact Or.inl (by simp [World.statusOf, hc.db, hrow, hrow'])
    · exact Or.inr ⟨⟨_, hown⟩, by simp [World.statusOf, hrow, hst],
        by simp [World.statusOf, hc.db, hrow']⟩

/-! ## 3. The invariant -/

/-- How many messages replays have published for item `i` since it last became a dead letter. -/
def acks (i : ItemId) (tr : List (Session σ η × Stmt σ η)) : Nat :=
  sinceLast (fun p => deadLettered p == some i) (fun p => acknowledged p == some i) tr

/-- What holds after the statements `tr` of a timely run. -/
structure ReplayInv (cfg : Config) (tr : List (Session σ η × Stmt σ η)) (W : Session σ η) :
    Prop where
  transacting : Transacting cfg W
  /-- A replay that has begun its transaction holds its item. -/
  held : ∀ h i r, W.world.handlers h = some (.replayCommit i r) → W.replays h ≠ none →
    ∃ row, W.items.get i = some (.inr h, row)
  /-- A replay that has still to publish has moved its item. -/
  moved : ∀ h i, W.world.handlers h = some (.replayEnqueue i) →
    ∃ a p b, tr = a ++ p :: b ∧ Requeued cfg h i p ∧ ∀ q ∈ b, q.2.isBy h = false
  alive : ∀ h i, W.world.handlers h = some (.replayEnqueue i) →
    W.world.statusOf i ≠ some .deadLettered
  one : ∀ h h' i, W.world.handlers h = some (.replayEnqueue i) →
    W.world.handlers h' = some (.replayEnqueue i) → h = h'
  unspent : ∀ i, W.world.statusOf i = some .deadLettered ∨
    (∃ h, W.world.handlers h = some (.replayEnqueue i)) → acks i tr = 0
  spent : ∀ i, acks i tr ≤ 1

theorem acks_snoc {σ η : Type} {W : Session σ η}
    {i : ItemId} {tr : List (Session σ η × Stmt σ η)} {l : Stmt σ η}
    (hd : deadLettered (W, l) ≠ some i) (ha : acknowledged (W, l) ≠ some i) :
    acks i (tr ++ [(W, l)]) = acks i tr := by
  simp [acks, sinceLast_snoc, hd, ha]

/-- A log with one more entry, not the slot's own, still shows the move. -/
theorem moved_snoc {h : η} {i : ItemId} {tr : List (Session σ η × Stmt σ η)} {l : Stmt σ η}
    (hm : ∃ a p b, tr = a ++ p :: b ∧ Requeued cfg h i p ∧ ∀ q ∈ b, q.2.isBy h = false)
    (hl : l.isBy h = false) :
    ∃ a p b, tr ++ [(W, l)] = a ++ p :: b ∧ Requeued cfg h i p ∧ ∀ q ∈ b, q.2.isBy h = false := by
  obtain ⟨a, p, b, rfl, hp, hb⟩ := hm
  refine ⟨a, p, b ++ [(W, l)], by simp, hp, fun q hq => ?_⟩
  simp only [List.mem_append, List.mem_singleton] at hq
  rcases hq with hq | rfl
  · exact hb q hq
  · exact hl

/-- Statements that leave the items and the requests alone. -/
theorem ReplayInv.quiet {tr : List (Session σ η × Stmt σ η)} {l : Stmt σ η}
    (hI : ReplayInv cfg tr W) (hs : stmt cfg W l = some W') (hl : ∀ l', l ≠ .whole l')
    (hh : W'.world.handlers = W.world.handlers)
    (hst : ∀ i, W'.world.statusOf i = W.world.statusOf i)
    (hby : ∀ h i, W.world.handlers h = some (.replayEnqueue i) → l.isBy h = false)
    (hheld : ∀ h i r, W.world.handlers h = some (.replayCommit i r) → W'.replays h ≠ none →
      ∃ row, W'.items.get i = some (.inr h, row)) :
    ReplayInv cfg (tr ++ [(W, l)]) W' := by
  have hacks : ∀ i, acks i (tr ++ [(W, l)]) = acks i tr := by
    intro i
    cases l with
    | whole l => exact absurd rfl (hl l)
    | _ => exact acks_snoc (by simp [deadLettered]) (by simp [acknowledged])
  exact
  { transacting := transacting_stmt hI.transacting hs
    held := by rw [hh]; exact hheld
    moved := by
      rw [hh]
      exact fun h i hx => moved_snoc (hI.moved h i hx) (hby h i hx)
    alive := by
      intro h i hx
      rw [hh] at hx
      rw [hst]
      exact hI.alive h i hx
    one := by rw [hh]; exact hI.one
    unspent := by
      intro i hi
      rw [hst, hh] at hi
      rw [hacks]
      exact hI.unspent i hi
    spent := by
      intro i
      rw [hacks]
      exact hI.spent i }

/-- The first update of a request that finds its item `dead_lettered` holds the item. -/
theorem ReplayInv.requeue {tr : List (Session σ η × Stmt σ η)} (hI : ReplayInv cfg tr W) {h : η}
    {rid : ItemId} {r : RunId} {items : Pending (Party σ η) ItemId RunItem}
    (hx : W.world.handlers h = some (.replayCommit rid r)) (ht : W.replays h = none)
    (hu : W.items.update W.world.store.db.items (.inr h) rid
      (fun row => row.status == .deadLettered)
      (fun row => { row with status := .queued, error := none }) = some items)
    (hok : Timely W (.replay h)) {h' : η} {i : ItemId} {r' : RunId}
    (hx' : W.world.handlers h' = some (.replayCommit i r'))
    (ht' : Function.update W.replays h (some .updateRun) h' ≠ none) :
    ∃ row, items.get i = some (.inr h', row) := by
  have hdead : W.world.statusOf rid = some .deadLettered :=
    hok.1 rid (by simp [requeuing, hx, ht])
  by_cases hh : h' = h
  · subst hh
    obtain ⟨rfl, rfl⟩ := Handler.replayCommit.inj (Option.some.inj (hx.symm.trans hx'))
    rcases Pending.update_eq_some hu with ⟨rfl, hmiss⟩ | ⟨row, -, -, -, rfl⟩
    · -- the update cannot miss
      exfalso
      obtain ⟨row, hrow, hst⟩ := Option.map_eq_some_iff.mp hdead
      rw [Pending.sees_committed] at hmiss
      · simpa [hst] using hmiss row hrow
      · intro row₁ hown
        obtain ⟨h₁, _, _, ho, -, ht₁, -⟩ := hI.transacting.item rid _ _ hown
        obtain rfl := Sum.inr.inj ho
        exact ht₁ ht
    · exact ⟨_, (Table.get_put ..).trans (if_pos rfl)⟩
  · obtain ⟨row', hi⟩ := hI.held h' i r' hx' (by simpa [Function.update_of_ne hh] using ht')
    exact ⟨row', Pending.get_update_of_ne hu (fun e => hh (Sum.inr.inj e)) hi⟩

theorem ReplayInv.whole {tr : List (Session σ η × Stmt σ η)} (hI : ReplayInv cfg tr W)
    {l : Label σ η} {w : World σ η} (hs : stmt cfg W (.whole l) = some W')
    (hstep : step cfg W.world l = some w) (hl : W.world.splits l = false)
    (hW : W' = { W with world := w }.rollback l) (hok : Timely W (.whole l)) :
    ReplayInv cfg (tr ++ [(W, .whole l)]) W' := by
  have hworld : W'.world = w := by rw [hW, Session.rollback_world]
  have hown : ∀ h i, w.handlers h = some (.replayEnqueue i) →
      W.world.handlers h = some (.replayEnqueue i) ∧ (Stmt.whole l).isBy h = false :=
    fun h i hx => owing_of_whole hstep hl hx
  -- a message is published for an item that is no dead letter, and by its only request
  have hack : ∀ i, acknowledged (W, .whole l) = some i →
      (∀ h, w.handlers h ≠ some (.replayEnqueue i)) ∧ acks i tr = 0 ∧
        W.world.statusOf i ≠ some .deadLettered := by
    intro i ha
    obtain ⟨h, now, rfl, hx⟩ := handler_of_acknowledged ha
    refine ⟨fun h' hx' => ?_, hI.unspent i (Or.inr ⟨h, hx⟩), hI.alive h i hx⟩
    obtain ⟨hx'', hby⟩ := hown h' i hx'
    obtain rfl := hI.one h h' i hx hx''
    simp [Stmt.isBy] at hby
  have hdead : ∀ i, w.statusOf i = some .deadLettered →
      W.world.statusOf i = some .deadLettered ∨ deadLettered (W, .whole l) = some i :=
    fun i hi => dead_of_whole hstep hi
  exact
  { transacting := transacting_stmt hI.transacting hs
    held := by
      intro h i r hx ht
      rw [hworld] at hx
      rw [hW] at ht ⊢
      have hd := Session.drop_of_replays ht
      rw [Session.rollback_replays hd] at ht
      obtain ⟨j, r', hx₀⟩ := hI.transacting.replays h ht
      obtain ⟨rfl, rfl⟩ := Handler.replayCommit.inj
        (Option.some.inj ((handler_stays hstep hl hx₀ hd).symm.trans hx))
      obtain ⟨row, hi⟩ := hI.held h j r' hx₀ ht
      exact ⟨row, (Session.rollback_keeps hd).1 hi⟩
    moved := by
      intro h i hx
      rw [hworld] at hx
      obtain ⟨hx, hby⟩ := hown h i hx
      exact moved_snoc (hI.moved h i hx) hby
    alive := by
      intro h i hx hst
      rw [hworld] at hx hst
      obtain ⟨hx, -⟩ := hown h i hx
      rcases hdead i hst with hst | hd
      · exact hI.alive h i hx hst
      · exact hok.2 i (by simp [hd]) h hx
    one := by
      intro h h' i hx hx'
      rw [hworld] at hx hx'
      exact hI.one h h' i (hown h i hx).1 (hown h' i hx').1
    unspent := by
      intro i hi
      rw [hworld] at hi
      by_cases hd : deadLettered (W, .whole l) = some i
      · simp [acks, sinceLast_snoc, hd]
      · have hold : W.world.statusOf i = some .deadLettered ∨
            ∃ h, W.world.handlers h = some (.replayEnqueue i) := by
          rcases hi with hi | ⟨h, hx⟩
          · exact Or.inl ((hdead i hi).resolve_right hd)
          · exact Or.inr ⟨h, (hown h i hx).1⟩
        have ha : acknowledged (W, .whole l) ≠ some i := by
          intro ha
          obtain ⟨hnone, -, halive⟩ := hack i ha
          rcases hi with hi | ⟨h, hx⟩
          · exact halive ((hdead i hi).resolve_right hd)
          · exact hnone h hx
        rw [acks_snoc hd ha]
        exact hI.unspent i hold
    spent := by
      intro i
      by_cases hd : deadLettered (W, .whole l) = some i
      · simp [acks, sinceLast_snoc, hd]
      by_cases ha : acknowledged (W, .whole l) = some i
      · have h0 : sinceLast _ _ tr = 0 := (hack i ha).2.1
        simp [acks, sinceLast_snoc, hd, ha, h0]
      · rw [acks_snoc hd ha]
        exact hI.spent i }

/-- What the commit of a replay by request `h` does to its item, and to the requests. -/
structure ReplayCommitted (W W' : Session σ η) (h : η) (rid : ItemId) : Prop where
  /-- Until then the item is a dead letter, for which nobody has a message to publish. -/
  dead : W.world.statusOf rid = some .deadLettered
  free : ∀ h', W.world.handlers h' ≠ some (.replayEnqueue rid)
  queued : W'.world.statusOf rid = some .queued
  others : ∀ i, i ≠ rid → W'.world.statusOf i = W.world.statusOf i
  /-- The request is the only one that has more to publish than before. -/
  handlers : ∀ h' i, W'.world.handlers h' = some (.replayEnqueue i) →
    h' = h ∧ i = rid ∨ h' ≠ h ∧ W.world.handlers h' = some (.replayEnqueue i)

theorem ReplayInv.replayCommitted {tr : List (Session σ η × Stmt σ η)} (hI : ReplayInv cfg tr W)
    {h : η} {rid : ItemId} {r : RunId}
    (hx : W.world.handlers h = some (.replayCommit rid r)) (ht : W.replays h = some .commit)
    (hW : W' = { W with
      world := { W.world with
        store := { W.world.store with db := W.committed (.inr h) } }.setHandler h
          (some (.replayEnqueue rid)) }.close (.inr h)) :
    ReplayCommitted W W' h rid := by
  subst hW
  -- the request holds its item, so the row it will commit is the one it has moved
  obtain ⟨row, hi⟩ := hI.held h rid r hx (by simp [ht])
  obtain ⟨_, _, row₀, -, -, -, hrow₀, hst₀, -⟩ := hI.transacting.item rid _ _ hi
  have hdead : W.world.statusOf rid = some .deadLettered := by simp [World.statusOf, hrow₀, hst₀]
  refine ⟨hdead, fun h' hx' => hI.alive h' rid hx' hdead, ?_, fun i hne => ?_, fun h' i hx' => ?_⟩
  · obtain ⟨row', hrow', ⟨-, hno⟩ | ⟨-, -, rfl⟩⟩ := hI.transacting.committed_item (.inr h) hrow₀
    · exact absurd hi (hno row)
    · simp [World.statusOf, Session.close, hrow']
  · -- it holds no other item
    rcases hI.transacting.statusOf_commit (commitOf_replay hx) i with h' | ⟨⟨row', hi'⟩, -, -⟩
    · exact h'
    · obtain ⟨h', _, _, ho, hx', -⟩ := hI.transacting.item i _ _ hi'
      obtain rfl := Sum.inr.inj ho
      exact absurd (Handler.replayCommit.inj (Option.some.inj (hx'.symm.trans hx))).1 hne
  · by_cases hh : h' = h
    · subst hh
      exact Or.inl ⟨rfl, by simpa [Session.close, eq_comm] using hx'⟩
    · exact Or.inr ⟨hh, by simpa [Session.close, Function.update_of_ne hh] using hx'⟩

/-- No two requests have a message for one item: for `rid` it is the one that has committed. -/
theorem ReplayCommitted.one {tr : List (Session σ η × Stmt σ η)} {h : η} {rid : ItemId}
    (hc : ReplayCommitted W W' h rid) (hI : ReplayInv cfg tr W) {h₁ h₂ : η} {i : ItemId}
    (hx₁ : W'.world.handlers h₁ = some (.replayEnqueue i))
    (hx₂ : W'.world.handlers h₂ = some (.replayEnqueue i)) : h₁ = h₂ := by
  rcases hc.handlers h₁ i hx₁ with ⟨rfl, rfl⟩ | ⟨-, hx₁⟩
  · rcases hc.handlers h₂ i hx₂ with ⟨rfl, -⟩ | ⟨-, hx₂⟩
    · rfl
    · exact absurd hx₂ (hc.free h₂)
  · rcases hc.handlers h₂ i hx₂ with ⟨rfl, rfl⟩ | ⟨-, hx₂⟩
    · exact absurd hx₁ (hc.free h₁)
    · exact hI.one h₁ h₂ i hx₁ hx₂

theorem ReplayCommitted.alive {tr : List (Session σ η × Stmt σ η)} {h : η} {rid : ItemId}
    (hc : ReplayCommitted W W' h rid) (hI : ReplayInv cfg tr W) {h' : η} {i : ItemId}
    (hx' : W'.world.handlers h' = some (.replayEnqueue i)) :
    W'.world.statusOf i ≠ some .deadLettered := by
  rcases hc.handlers h' i hx' with ⟨rfl, rfl⟩ | ⟨-, hx'⟩
  · simp [hc.queued]
  · have hne : i ≠ rid := fun e => hc.free h' (e ▸ hx')
    rw [hc.others i hne]
    exact hI.alive h' i hx'

/-- The commit publishes nothing: what had no message since its last dead letter has none still. -/
theorem ReplayCommitted.unspent {tr : List (Session σ η × Stmt σ η)} {h : η} {rid : ItemId}
    (hc : ReplayCommitted W W' h rid) (hI : ReplayInv cfg tr W) {i : ItemId}
    (hi : W'.world.statusOf i = some .deadLettered ∨
      ∃ h', W'.world.handlers h' = some (.replayEnqueue i)) : acks i tr = 0 := by
  by_cases hne : i = rid
  · subst hne
    exact hI.unspent i (Or.inl hc.dead)
  · rw [hc.others i hne] at hi
    refine hI.unspent i (hi.imp id ?_)
    rintro ⟨h', hx'⟩
    rcases hc.handlers h' i hx' with ⟨-, e⟩ | ⟨-, hx'⟩
    · exact absurd e hne
    · exact ⟨h', hx'⟩

/-- A request whose replay commits has moved its item. -/
theorem ReplayInv.replayed {tr : List (Session σ η × Stmt σ η)} (hI : ReplayInv cfg tr W)
    {h : η} {rid : ItemId} {r : RunId} (hs : stmt cfg W (.replay h) = some W')
    (hx : W.world.handlers h = some (.replayCommit rid r)) (ht : W.replays h = some .commit)
    (hW : W' = { W with
      world := { W.world with
        store := { W.world.store with db := W.committed (.inr h) } }.setHandler h
          (some (.replayEnqueue rid)) }.close (.inr h)) :
    ReplayInv cfg (tr ++ [(W, .replay h)]) W' := by
  have hc := hI.replayCommitted hx ht hW
  have hacks : ∀ i, acks i (tr ++ [(W, .replay h)]) = acks i tr :=
    fun i => acks_snoc (by simp [deadLettered]) (by simp [acknowledged])
  exact
  { transacting := transacting_stmt hI.transacting hs
    held := by
      intro h' i r' hx' ht'
      subst hW
      have hh : h' ≠ h := by
        rintro rfl
        simp [Session.close] at ht'
      obtain ⟨row', hi'⟩ := hI.held h' i r'
        (by simpa [Session.close, Function.update_of_ne hh] using hx')
        (by simpa [Session.close, Ne.symm hh] using ht')
      exact ⟨row', Pending.get_release.mpr ⟨hi', fun e => hh (Sum.inr.inj e)⟩⟩
    moved := by
      intro h' i hx'
      rcases hc.handlers h' i hx' with ⟨rfl, rfl⟩ | ⟨hh, hx'⟩
      · exact ⟨tr, _, [], rfl, ⟨rfl, hc.dead, W', hs, hc.queued⟩, by simp⟩
      · exact moved_snoc (hI.moved h' i hx') (by simpa [Stmt.isBy] using Ne.symm hh)
    alive := fun _ _ => hc.alive hI
    one := fun _ _ _ => hc.one hI
    unspent := by
      intro i hi
      rw [hacks]
      exact hc.unspent hI hi
    spent := by
      intro i
      rw [hacks]
      exact hI.spent i }

theorem replayInv_stmt {tr : List (Session σ η × Stmt σ η)} {l : Stmt σ η}
    (hI : ReplayInv cfg tr W) (hok : Timely W l) (hs : stmt cfg W l = some W') :
    ReplayInv cfg (tr ++ [(W, l)]) W' := by
  -- a request that is at a statement has nothing to publish
  have hby : ∀ {h rid r}, W.world.handlers h = some (.replayCommit rid r) →
      ∀ h' i, W.world.handlers h' = some (.replayEnqueue i) →
        (Stmt.replay h : Stmt σ η).isBy h' = false := by
    intro h rid r hx h' i hx'
    have hne : h ≠ h' := by
      rintro rfl
      exact absurd (hx.symm.trans hx') (by simp)
    simpa [Stmt.isBy] using hne
  cases stmt_cases hs with
  | whole hstep hl _ hW => exact hI.whole hs hstep hl hW hok
  | requeue hx ht hu hW =>
    subst hW
    exact hI.quiet hs (by simp) rfl (fun _ => rfl) (hby hx)
      fun _ _ _ hx' ht' => hI.requeue hx ht hu hok hx' ht'
  | @reopen h rid r runs hx ht hu hW =>
    subst hW
    refine hI.quiet hs (by simp) rfl (fun _ => rfl) (hby hx) fun h' i r' hx' ht' => ?_
    by_cases hh : h' = h
    · subst hh
      exact hI.held h' i r' hx' (by simp [ht])
    · exact hI.held h' i r' hx' (by simpa [Function.update_of_ne hh] using ht')
  | replayed hx ht hW => exact hI.replayed hs hx ht hW
  | counted _ _ _ hW | counting _ _ _ hW | failing _ _ _ hW | completing _ _ _ hW =>
    subst hW
    exact hI.quiet hs (by simp) rfl (fun _ => rfl) (fun _ _ _ => rfl) hI.held
  | @checked s now rid v ret he ht hW =>
    subst hW
    refine hI.quiet hs (by simp) rfl (fun i => ?_) (fun _ _ _ => rfl) fun h i r hx ht' => ?_
    · rcases hI.transacting.statusOf_commit commitOf_check i with h | ⟨⟨row, hi⟩, -, -⟩
      · exact h
      · obtain ⟨_, _, _, ho, -⟩ := hI.transacting.item i _ _ hi
        exact absurd ho (by simp)
    · obtain ⟨row, hi⟩ := hI.held h i r hx (by simpa [Session.close] using ht')
      exact ⟨row, Pending.get_release.mpr ⟨hi, by simp⟩⟩

theorem replayInv_init : ReplayInv cfg [] (Session.init : Session σ η) where
  transacting := transacting_init
  held h i r hx := absurd hx (by simp [Session.init, Session.between, World.init])
  moved h i hx := absurd hx (by simp [Session.init, Session.between, World.init])
  alive h i hx := absurd hx (by simp [Session.init, Session.between, World.init])
  one h h' i hx := absurd hx (by simp [Session.init, Session.between, World.init])
  unspent _ _ := rfl
  spent _ := Nat.zero_le 1

theorem replayInv_of_run {tr : List (Session σ η × Stmt σ η)}
    (h : Run (stmt cfg) Session.init tr W) (hok : Along Timely tr) : ReplayInv cfg tr W :=
  h.induct (J := ReplayInv cfg) replayInv_init (fun _ _ _ _ hI hok hs => replayInv_stmt hI hok hs)
    hok.follows

/-! ## 4. One replay for one dead letter -/

/-- **Replay once.**  In a timely run every request that publishes a message for an item has
itself moved the item from `dead_lettered` to `queued`, and in a stretch of the run in which the
item does not become a dead letter at most one request does. -/
theorem replay_once {tr : List (Session σ η × Stmt σ η)} (h : Run (stmt cfg) Session.init tr W)
    (hok : Along Timely tr) (i : ItemId) :
    (∀ a p b, tr = a ++ p :: b → acknowledged p = some i →
        ∃ h, p.2.isBy h = true ∧ ∃ a₁ q a₂, a = a₁ ++ q :: a₂ ∧ Requeued cfg h i q ∧
          ∀ x ∈ a₂, x.2.isBy h = false) ∧
      ∀ a b c, tr = a ++ b ++ c → (∀ p ∈ b, deadLettered p ≠ some i) →
        b.countP (fun p => acknowledged p == some i) ≤ 1 := by
  constructor
  · rintro a ⟨U, l⟩ b rfl hack
    have hI := replayInv_of_run h.at.1 (Along.append.mp hok).1
    cases l with
    | whole l =>
      obtain ⟨h', now, rfl, hx⟩ := handler_of_acknowledged hack
      exact ⟨h', by simp [Stmt.isBy], hI.moved h' i hx⟩
    | _ => exact absurd hack (by simp [acknowledged])
  · rintro a b c rfl hb
    obtain ⟨U, hpre, -⟩ := h.split
    have hI := replayInv_of_run hpre (Along.append.mp hok).1
    exact countP_le_of_sinceLast (hI.spent i) fun p hp => by simpa using hb p hp

/-- An item that request `h` creates becomes a dead letter, and its run is failed, statement by
statement. -/
def deadLetterSchedule (h : Fin 2) : List (Stmt Nat (Fin 2)) :=
  (launch h 1 ++ [.deliver 0 0] ++ execs 0 declines 5 : List (Label Nat (Fin 2))).map .whole ++
    List.replicate 4 (.check 0 0)

/-- A request for a replay of item 0 runs to its end. -/
def replaySchedule (h : Fin 2) : List (Stmt Nat (Fin 2)) :=
  List.replicate 3 (.replay h) ++ [.whole (.handler h 0)]

theorem replay_once_small : ∃ (tr : List (Session Nat (Fin 2) × Stmt Nat (Fin 2)))
    (W : Session Nat (Fin 2)),
    Run (stmt (smallConfig 1 1 5000000)) Session.init tr W ∧ W.world.store.queue = [0] ∧
      ∀ a b c, tr = a ++ b ++ c → (∀ p ∈ b, deadLettered p ≠ some 0) →
        b.countP (fun p => acknowledged p == some 0) ≤ 1 := by
  obtain ⟨tr, W, hrun, hok, htest⟩ := exists_run_of_play
    (stmt (smallConfig 1 1 5000000)) (Session.init : Session Nat (Fin 2))
    (fun W l => decide (Timely W l))
    (deadLetterSchedule 0 ++ [.whole (.replay 0 0), .whole (.handler 0 0)] ++ replaySchedule 0)
    (fun _ W => W.world.store.queue == [0])
    (by decide)
  have hok : Along Timely tr := hok.mono fun _ _ h => of_decide_eq_true h
  exact ⟨tr, W, hrun, by simpa using htest, (replay_once hrun hok 0).2⟩

/-- Two requests read `dead_lettered`; the second one's update finds the item `queued`, and it
publishes a second message. -/
theorem replayed_twice : ¬ ∀ (tr : List (Session Nat (Fin 2) × Stmt Nat (Fin 2)))
    (W : Session Nat (Fin 2)), Run (stmt (smallConfig 1 1 5000000)) Session.init tr W →
    ∀ i a b c, tr = a ++ b ++ c → (∀ p ∈ b, deadLettered p ≠ some i) →
      b.countP (fun p => acknowledged p == some i) ≤ 1 := by
  intro hall
  obtain ⟨tr, W, hrun, -, htest⟩ := exists_run_of_play
    (stmt (smallConfig 1 1 5000000)) (Session.init : Session Nat (Fin 2)) (fun _ _ => true)
    (deadLetterSchedule 0 ++ [.whole (.replay 0 0), .whole (.replay 1 0), .whole (.handler 0 0),
      .whole (.handler 1 0)] ++ replaySchedule 0 ++ replaySchedule 1)
    (fun tr _ => (tr.drop 12).all (fun p => deadLettered p != some 0) &&
      (tr.drop 12).countP (fun p => acknowledged p == some 0) == 2)
    (by decide)
  simp only [Bool.and_eq_true, List.all_eq_true, bne_iff_ne, beq_iff_eq] at htest
  have hle := hall tr W hrun 0 (tr.take 12) (tr.drop 12) []
    (by rw [List.append_nil, List.take_append_drop]) htest.1
  omega

end EvalHarness
