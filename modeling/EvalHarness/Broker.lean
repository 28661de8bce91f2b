/-
# When the broker refuses a message

`create_eval_run` and `replay_run_item` commit their rows first and publish afterwards, one
message at a time.  When a publication raises, the rows stay: the items from there on are `queued`
and have no message, and nothing looks for such items later.  Replay, the one operation that
publishes a message for an existing item, refuses them, because they are `queued` and not
`dead_lettered`.

`publishing_calls` says exactly what a call leaves behind; `queued_without_message` is the call of
`create_eval_run` that leaves an item nobody will ever execute.
-/
import EvalHarness.Once
import Mathlib.Data.Fintype.Basic

namespace EvalHarness

open Lts

variable {σ η : Type} [DecidableEq σ] [DecidableEq η] {cfg : Config} {w w' : World σ η}

/-! ## 1. One call -/

/-- The transition is the transaction behind which the request in slot `h` publishes. -/
def Commits (w : World σ η) (h : η) (l : Label σ η) : Prop :=
  (∃ payload r itemIds now, l = .create h payload r itemIds now) ∨
    ∃ now i r, l = .handler h now ∧ w.handlers h = some (.replayCommit i r)

/-- The message the request in slot `h` publishes. -/
def publishedBy (h : η) (p : World σ η × Label σ η) : Option ItemId :=
  match p.2 with
  | .handler h' _ => if h' = h then (p.1.handlers h).bind Handler.publishes else none
  | _ => none

/-- The request after its first `k` publications. -/
def Handler.skip (k : Nat) : Handler → Handler
  | .createEnqueue pending => .createEnqueue (pending.drop k)
  | x => x

theorem Handler.skip_owes {x : Handler} {k : Nat} (h : k < x.owes.length) :
    (x.skip k).owes = x.owes.drop k := by
  cases x with
  | createEnqueue pending => rfl
  | replayEnqueue i =>
    obtain rfl : k = 0 := by simpa [Handler.owes] using h
    rfl
  | _ => exact absurd h (by simp [Handler.owes])

/-- The first `k` items of a call that began as `x` have their message; the call goes on, or it is
over, and over before its last item only because it was broken off. -/
structure Published (h : η) (x : Handler) (b : List (World σ η × Label σ η)) (w : World σ η)
    (k : Nat) : Prop where
  le : k ≤ x.owes.length
  log : b.filterMap (publishedBy h) = x.owes.take k
  sent : ∀ i ∈ x.owes.take k, i ∈ w.store.sent
  state : k < x.owes.length ∧ w.handlers h = some (x.skip k) ∨ w.handlers h = none ∧
    (k < x.owes.length → ∃ b₀ u, b = b₀ ++ [(u, .drop h)] ∧ u.handlers h = some (x.skip k))

/-- A step of a request that owes something publishes the first of it. -/
theorem stepHandler_of_owes (m : Backend) (now : Timestamp) {x : Handler} {k : Nat}
    (hk : k < x.owes.length) :
    (x.skip k).publishes = some x.owes[k] ∧
      x.owes[k] ∈ (stepHandler m now (x.skip k)).1.sent ∧
      (stepHandler m now (x.skip k)).2 =
        if k + 1 < x.owes.length then some (x.skip (k + 1)) else none := by
  cases x with
  | createEnqueue pending =>
    change k < pending.length at hk
    simp only [Handler.skip, Handler.owes, List.drop_eq_getElem_cons hk, Handler.publishes,
      stepHandler, enqueueRunItem, List.mem_append, List.mem_singleton, or_true, true_and,
      List.drop_eq_nil_iff]
    by_cases hlast : k + 1 < pending.length
    · have hmore : ¬ pending.length ≤ k + 1 := by omega
      simp [hlast, hmore]
    · have hdone : pending.length ≤ k + 1 := by omega
      simp [hlast, hdone]
  | replayEnqueue i =>
    obtain rfl : k = 0 := by simpa [Handler.owes] using hk
    simp [Handler.skip, Handler.owes, Handler.publishes, stepHandler, enqueueRunItem]
  | _ => exact absurd hk (by simp [Handler.owes])

theorem published_step {h : η} {x : Handler} {b : List (World σ η × Label σ η)} {k : Nat}
    {l : Label σ η} (hI : Published h x b w k) (hbusy : w.handlers h ≠ none)
    (hs : step cfg w l = some w') : ∃ k', Published h x (b ++ [(w, l)]) w' k' := by
  obtain ⟨hk, hx⟩ := hI.state.resolve_right fun hn => hbusy hn.1
  have hsent : ∀ i ∈ x.owes.take k, i ∈ w'.store.sent := fun i hi => step_sent hs (hI.sent i hi)
  have hlog : publishedBy h (w, l) = none →
      (b ++ [(w, l)]).filterMap (publishedBy h) = x.owes.take k := by
    intro hnone
    simp [List.filterMap_append, hI.log, hnone]
  by_cases hmine : ∃ now, l = .handler h now
  · -- the call's own step
    obtain ⟨now, rfl⟩ := hmine
    obtain ⟨y, hy, rfl⟩ := step_handler_eq hs
    obtain rfl := Option.some.inj (hx.symm.trans hy)
    obtain ⟨hpub, hin, hnext⟩ := stepHandler_of_owes w.store now hk
    have htake : x.owes.take (k + 1) = x.owes.take k ++ [x.owes[k]] := by
      rw [List.take_add_one, List.getElem?_eq_getElem hk]
      rfl
    refine ⟨k + 1, hk, ?_, ?_, ?_⟩
    · have hp : publishedBy h (w, .handler h now) = some x.owes[k] := by
        simp [publishedBy, hx, hpub]
      rw [List.filterMap_append, hI.log, htake]
      simp only [List.filterMap_cons, hp, List.filterMap_nil]
    · intro i hi
      rw [htake, List.mem_append, List.mem_singleton] at hi
      rcases hi with hi | rfl
      · exact hsent i hi
      · exact hin
    · by_cases hlast : k + 1 < x.owes.length
      · exact Or.inl ⟨hlast, by simp [hnext, hlast]⟩
      · exact Or.inr ⟨by simp [hnext, hlast], fun hlt => absurd hlt hlast⟩
  · have hnone : publishedBy h (w, l) = none := by
      cases l with
      | handler h' now =>
        have hne : h' ≠ h := fun hh => hmine ⟨now, by rw [hh]⟩
        simp [publishedBy, hne]
      | _ => rfl
    by_cases hdrop : l = .drop h
    · -- the broker refuses the next message
      subst hdrop
      refine ⟨k, hI.le, hlog hnone, hsent, Or.inr ⟨?_, fun _ => ⟨b, w, rfl, hx⟩⟩⟩
      cases step_cases hs with
      | dropped => simp
    · have hstay := step_request_stays hs hx (fun now hl => hmine ⟨now, hl⟩) hdrop
      exact ⟨k, hI.le, hlog hnone, hsent, Or.inl ⟨hk, hstay⟩⟩

/-- The transaction of a call makes it owe something. -/
theorem owes_of_commits {h : η} {l : Label σ η} (hc : Commits w h l)
    (hs : step cfg w l = some w') {x : Handler} (hx : w'.handlers h = some x) :
    0 < x.owes.length := by
  cases step_request hs hx with
  | stayed hw hl =>
    rcases hc with ⟨payload, r, itemIds, now, rfl⟩ | ⟨now, i, r, rfl, -⟩
    · simp [step, hw] at hs
    · exact absurd rfl (hl now)
  | @created payload r itemIds now hcr hx' =>
    subst hx'
    have hne : itemIds ≠ [] := fun hn => by simp [hcr.handlers, hn] at hx
    exact List.length_pos_of_ne_nil hne
  | moved hw hn =>
    rcases hc with ⟨payload, r, itemIds, now, hl⟩ | ⟨now, i, r, -, hr⟩
    · exact absurd hl (by simp)
    · obtain rfl := Option.some.inj (hw.symm.trans hr)
      obtain rfl := Option.some.inj hn
      simp [Handler.owes]
  | cancelling | replaying => rcases hc with ⟨_, _, _, _, h⟩ | ⟨_, _, _, h, -⟩ <;> cases h

theorem Handler.skip_zero (x : Handler) : x.skip 0 = x := by
  cases x <;> rfl

theorem published_of_run {h : η} {x : Handler} {b : List (World σ η × Label σ η)}
    (hx : w.handlers h = some x) (hpos : 0 < x.owes.length) (hb : Run (step cfg) w b w')
    (hcall : Along (fun u _ => u.handlers h ≠ none) b) : ∃ k, Published h x b w' k :=
  hb.induct (J := fun b u => ∃ k, Published h x b u k)
    ⟨0, Nat.zero_le _, rfl, by simp, Or.inl ⟨hpos, by rw [hx, x.skip_zero]⟩⟩
    (fun _ _ _ _ hI hok hs => by
      obtain ⟨k, hk⟩ := hI
      exact published_step hk hok hs) hcall.follows

/-! ## 2. Items without a message -/

/-- What is known of the items nobody has ever published a message for. -/
structure Unsent (w : World σ η) : Prop where
  status : ∀ i row, w.store.db.items.get i = some row → i ∉ w.store.sent →
    row.status = .queued ∨ row.status = .failed
  /-- A replay is about an item that has had its message. -/
  replays : ∀ h x i r, w.handlers h = some x → x.replays = some (i, r) → i ∈ w.store.sent
  requeued : ∀ h i, w.handlers h = some (.replayEnqueue i) → i ∈ w.store.sent
  /-- A creation publishes each of its items once, and nobody else does. -/
  nodup : ∀ h pending, w.handlers h = some (.createEnqueue pending) → pending.Nodup
  pending : ∀ h pending i, w.handlers h = some (.createEnqueue pending) → i ∈ pending →
    i ∉ w.store.sent
  one : ∀ h h' x x' i, w.handlers h = some x → w.handlers h' = some x' → i ∈ x.owes →
    i ∈ x'.owes → i ∉ w.store.sent → h = h'

theorem unsent_init {σ η : Type} : Unsent (World.init : World σ η) where
  status i row h := absurd h (by simp [World.init, Db.empty])
  replays h x i r hx := absurd hx (by simp [World.init])
  requeued h i hx := absurd hx (by simp [World.init])
  nodup h pending hx := absurd hx (by simp [World.init])
  pending h pending i hx := absurd hx (by simp [World.init])
  one h h' x x' i hx := absurd hx (by simp [World.init])

/-- What a creation has still to publish, behind one of its steps, is the tail of it. -/
theorem stepHandler_createEnqueue {m : Backend} {now : Timestamp} {x : Handler}
    {pending : List ItemId} (h : (stepHandler m now x).2 = some (.createEnqueue pending)) :
    ∃ j, x = .createEnqueue (j :: pending) := by
  cases stepHandler_next h with
  | @enqueue j => exact ⟨j, rfl⟩

theorem stepHandler_replayEnqueue {m : Backend} {now : Timestamp} {x : Handler} {i : ItemId}
    (h : (stepHandler m now x).2 = some (.replayEnqueue i)) : ∃ r, x = .replayCommit i r := by
  cases stepHandler_next h with
  | @commit _ r => exact ⟨r, rfl⟩

/-- An item that a creation adds was in no message and nobody's business. -/
theorem Sane.not_sent_created {σ η : Type} [DecidableEq η] {w w' : World σ η}
    (hS : Sane cfg w) {h : η} {payload : EvalRunCreate} {r : RunId}
    {itemIds : List ItemId} {now : Timestamp} (hc : Created cfg w h payload r itemIds now w')
    {i : ItemId} (hi : i ∈ itemIds) :
    i ∉ w.store.sent ∧ ∀ h' x, w.handlers h' = some x → i ∉ x.owes := by
  have hnone : ¬ (w.store.db.items.get i).isSome := by simp [hc.fresh.2.1 i hi]
  exact ⟨fun hsent => hnone (hS.sent i hsent), fun h' x hx hix => hnone (hS.owing h' x i hx hix)⟩

/-- Who owes a message for an item that never had one owed it before, or has just added it. -/
theorem owes_origin {l : Label σ η} (hI : Unsent w) (hs : step cfg w l = some w') {h : η}
    {x' : Handler} {i : ItemId} (hx' : w'.handlers h = some x') (hi : i ∈ x'.owes)
    (hsent : i ∉ w.store.sent) :
    (∃ x, w.handlers h = some x ∧ i ∈ x.owes) ∨
      ∃ payload r itemIds now, l = .create h payload r itemIds now ∧
        Created cfg w h payload r itemIds now w' ∧ i ∈ itemIds := by
  cases step_request hs hx' with
  | stayed hw _ => exact Or.inl ⟨x', hw, hi⟩
  | created hc hx =>
    subst hx
    exact Or.inr ⟨_, _, _, _, rfl, hc, hi⟩
  | cancelling _ _ hx | replaying _ _ hx =>
    subst hx
    exact absurd hi (by simp [Handler.owes])
  | moved hw hn =>
    rcases stepHandler_owes hn hi with hold | ⟨r, rfl⟩
    · exact Or.inl ⟨_, hw, hold⟩
    · exact absurd (hI.replays h _ i r hw rfl) hsent

/-- A first message that a handler owes is sent in a step only if the handler itself publishes it. -/
theorem Unsent.not_sent_step {l : Label σ η} (hI : Unsent w) (hs : step cfg w l = some w') {h : η}
    {x : Handler} {i : ItemId} (hx : w.handlers h = some x) (hi : i ∈ x.owes)
    (hold : i ∉ w.store.sent) (hpub : (∃ now, l = .handler h now) → x.publishes ≠ some i) :
    i ∉ w'.store.sent := by
  cases step_queue hs with
  | same _ _ hsent | taken _ _ hsent => rw [hsent]; exact hold
  | @published h₂ now x₂ j hx₂ hj _ hsent =>
    rw [hsent, List.mem_append, List.mem_singleton]
    rintro (h' | rfl)
    · exact hold h'
    · obtain rfl := hI.one h h₂ x x₂ i hx hx₂ hi (Handler.publishes_mem hj) hold
      obtain rfl := Option.some.inj (hx.symm.trans hx₂)
      exact hpub ⟨now, rfl⟩ hj

theorem unsent_step {l : Label σ η} (hS : Sane cfg w) (hI : Unsent w)
    (hs : step cfg w l = some w') : Unsent w' where
  status i row' hrow' hi := by
    have hold : i ∉ w.store.sent := fun h => hi (step_sent hs h)
    cases hrow : w.store.db.items.get i with
    | none =>
      obtain ⟨_, _, _, _, _, -, -, -, pair, rfl, -⟩ := step_item_new hs hrow' hrow
      exact Or.inl rfl
    | some row =>
      have hch := itemChange hs hrow hrow'
      have hidle : ∀ {s p}, w.workers s ≠ some ⟨i, p⟩ := fun h => hold (hS.known _ _ h)
      cases hch with
      | keep => exact hI.status i _ hrow hold
      | abort | cancel => exact Or.inr rfl
      | requeue hh _ => exact absurd (hI.replays _ _ i _ hh rfl) hold
      | markRunning hw | markFailed hw | markDeadLettered hw | markCancelled hw | finalise hw =>
        exact absurd hw hidle
  replays h x' i r hx' hk := by
    cases step_request hs hx' with
    | stayed hw _ => exact step_sent hs (hI.replays h x' i r hw hk)
    | created _ hx | cancelling _ _ hx => subst hx; exact absurd hk (by simp [Handler.replays])
    | replaying _ hc hx =>
      subst hx
      obtain ⟨rfl, rfl⟩ := Prod.mk.inj (Option.some.inj hk)
      obtain ⟨row, hrow, hd, -⟩ := replayReadItem_ok hc
      by_contra hi
      rcases hI.status _ row hrow (fun h => hi (step_sent hs h)) with h | h <;>
        exact absurd (hd.symm.trans h) (by simp)
    | moved hw hn => exact step_sent hs (hI.replays h _ i r hw (stepHandler_replays hn hk))
  requeued h i hx' := by
    cases step_request hs hx' with
    | stayed hw _ => exact step_sent hs (hI.requeued h i hw)
    | created _ hx | cancelling _ _ hx | replaying _ _ hx => exact absurd hx (by simp)
    | moved hw hn =>
      obtain ⟨r, rfl⟩ := stepHandler_replayEnqueue hn
      exact step_sent hs (hI.replays h _ i r hw rfl)
  nodup h pending hx' := by
    cases step_request hs hx' with
    | stayed hw _ => exact hI.nodup h pending hw
    | created hc hx =>
      obtain rfl := Handler.createEnqueue.inj hx
      exact hc.fresh.1
    | cancelling _ _ hx | replaying _ _ hx => exact absurd hx (by simp)
    | moved hw hn =>
      obtain ⟨j, rfl⟩ := stepHandler_createEnqueue hn
      exact (List.nodup_cons.mp (hI.nodup h _ hw)).2
  pending h pending i hx' hi := by
    cases step_request hs hx' with
    | stayed hw hl =>
      refine hI.not_sent_step hs hw hi (hI.pending h pending i hw hi) ?_
      rintro ⟨now, hh⟩
      exact absurd hh (hl now)
    | created hc hx =>
      obtain rfl := Handler.createEnqueue.inj hx
      rw [hc.sent]
      exact (hS.not_sent_created hc hi).1
    | cancelling _ _ hx | replaying _ _ hx => exact absurd hx (by simp)
    | moved hw hn =>
      obtain ⟨j, rfl⟩ := stepHandler_createEnqueue hn
      have hmem : i ∈ j :: pending := List.mem_cons_of_mem _ hi
      refine hI.not_sent_step hs hw hmem (hI.pending h _ i hw hmem) fun _ hpub => ?_
      obtain rfl := Option.some.inj hpub
      exact (List.nodup_cons.mp (hI.nodup h _ hw)).1 hi
  one h h' x x' i hx hx' hi hi' hsent := by
    have hold : i ∉ w.store.sent := fun h => hsent (step_sent hs h)
    rcases owes_origin hI hs hx hi hold with ⟨y, hy, hyi⟩ | ⟨_, _, _, _, hl, hc, hic⟩
    · rcases owes_origin hI hs hx' hi' hold with ⟨y', hy', hyi'⟩ | ⟨_, _, _, _, -, hc, hic⟩
      · exact hI.one h h' y y' i hy hy' hyi hyi' hold
      · exact absurd hyi ((hS.not_sent_created hc hic).2 h y hy)
    · rcases owes_origin hI hs hx' hi' hold with ⟨y', hy', hyi'⟩ | ⟨_, _, _, _, hl', -, -⟩
      · exact absurd hyi' ((hS.not_sent_created hc hic).2 h' y' hy')
      · exact (Label.create.inj (hl.symm.trans hl')).1

theorem unsent_of_run {tr : List (World σ η × Label σ η)}
    (h : Run (step cfg) World.init tr w) : Sane cfg w ∧ Unsent w :=
  h.stable (I := fun w => Sane cfg w ∧ Unsent w)
    (fun _ _ _ hI hs => ⟨sane_step hI.1 hs, unsent_step hI.1 hI.2 hs⟩) ⟨sane_init, unsent_init⟩

/-! ## 3. Items nobody will execute -/

/-- The item waits, or was failed while it waited, and no message, execution or request is about
to change that. -/
structure Stranded (w : World σ η) (i : ItemId) : Prop where
  nobody : ∀ a p, ¬ w.Holds i a p
  waits : w.statusOf i = some .queued ∨ w.statusOf i = some .failed

/-- Replay refuses an item that is still queued. -/
theorem replayReadItem_queued {σ η : Type} {w : World σ η}
    {i : ItemId} (h : w.statusOf i = some .queued) :
    replayReadItem w.store.db i = .error ⟨409, "run item is queued, not dead_lettered"⟩ := by
  obtain ⟨row, hrow, hst⟩ := Option.map_eq_some_iff.mp h
  simp only [replayReadItem, hrow, hst]
  rfl

/-- Nobody has published a message for the item, and nobody is going to. -/
structure Forsaken (w : World σ η) (i : ItemId) : Prop where
  stored : (w.store.db.items.get i).isSome
  unsent : i ∉ w.store.sent
  owed : ∀ h x, w.handlers h = some x → i ∉ x.owes

theorem Forsaken.stranded {σ η : Type} {w : World σ η}
    (hS : Sane cfg w) (hI : Unsent w) {i : ItemId} (hF : Forsaken w i) :
    Stranded w i where
  nobody a p ha := by
    cases ha with
    | message h => exact hF.unsent (hS.queued i h)
    | worker h _ => exact hF.unsent (hS.known _ _ h)
    | request hx hi => exact hF.owed _ _ hx hi
  waits := by
    obtain ⟨row, hrow⟩ := Option.isSome_iff_exists.mp hF.stored
    simpa [World.statusOf, hrow] using hI.status i row hrow hF.unsent

/-- An item without a message stays so, whatever the schedule. -/
theorem forsaken_step {l : Label σ η} (hI : Unsent w) {i : ItemId} (hF : Forsaken w i)
    (hs : step cfg w l = some w') : Forsaken w' i where
  stored := step_isSome hs hF.stored
  unsent := by
    cases step_queue hs with
    | same _ _ hsent | taken _ _ hsent => rw [hsent]; exact hF.unsent
    | published hx hj _ hsent =>
      rw [hsent, List.mem_append, List.mem_singleton]
      rintro (h | rfl)
      · exact hF.unsent h
      · exact hF.owed _ _ hx (Handler.publishes_mem hj)
  owed h x' hx' hi := by
    rcases owes_origin hI hs hx' hi hF.unsent with ⟨x, hx, hxi⟩ | ⟨_, _, _, _, -, hc, hic⟩
    · exact hF.owed h x hx hxi
    · have hnone := hc.fresh.2.1 i hic
      exact absurd hF.stored (by simp [hnone])

/-- A stranded item stays so while each message is delivered once. -/
theorem stranded_step {l : Label σ η} (hI : Single cfg w) (hok : Tame w l) {i : ItemId}
    (hX : Stranded w i) (hs : step cfg w l = some w') : Stranded w' i := by
  have hnot : w.statusOf i ≠ some .deadLettered := by
    rcases hX.waits with h | h <;> simp [h]
  have hrow : ∃ row, w.store.db.items.get i = some row ∧
      (row.status = .queued ∨ row.status = .failed) := by
    rcases hX.waits with h | h <;> obtain ⟨row, hrow, hst⟩ := Option.map_eq_some_iff.mp h
    · exact ⟨row, hrow, Or.inl hst⟩
    · exact ⟨row, hrow, Or.inr hst⟩
  obtain ⟨row, hrow, hst⟩ := hrow
  refine ⟨fun a p ha => ?_, ?_⟩
  · cases step_holds hI hok hs ha with
    | kept hw _ => exact hX.nobody _ _ hw
    | delivered hw => exact hX.nobody _ _ hw
    | published hx hi => exact hX.nobody _ _ (.request hx (Handler.publishes_mem hi))
    | moved hw hn hp => exact hX.nobody _ _ (.worker hw (owns_of_goto hn hp))
    | created hc hi => exact absurd (hrow.symm.trans (hc.fresh.2.1 i hi)) (by simp)
    | requeued hx => exact hnot (hok.2 i (by simp [replayed, hx]))
  · obtain ⟨row', hrow', hch⟩ := step_item hs hrow
    simp only [World.statusOf, hrow', Option.map_some, Option.some.injEq]
    cases outside_of_free hX.nobody hch with
    | keep => exact hst
    | abort | cancel => exact Or.inr rfl
    | requeue _ hd => exact absurd (by simp [World.statusOf, hrow, hd]) hnot

/-- What a broken-off creation had still to publish is forsaken. -/
theorem forsaken_of_drop (hS : Sane cfg w) (hI : Unsent w) {h : η} {pending : List ItemId}
    (hx : w.handlers h = some (.createEnqueue pending)) (hs : step cfg w (.drop h) = some w')
    {i : ItemId} (hi : i ∈ pending) : Forsaken w' i := by
  have hunsent := hI.pending h pending i hx hi
  have hquiet := step_quiet hs rfl
  cases step_cases hs
  refine ⟨hS.owing h _ i hx hi, hunsent, fun h' x hx' hix => ?_⟩
  by_cases hh : h' = h
  · subst hh
    exact absurd hx' (by simp)
  · have hx' : w.handlers h' = some x := by simpa [Function.update_of_ne hh] using hx'
    exact hh (hI.one h' h x _ i hx' hx hix hi hunsent)

/-- What any broken-off call had still to publish is stranded, if it was the holder. -/
theorem stranded_of_drop (hI : Single cfg w) {h : η} {x : Handler} (hx : w.handlers h = some x)
    (hs : step cfg w (.drop h) = some w') {i : ItemId} (hi : i ∈ x.owes) : Stranded w' i := by
  have hheld : w.Holds i (.request h) .start := .request hx hi
  obtain ⟨row, hrow⟩ := hI.sane.item_of_holds hheld
  have hst := (hI.fits i _ _ row hheld hrow).status
  cases step_cases hs
  refine ⟨fun a p ha => ?_, ?_⟩
  · cases ha with
    | message hq => exact absurd (hI.one i _ _ _ _ (.message hq) hheld) (by simp)
    | worker hw hp => exact absurd (hI.one i _ _ _ _ (.worker hw hp) hheld) (by simp)
    | @request h' x' hx' hi' =>
      by_cases hh : h' = h
      · subst hh
        exact absurd hx' (by simp)
      · have hx' : w.handlers h' = some x' := by simpa [Function.update_of_ne hh] using hx'
        have := hI.one i _ _ _ _ (.request hx' hi') hheld
        exact hh (by injection this)
  · simpa [World.statusOf, hrow, Phase.allows] using hst

/-! ## 4. What a call leaves behind -/

/-- A creation, of the two calls that publish. -/
def Label.isCreate : Label σ η → Bool
  | .create .. => true
  | _ => false

theorem createEnqueue_of_create {h : η} {l : Label σ η} (hc : Commits w h l)
    (hcreate : l.isCreate = true) (hs : step cfg w l = some w') {x : Handler}
    (hx : w'.handlers h = some x) : ∃ itemIds, x = .createEnqueue itemIds := by
  rcases hc with ⟨payload, r, itemIds, now, rfl⟩ | ⟨now, i, r, rfl, -⟩
  · cases step_request hs hx with
    | stayed hw _ => simp [step, hw] at hs
    | created _ hx => exact ⟨_, hx⟩
  · exact absurd hcreate (by simp [Label.isCreate])

/-- **A call that publishes**, followed from its transaction to its end: it has published for a
prefix of its items, for all of them unless a publication was refused.  The rest of the items is
stranded from then on, a creation's under every schedule, a replay's when each message is
delivered once; and as long as such an item is queued, replay refuses it. -/
theorem publishing_calls {tr b : List (World σ η × Label σ η)} {w₀ w₁ : World σ η} {l : Label σ η}
    {h : η} {x : Handler} (hrun : Run (step cfg) World.init tr w₀) (hc : Commits w₀ h l)
    (hs : step cfg w₀ l = some w₁) (hx : w₁.handlers h = some x) (hb : Run (step cfg) w₁ b w)
    (hcall : Along (fun u _ => u.handlers h ≠ none) b) (hend : w.handlers h = none) :
    ∃ k ≤ x.owes.length, b.filterMap (publishedBy h) = x.owes.take k ∧
      (∀ i ∈ x.owes.take k, i ∈ w.store.sent) ∧
      (k < x.owes.length → ∃ b₀ u, b = b₀ ++ [(u, .drop h)]) ∧
      ∀ i ∈ x.owes.drop k, ∀ tr' u, Run (step cfg) w tr' u →
        l.isCreate = true ∨ Along Tame (tr ++ (w₀, l) :: b ++ tr') →
        Stranded u i ∧ (u.statusOf i = some .queued →
          replayReadItem u.store.db i = .error ⟨409, "run item is queued, not dead_lettered"⟩) := by
  obtain ⟨k, hk⟩ := published_of_run hx (owes_of_commits hc hs hx) hb hcall
  have hstate := (hk.state.resolve_left fun hn => by simp [hend] at hn).2
  refine ⟨k, hk.le, hk.log, hk.sent, fun hlt => ?_, fun i hi tr' u hu hor => ⟨?_, ?_⟩⟩
  · obtain ⟨b₀, v, hb₀, -⟩ := hstate hlt
    exact ⟨b₀, v, hb₀⟩
  · have hlt : k < x.owes.length := by
      by_contra hge
      rw [List.drop_eq_nil_iff.mpr (by omega)] at hi
      exact absurd hi (by simp)
    obtain ⟨b₀, v, rfl, hv⟩ := hstate hlt
    obtain ⟨hb₀, hdrop⟩ := hb.snoc_inv
    have hrun₁ : Run (step cfg) World.init ((tr ++ [(w₀, l)]) ++ b₀) v :=
      (hrun.snoc hs).append hb₀
    have howes := Handler.skip_owes hlt
    rcases hor with hcreate | htame
    · obtain ⟨itemIds, rfl⟩ := createEnqueue_of_create hc hcreate hs hx
      obtain ⟨hS, hI⟩ := unsent_of_run hrun₁
      have hF := forsaken_of_drop hS hI hv hdrop hi
      have hI' := unsent_of_run (hrun₁.snoc hdrop)
      have hfar := hu.stable (I := fun u => (Sane cfg u ∧ Unsent u) ∧ Forsaken u i)
        (fun u _ _ hI hs => ⟨⟨sane_step hI.1.1 hs, unsent_step hI.1.1 hI.1.2 hs⟩,
          forsaken_step hI.1.2 hI.2 hs⟩) ⟨hI', hF⟩
      exact hfar.2.stranded hfar.1.1 hfar.1.2
    · have hassoc : tr ++ (w₀, l) :: (b₀ ++ [(v, .drop h)]) ++ tr' =
          (tr ++ [(w₀, l)]) ++ b₀ ++ (v, .drop h) :: tr' := by simp
      rw [hassoc] at htame
      obtain ⟨hpre, hpost⟩ := Along.append.mp htame
      have hI := single_of_run hrun₁ hpre
      have hX := stranded_of_drop hI hv hdrop (howes ▸ hi)
      have hok := hpost _ (List.mem_cons_self ..)
      have hfar := hu.invariant (I := fun u => Single cfg u ∧ Stranded u i)
        (fun u _ _ hI hok hs => ⟨single_step hI.1 hok hs, stranded_step hI.1 hok hI.2 hs⟩)
        (fun p hp => hpost p (List.mem_cons_of_mem _ hp)) ⟨single_step hI hok hdrop, hX⟩
      exact hfar.2
  · exact fun hq => replayReadItem_queued hq

/-- A creation of two items whose second publication is refused. -/
theorem exists_refused_creation : ∃ (w₁ w : World Nat Nat)
    (b : List (World Nat Nat × Label Nat Nat)),
    step (smallConfig 2 1 5000000) World.init (.create 0 smallRequest 0 [0, 1] 0) = some w₁ ∧
      w₁.handlers 0 = some (.createEnqueue [0, 1]) ∧ Run (step (smallConfig 2 1 5000000)) w₁ b w ∧
      Along (fun u _ => u.handlers 0 ≠ none) b ∧ w.handlers 0 = none ∧
      b.filterMap (publishedBy 0) = [0] ∧ w.statusOf 1 = some .queued ∧ 1 ∉ w.store.sent := by
  have htest : (step (smallConfig 2 1 5000000) (World.init : World Nat Nat)
      (.create 0 smallRequest 0 [0, 1] 0)).any (fun w₁ =>
        w₁.handlers 0 == some (.createEnqueue [0, 1]) &&
          (play (step (smallConfig 2 1 5000000)) (fun w _ => w.handlers 0 != none) w₁
            ([.handler 0 0, .drop 0] : List (Label Nat Nat))).any fun r =>
              r.2.handlers 0 == none && r.1.filterMap (publishedBy 0) == [0] &&
                r.2.statusOf 1 == some .queued && !r.2.store.sent.contains 1) = true := by
    decide
  obtain ⟨w₁, hs, htest⟩ := (Option.any_eq_true ..).mp htest
  simp only [Bool.and_eq_true, beq_iff_eq] at htest
  obtain ⟨hx, hplay⟩ := htest
  obtain ⟨b, w, hb, hcall, htest⟩ := exists_run_of_play (step (smallConfig 2 1 5000000)) w₁
    (fun w _ => w.handlers 0 != none) ([.handler 0 0, .drop 0] : List (Label Nat Nat))
    (fun b w => w.handlers 0 == none && b.filterMap (publishedBy 0) == [0] &&
      w.statusOf 1 == some .queued && !w.store.sent.contains 1) hplay
  simp only [Bool.and_eq_true, beq_iff_eq, Bool.not_eq_true', List.contains_eq_mem,
    decide_eq_false_iff_not] at htest
  exact ⟨w₁, w, b, hs, hx, hb, hcall.mono fun _ _ h => by simpa using h, htest.1.1.1,
    htest.1.1.2, htest.1.2, htest.2⟩

theorem publishing_calls_small : ∃ (w : World Nat Nat), w.handlers 0 = none ∧
    w.statusOf 1 = some .queued ∧
      ∀ tr' u, Run (step (smallConfig 2 1 5000000)) w tr' u → Stranded u 1 := by
  obtain ⟨w₁, w, b, hs, hx, hb, hcall, hend, hlog, hq, -⟩ := exists_refused_creation
  obtain ⟨k, hk, htake, -, -, hrest⟩ :=
    publishing_calls Run.nil (Or.inl ⟨_, _, _, _, rfl⟩) hs hx hb hcall hend
  have hk1 : 1 ∈ (Handler.createEnqueue [0, 1]).owes.drop k := by
    rw [hlog] at htake
    match k, htake with
    | 1, _ => decide
  exact ⟨w, hend, hq, fun tr' u hu => (hrest 1 hk1 tr' u hu (Or.inl rfl)).1⟩

/-- Item 1 of that creation is queued, has no message and cannot be replayed. -/
theorem queued_without_message : ¬ ∀ (tr b : List (World Nat Nat × Label Nat Nat))
    (w₀ w₁ w : World Nat Nat) (l : Label Nat Nat) (h : Nat) (x : Handler),
    Run (step (smallConfig 2 1 5000000)) World.init tr w₀ → Commits w₀ h l →
      step (smallConfig 2 1 5000000) w₀ l = some w₁ → w₁.handlers h = some x →
      Run (step (smallConfig 2 1 5000000)) w₁ b w → Along (fun u _ => u.handlers h ≠ none) b →
      w.handlers h = none → ∀ i ∈ x.owes, w.statusOf i = some .queued →
        i ∈ w.store.sent ∨ ∃ r, replayReadItem w.store.db i = .ok r := by
  intro hall
  obtain ⟨w₁, w, b, hs, hx, hb, hcall, hend, -, hq, hsent⟩ := exists_refused_creation
  rcases hall [] b World.init w₁ w _ 0 _ Run.nil (Or.inl ⟨_, _, _, _, rfl⟩) hs hx hb hcall hend 1
    (by decide) hq with h | ⟨r, hr⟩
  · exact hsent h
  · rw [replayReadItem_queued hq] at hr
    exact absurd hr (by simp)

end EvalHarness
