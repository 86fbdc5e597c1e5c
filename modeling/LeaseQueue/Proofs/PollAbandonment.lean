import LeaseQueue.Proofs.NoTaskLost
import LeaseQueue.Proofs.PickTraces

/-!
# Polls that are dropped

A poll can be dropped wherever it may have to wait: in its consumer, for the row whose outcome it
records, or for a slot of an executor.  By then it has picked a task.  If its transaction is still
open, the row is as it was before the pick; if the pick has been committed, the row is as it was
picked, with its lease, whatever the outcome would have been.  In either case the poll locks no row
any more, and who waits for the end of its transaction goes on.
-/

set_option autoImplicit false

namespace LeaseQueue

/-! ## Abandoned transactions -/

namespace Store

/-- A row that nobody holds is committed as it is. -/
theorem WellFormed.committed_of_free {s : Store} (hs : s.WellFormed) {id : TaskId} {row : Row}
    (hrow : s.rows.get? id = some row) (hfree : row.holder = none) :
    s.committed id = some row.content := by
  rw [committed_of_not_touched]
  · unfold content
    rw [hrow]
    rfl
  · intro tx hid
    have hheld := hs.owned hid hrow
    rw [hfree] at hheld
    cases hheld

/-- A row that an abandoned transaction has changed is as it was committed, and free. -/
theorem WellFormed.get?_abandon {s : Store} (hs : s.WellFormed) {tx : TransactionId}
    (hopen : s.isOpen tx = true) {id : TaskId} (hid : id ∈ s.touched tx) :
    (s.perform (.abandon tx)).1.rows.get? id =
      (s.committed id).map fun content => ⟨content.1, content.2, none⟩ := by
  have hcontent := content_abandon hopen id
  rw [hs.restored_eq, if_pos hid] at hcontent
  have hended : Ended s tx (s.perform (.abandon tx)).1 := by
    simp only [perform, abandon, hopen, if_true]
    exact ended_undoAll_release hs hopen
  generalize (s.perform (.abandon tx)).1 = s' at hcontent hended
  rw [← hcontent]
  unfold content
  cases hrow : s'.rows.get? id with
  | none => rfl
  | some row =>
    have hfree : row.holder = none := by
      cases hholder : row.holder with
      | none => rfl
      | some t =>
        obtain ⟨hne, before, hbefore, hheld⟩ := hended.holder hrow hholder
        have howned := hs.owned hid hbefore
        rw [hheld] at howned
        exact absurd (Option.some.inj howned) hne
    obtain ⟨location, record, holder⟩ := row
    cases hfree
    rfl

end Store

/-! ## Where a process may have to wait -/

/-- A request whose answer may have to be waited for. -/
def Request.MayWait {ω : Type} : Request ω → Prop
  | .delete .. => True
  | .reenqueue .. => True
  | .pass _ => True
  | .passBefore .. => True
  | .slot _ => True
  | .drained .. => True
  | .sleepUntil _ => True
  | .pauseUntil _ => True
  | .ended .. => True
  | _ => False

/-- A request with which the work on a task begins. -/
def Request.Serves {ω : Type} : Request ω → Prop
  | .invocation _ => True
  | .handOver .. => True
  | _ => False

namespace World

variable {ω β : Type}

/-- Other requests are answered at once. -/
theorem mayWait_of_wait {w : World ω β} {jobProgram : ω → Process ω Unit} {id : FiberId}
    {r : Request ω} {condition : Wait} (h : (w.perform jobProgram id r).2 = .wait condition) :
    r.MayWait := by
  cases r with
  | delete | reenqueue | pass | passBefore | slot | drained | sleepUntil | pauseUntil | ended =>
    trivial
  | beginDraining =>
    simp only [perform] at h
    split at h <;> cases h
  | _ => cases h

/-- Who waits for the end of a transaction goes on when one more has ended. -/
theorem wake_release {w : World ω β} {k : FiberId} {shard : ShardId} {ended : Nat}
    (hparked : (k, .release shard ended) ∈ w.parked) (hended : ended < (w.store shard).releases) :
    k ∈ w.wake.ready ∧ (k, Wait.release shard ended) ∉ w.wake.parked := by
  have hover : w.isOver k (.release shard ended) = true := by
    simp only [isOver, bne_iff_ne]
    exact Nat.ne_of_gt hended
  unfold wake
  simp only [List.partition_eq_filter_filter]
  constructor
  · refine List.mem_append_right _ (List.mem_map.2 ⟨(k, .release shard ended), ?_, rfl⟩)
    exact List.mem_filter.2 ⟨hparked, hover⟩
  · intro hmem
    have hnot := (List.mem_filter.1 hmem).2
    simp [hover] at hnot

/-- A process that is dropped ends its transactions, then all who have waited for that go on. -/
theorem bury_wake (w : World ω β) (id : FiberId) (f : Fiber ω β) :
    ∃ w' : World ω β, w.bury id f = w'.wake ∧ w'.parked = (f.held.foldl abandon w).parked ∧
      ∀ s, w'.store s = (f.held.foldl abandon w).store s := by
  unfold bury
  simp only [dismiss]
  split
  · exact ⟨_, rfl, rfl, fun _ => rfl⟩
  · exact ⟨_, rfl, rfl, fun _ => rfl⟩

end World

namespace Standing

variable {ω : Type}

/-- That the work on a task has begun is not forgotten. -/
theorem served_after {s : Standing} {x : Exchange ω} (h : s.served = true ∨ x.1.Serves) :
    (s.after x).served = true := by
  obtain ⟨r, reply⟩ := x
  cases r with
  | invocation consumer => rfl
  | handOver executor job => rfl
  | pick tx location lease =>
    have hserved : s.served = true := h.resolve_right id
    rcases reply with e | _ | record
    · exact hserved
    · exact hserved
    · exact hserved
  | begin shard =>
    have hserved : s.served = true := h.resolve_right id
    cases reply with
    | ok tx => exact hserved
    | error e => exact hserved
  | commit tx =>
    have hserved : s.served = true := h.resolve_right id
    cases reply with
    | ok u => exact hserved
    | error e => exact hserved
  | _ => exact h.resolve_right id

end Standing

namespace Engine

variable {α : Type}

/-- Whoever has begun to serve is known to have done so. -/
theorem served_of_mem {e : Engine α} {id : FiberId} {x : Exchange (Job α)} (hx : x ∈ e.said id)
    (hserves : x.1.Serves) : (e.standing id).served = true := by
  unfold standing
  generalize e.said id = said at hx
  induction said using List.reverseRecOn with
  | nil => cases hx
  | append_singleton rest y ih =>
    rw [List.foldl_append]
    rcases List.mem_append.1 hx with hx | hx
    · exact Standing.served_after (.inl (ih hx))
    · rw [List.mem_singleton.1 hx] at hserves
      exact Standing.served_after (.inr hserves)

/-- What was started stays what it was. -/
theorem Accounted.deed_react {e : Engine α} (h : e.Accounted) (event : Event α) {id : FiberId}
    {deed : Deed α} (hdeed : e.deed id = some deed) : (e.react event).deed id = some deed := by
  have hne : id ≠ e.world.nextFiber := Nat.ne_of_lt (h.lt_nextFiber hdeed)
  cases event with
  | outside shard a =>
    simp only [Engine.react]
    split <;> exact hdeed
  | move m =>
    cases m with
    | produce producer task => exact (Function.update_of_ne hne _ _).trans hdeed
    | poll runner => exact (Function.update_of_ne hne _ _).trans hdeed
    | go k =>
      show (e.go k).deed id = _
      rcases e.go_cases k with ⟨-, hk⟩ | ⟨f, -, -, -, hk⟩ | ⟨r, next, -, hk⟩
      · rwa [hk]
      · obtain ⟨w, hfinish, -⟩ := e.finish_world k f
        rwa [hk, hfinish]
      · rw [hk]
        rcases e.ask_cases k r next with ⟨w, _, -, hask⟩ | ⟨w, _, -, hask⟩
        · rwa [hask]
        · rw [hask]
          exact h.deedsAfter_of_some hdeed
    | drop k =>
      show (e.drop k).deed id = _
      unfold Engine.drop
      split <;> exact hdeed
    | _ => exact hdeed

/-- A process that is gone says nothing any more. -/
theorem Tidy.said_of_gone {e : Engine α} (h : e.Tidy) {id : FiberId} {deed : Deed α}
    (hdeed : e.deed id = some deed) (hgone : e.world.held? id = none) (events : List (Event α)) :
    (e.happen events).said id = e.said id := by
  induction events generalizing e with
  | nil => rfl
  | cons event rest ih =>
    have hstays : (e.react event).world.held? id = none ∧ (e.react event).said id = e.said id := by
      by_cases hgo : event = .move (.go id)
      · subst hgo
        show (e.go id).world.held? id = none ∧ (e.go id).said id = e.said id
        rw [go_of_gone hgone]
        exact ⟨hgone, rfl⟩
      by_cases hdrop : event = .move (.drop id)
      · subst hdrop
        exact ⟨e.held?_drop id, e.said_react_of_ne hgo⟩
      · have hlt := h.accounted.lt_nextFiber hdeed
        exact ⟨(h.held?_react_of_ne hlt hgo hdrop).trans hgone, e.said_react_of_ne hgo⟩
    show ((e.react event).happen rest).said id = e.said id
    rw [ih (h.react event) (h.accounted.deed_react event hdeed) hstays.1, hstays.2]

/-! ## Dropping a poll -/

/-- A poll is where it may have to wait. -/
def Suspended (e : Engine α) (id : FiberId) (r : Runner α) : Prop :=
  e.deed id = some (.poll r) ∧
    ∃ q next, e.world.program? id = some (.call q next) ∧ q.MayWait

/-- A poll that has to wait is suspended. -/
theorem suspended_of_wait {e : Engine α} {id : FiberId} {r : Runner α} {q : Request (Job α)}
    {next : q.Reply → Process (Job α) Unit} {condition : Wait} (hdeed : e.deed id = some (.poll r))
    (hcall : e.world.program? id = some (.call q next))
    (hwait : (e.world.perform Job.work id q).2 = .wait condition) : e.Suspended id r :=
  ⟨hdeed, q, next, hcall, World.mayWait_of_wait hwait⟩

/-- What has become of a poll that is dropped now, and of the row that it has picked, by what was
before its pick and what has happened since. -/
structure Abandoned (start : Engine α) (before after : List (Event α)) (id : FiberId) (r : Runner α)
    (c : Catch) (now : Engine α) : Prop where
  picks : (start.happen before).Picks id c
  place : c.tx.shard = r.processor.shard ∧ c.location = r.processor.location
  /-- In one transaction: the row is committed as it was before the pick, and it is free. -/
  shared : r.boundary = .shared →
    ((now.drop id).world.store c.tx.shard).rows.get? c.record.id =
        ((start.happen before).world.store c.tx.shard).rows.get? c.record.id ∧
      ((now.drop id).world.store c.tx.shard).committed c.record.id =
        ((start.happen before).world.store c.tx.shard).committed c.record.id ∧
      ∃ row, ((now.drop id).world.store c.tx.shard).rows.get? c.record.id = some row ∧
        row.holder = none
  /-- Otherwise it is committed as it was picked, unless another transaction has changed it. -/
  leased : r.boundary ≠ .shared →
    ((now.drop id).world.store c.tx.shard).committed c.record.id = some (c.location, c.record) ∨
      (start.happen (before ++ [.move (.go id)])).ChangedByOther id c.tx.shard c.record.id after
  /-- The drop itself changes nothing that is committed. -/
  committed : ∀ shard row, ((now.drop id).world.store shard).committed row =
    (now.world.store shard).committed row
  /-- A task that was to be handed over is never worked on by this poll. -/
  unserved : ∀ executor, r.boundary = .handedOver executor → ∀ events, ∀ x ∈
    ((now.drop id).happen events).said id, ¬ x.1.Serves
  /-- No row is held by a transaction of the poll. -/
  unlocked : ∀ shard row found tx, ((now.drop id).world.store shard).rows.get? row = some found →
    found.holder = some tx → ¬ (now.drop id).Began id ⟨shard, tx⟩
  /-- Who waits for the end of a transaction in the store of the poll's open one goes on. -/
  notified : ∀ tx, now.Began id tx → (now.world.store tx.shard).isOpen tx.transaction = true →
    ∀ k ended, (k, .release tx.shard ended) ∈ now.world.parked →
      ended ≤ (now.world.store tx.shard).releases →
      k ∈ (now.drop id).world.ready ∧
        (k, Wait.release tx.shard ended) ∉ (now.drop id).world.parked

/-- How a poll stands where it may have to wait. -/
theorem Tidy.waits_of_suspended {e : Engine α} (h : e.Tidy) {id : FiberId} {r : Runner α}
    (hsuspended : e.Suspended id r) : r.Waits (e.standing id) := by
  obtain ⟨hdeed, q, next, hcall, hwait⟩ := hsuspended
  obtain ⟨deed, hdeed', hpermits⟩ := h.accounted.permits hcall
  rw [hdeed] at hdeed'
  cases hdeed'
  cases q with
  | delete tx location row => exact hpermits.2
  | reenqueue tx asOf location row delay fresh => exact hpermits.2
  | pass gate => exact hpermits
  | slot executor => exact hpermits
  | passBefore gate deadline => exact hpermits.elim
  | drained executor deadline => exact hpermits.elim
  | sleepUntil t => exact hpermits.elim
  | pauseUntil t => exact hpermits.elim
  | ended fibers deadline => exact hpermits.elim
  | _ => exact hwait.elim

/-- When a process is dropped, its open transaction is abandoned. -/
theorem Tidy.store_drop {e : Engine α} (h : e.Tidy) {id : FiberId} {tx : Handle}
    (hheld : e.world.held? id = some [tx]) (s : ShardId) :
    (e.drop id).world.store s = e.world.acted tx.shard (.abandon tx.transaction) s := by
  have hstore := h.store_react (.move (.drop id)) s
  simp only [action?, hheld] at hstore
  exact hstore

/-- That changes nothing that is committed. -/
theorem Tidy.committed_drop {e : Engine α} (h : e.Tidy) (id : FiberId) (shard : ShardId)
    (row : TaskId) : ((e.drop id).world.store shard).committed row =
      (e.world.store shard).committed row := by
  have hstore : (e.drop id).world.store shard = _ := h.store_react (.move (.drop id)) shard
  rw [hstore]
  simp only [action?]
  split
  · rfl
  · next haction =>
    split at haction
    · cases haction
      refine World.committed_acted h.wellFormed rfl ?_ shard row
      intro tx heq
      cases heq
    · cases haction

/-- Once a process is gone it holds no row. -/
theorem Tidy.unlocked_of_gone {e : Engine α} (h : e.Tidy) {id : FiberId}
    (hgone : e.world.held? id = none) {shard : ShardId} {row : TaskId} {found : Row}
    {tx : TransactionId} (hrow : (e.world.store shard).rows.get? row = some found)
    (hholder : found.holder = some tx) : ¬ e.Began id ⟨shard, tx⟩ := by
  intro hbegan
  have hopen := (h.wellFormed shard).holder_open hrow hholder
  have hheld := h.current hbegan hopen
  rw [hgone] at hheld
  cases hheld

/-- The end of the open transaction of a dropped process does not escape those who wait for it. -/
theorem Tidy.notified_drop {e : Engine α} (h : e.Tidy) {id k : FiberId} {tx : Handle} {ended : Nat}
    (hbegan : e.Began id tx) (hopen : (e.world.store tx.shard).isOpen tx.transaction = true)
    (hparked : (k, .release tx.shard ended) ∈ e.world.parked)
    (hended : ended ≤ (e.world.store tx.shard).releases) :
    k ∈ (e.drop id).world.ready ∧ (k, Wait.release tx.shard ended) ∉ (e.drop id).world.parked := by
  obtain ⟨f, hf, hheld⟩ := Option.map_eq_some_iff.1 (h.current hbegan hopen)
  obtain ⟨w, hbury, hwaiting, hstore⟩ := e.world.bury_wake id f
  have hdrop : (e.drop id).world = w.wake := by
    unfold Engine.drop
    rw [hf]
    exact hbury
  rw [hheld] at hwaiting hstore
  have hreleases : (w.store tx.shard).releases = (e.world.store tx.shard).releases + 1 := by
    have habandon : w.store tx.shard =
        (e.world.setStore tx.shard ((e.world.store tx.shard).abandon tx.transaction)).store
          tx.shard := hstore tx.shard
    rw [habandon, World.store_setStore, if_pos ⟨rfl, World.contains_of_isOpen hopen⟩]
    unfold Store.abandon
    rw [if_pos hopen]
    rfl
  rw [hdrop]
  refine World.wake_release ?_ ?_
  · rw [hwaiting]
    exact hparked
  · rw [hreleases]
    exact Nat.lt_succ_of_le hended

/-- A row that was free when it was picked, and whose pick has not been committed, is after the drop
as it was before the pick. -/
theorem PickTrace.restored {start now : Engine α} {before after : List (Event α)} {id : FiberId}
    {c : Catch} (h : PickTrace start before after id c now) (hbefore : (start.happen before).Tidy)
    (hnow : now.Tidy) {l : List Handle} (hheld : now.world.held? id = some l)
    (hstage : (now.standing id).stage = .picked c.tx c.location c.record) :
    ∃ row, row.holder = none ∧
      ((now.drop id).world.store c.tx.shard).rows.get? c.record.id = some row ∧
      ((start.happen before).world.store c.tx.shard).rows.get? c.record.id = some row := by
  obtain ⟨row, hrow, hfree⟩ := h.free
  have hholds := hnow.stage hheld
  rw [hstage] at hholds
  obtain ⟨hopen, -, hid⟩ := hholds
  have hown := hnow.held_of_handle hheld (by rw [hstage]; rfl)
  have hcommitted := h.uncommitted hstage
  rw [(hbefore.wellFormed _).committed_of_free hrow hfree] at hcommitted
  refine ⟨row, hfree, ?_, hrow⟩
  rw [hnow.store_drop hown, World.acted, if_pos ⟨rfl, World.contains_of_isOpen hopen⟩,
    (hnow.wellFormed _).get?_abandon hopen hid, hcommitted]
  obtain ⟨location, record, holder⟩ := row
  cases hfree
  rfl

/-- Whatever else happens: a poll can be dropped wherever it may have to wait, and what is left of
it is as if it had not begun, or as if it had come to its pick only. -/
theorem abandonment_atomic {w : World (Job α) Unit} (h : w.Unattended) (events : List (Event α))
    {id : FiberId} {r : Runner α} (hsuspended : ((ofWorld w).happen events).Suspended id r) :
    ∃ before after c, events = before ++ .move (.go id) :: after ∧
      Abandoned (ofWorld w) before after id r c ((ofWorld w).happen events) := by
  have htidy := tidy_happen h events
  obtain ⟨c, hpick, hshard, hlocation, hwaits⟩ := htidy.waits_of_suspended hsuspended
  obtain ⟨hdeed, q, next, hcall, -⟩ := hsuspended
  obtain ⟨l, hheld⟩ := exists_held hcall
  obtain ⟨before, after, hevents, htrace⟩ :=
    exists_pickTrace (tidy_ofWorld h) (fun _ => rfl) events hheld hpick
  have hbefore := tidy_happen h before
  have hgone := ((ofWorld w).happen events).held?_drop id
  generalize (ofWorld w).happen events = now at *
  have hdropped : (now.drop id).Tidy := htidy.drop id
  refine ⟨before, after, c, hevents, htrace.picks, ⟨hshard, hlocation⟩, ?_, ?_,
    htidy.committed_drop id, ?_, ?_, ?_⟩
  · intro hboundary
    rw [hboundary] at hwaits
    obtain ⟨row, hfree, hafter, hrow⟩ := htrace.restored hbefore htidy hheld hwaits
    refine ⟨hafter.trans hrow.symm, ?_, row, hafter, hfree⟩
    rw [(hdropped.wellFormed _).committed_of_free hafter hfree,
      (hbefore.wellFormed _).committed_of_free hrow hfree]
  · intro hboundary
    rw [htidy.committed_drop]
    refine htrace.leased ?_
    cases hb : r.boundary with
    | shared => exact absurd hb hboundary
    | separate =>
      rw [hb] at hwaits
      exact hwaits.1
    | handedOver executor =>
      rw [hb] at hwaits
      exact hwaits.1
  · intro executor hboundary more x hx hserves
    rw [hboundary] at hwaits
    have hdeed : (now.drop id).deed id = some (.poll r) :=
      htidy.accounted.deed_react (.move (.drop id)) hdeed
    have hne : (.move (.drop id) : Event α) ≠ .move (.go id) := by simp
    have hsaid : (now.drop id).said id = now.said id := now.said_react_of_ne hne
    rw [hdropped.said_of_gone hdeed hgone, hsaid] at hx
    have hserved := served_of_mem hx hserves
    rw [hwaits.2.2] at hserved
    cases hserved
  · intro shard row found tx hrow hholder
    exact hdropped.unlocked_of_gone hgone hrow hholder
  · intro tx hbegan hopen k ended hparked hended
    exact htidy.notified_drop hbegan hopen hparked hended

/-! ## A poll that is dropped in its consumer -/

/-- A runner whose consumer waits at a gate before it finishes a task. -/
def gatedRunner : Runner String :=
  { finishingRunner with
    boundary := .shared
    processor := { finishingRunner.processor with
      consumer := { finishingRunner.processor.consumer with
        handle := fun _ _ => ⟨[.pass "gate"], .verdict .finish⟩ } } }

/-- A task is produced, and a poll in one transaction has picked it and waits at the gate. -/
def gatedPoll : List (Event String) :=
  .move (.produce plainProducer ⟨none, .zero, none, none⟩) :: List.replicate 8 (.move (.go 0)) ++
    .move (.poll gatedRunner) :: List.replicate 8 (.move (.go 1))

/-- What `abandonment_atomic` says of this run: the attempt that the pick has counted is not counted
any more after the drop. -/
theorem gated_poll_abandoned :
    ((ofWorld (.initial .epoch [default] [])).happen gatedPoll).Suspended 1 gatedRunner ∧
    (((ofWorld (.initial .epoch [default] [])).happen gatedPoll).world.store default).records.map
      TaskRecord.attempts = [1] ∧
    ((((ofWorld (.initial .epoch [default] [])).happen gatedPoll).drop 1).world.store
      default).records.map TaskRecord.attempts = [0] ∧
    ∃ before after c, gatedPoll = before ++ .move (.go 1) :: after ∧
      Abandoned (ofWorld (.initial .epoch [default] [])) before after 1 gatedRunner c
        ((ofWorld (.initial .epoch [default] [])).happen gatedPoll) := by
  have hsuspended : ((ofWorld (.initial .epoch [default] [])).happen gatedPoll).Suspended 1
      gatedRunner := suspended_of_wait rfl rfl (rfl : _ = Reply.wait (.gate "gate"))
  refine ⟨hsuspended, rfl, rfl, ?_⟩
  exact abandonment_atomic (World.unattended_initial .epoch [default] []) gatedPoll hsuspended

end Engine

end LeaseQueue
