import LeaseQueue.Loop
import LeaseQueue.Proofs.ServiceRuns

/-!
# What loops and jobs ask

The work on a task, wherever it is done, concerns its store and its consumer only.  A loop tells
what it is doing besides, under its own number, and hands its tasks over if its boundary says so
(`PollLoop.only_round`).

What a poll comes to does not matter to the round around it.  A round that is the last one has found
the sign to stop and said that the loop is stopped (`PollLoop.returns_roundOf_false`), and unless an
observer of loops panics there is no other way for a loop to end (`PollLoop.roundOf_neverPanics`).
-/

set_option autoImplicit false

namespace LeaseQueue

variable {α ω ε γ : Type}

open Process

/-! ## Requests -/

/-- Requests that concern neither the pool nor an executor. -/
def Request.Local : Request ω → Prop
  | .slot _ | .handOver .. | .close _ | .drained .. | .activeJobs _ | .publish .. | .signalStop _
  | .beginDraining | .takeLoops | .abort _ | .enterHook _ | .endDraining => False
  | _ => True

/-- A request that concerns neither the pool nor an executor is neutral. -/
theorem Request.Local.neutral {r : Request ω} (h : r.Local) : r.Neutral := by
  cases r <;> trivial

/-- An operation that is probed first asks what it asks by itself. -/
theorem Session.only_probed {point : StorePoint} {shard : ShardId} {operation : Action ω StoreError γ}
    (h : operation.run.Only Request.Local) :
    (Session.probe shard point >>= fun _ => operation).run.Only Request.Local :=
  only_run_bind (only_ask trivial) fun _ => h

/-- The begin of a transaction concerns neither the pool nor an executor. -/
theorem Session.only_begin (shard : ShardId) :
    (Session.begin shard : Action ω StoreError Handle).run.Only Request.Local :=
  only_probed (only_ask trivial)

/-- A look at the clock concerns neither the pool nor an executor. -/
theorem Session.only_now : (Session.now : Action ω ε Instant).run.Only Request.Local :=
  only_lift (only_ask trivial)

/-- A commit concerns neither the pool nor an executor. -/
theorem Session.only_commit (tx : Handle) :
    (Session.commit tx : Action ω StoreError Unit).run.Only Request.Local :=
  only_probed (only_ask trivial)

/-- An observer concerns neither the pool nor an executor. -/
theorem only_local_react (r : Reaction) : (react r : Process ω Unit).Only Request.Local :=
  only_react (fun _ => trivial) r

/-- A consumer concerns neither the pool nor an executor. -/
theorem Consumer.only_execute (c : Consumer α) (task : Task α) :
    (c.execute task : Action ω QueueError Verdict).run.Only Request.Local := by
  have heffects : ∀ effects, (Effect.processAll effects : Process ω Unit).Only Request.Local := by
    intro effects
    induction effects with
    | nil => trivial
    | cons effect rest ih =>
      refine only_bind ?_ fun _ => ih
      cases effect <;> exact only_ask trivial
  refine only_run_bind (only_lift (only_ask trivial)) fun calls => ?_
  refine only_run_bind (only_lift (heffects _)) fun _ => ?_
  unfold Ending.process
  split <;> trivial

/-- The change of a row concerns neither the pool nor an executor. -/
theorem Recorder.only_apply (r : Recorder) (tx : Handle) (id : TaskId) (outcome : Outcome) :
    (r.apply tx id outcome : Action ω QueueError Unit).run.Only Request.Local := by
  cases outcome with
  | delete =>
    exact only_run_bind (only_storing (Session.only_probed (only_ask trivial))) fun _ => trivial
  | reschedule delay fresh =>
    refine only_run_bind (only_storing (Session.only_probed ?_)) fun _ => trivial
    exact only_run_bind Session.only_now fun _ => only_ask trivial
  | keep => trivial

/-- The record of a verdict concerns neither the pool nor an executor. -/
theorem Recorder.only_record (r : Recorder) (record : TaskRecord) (verdict : Verdict)
    (tx : Option Handle) :
    (r.record record verdict tx : Action ω QueueError Unit).run.Only Request.Local := by
  unfold Recorder.record
  split
  · trivial
  · trivial
  · split
    · exact r.only_apply _ _ _
    · refine only_withTransaction (Session.only_begin _) (fun tx => ?_) fun _ => trivial
      exact only_run_bind (r.only_apply _ _ _) fun _ => only_storing (Session.only_commit tx)

namespace Processor

variable (p : Processor α)

/-- The task of a row is read without the pool and without executors. -/
theorem only_task (record : TaskRecord) :
    (p.task record : Action ω QueueError (Task α)).run.Only Request.Local := by
  unfold task
  split <;> trivial

/-- To process a task concerns neither the pool nor an executor. -/
theorem only_process (record : TaskRecord) (tx : Option Handle) :
    (p.process record tx : Process ω Unit).Only Request.Local := by
  have hexecute : (p.execute record tx : Action ω QueueError Unit).run.Only Request.Local := by
    refine only_run_bind (p.only_task record) fun task => ?_
    refine only_run_bind Session.only_now fun _ => ?_
    refine only_run_bind (p.consumer.only_execute task) fun verdict => ?_
    refine only_run_bind Session.only_now fun _ => ?_
    refine only_run_bind (only_lift (only_local_react _)) fun _ => ?_
    exact p.recorder.only_record record verdict tx
  refine only_bind (only_local_react _) fun _ => ?_
  refine only_bind (only_attempt hexecute) fun outcome => ?_
  rcases outcome with cause | e | ⟨⟩
  · exact only_bind (only_local_react _) fun _ => only_local_react _
  · exact only_bind (only_local_react _) fun _ => only_local_react _
  · exact only_local_react _

end Processor

/-- A job asks nothing that concerns the pool or an executor. -/
theorem Job.only_work (job : Job α) : job.work.Only Request.Local :=
  job.processor.only_process job.record none

/-- A poll hands over its own tasks and asks nothing else that concerns the pool. -/
def Runner.MayAsk (r : Runner α) (request : Request (Job α)) : Prop :=
  request.Neutral ∨ ∃ executor record,
    r.boundary = .handedOver executor ∧ request = .handOver executor ⟨r.processor, record⟩

namespace Runner

variable (r : Runner α)

/-- A pick concerns neither the pool nor an executor. -/
theorem only_pick (tx : Handle) :
    (r.pick tx : Action ω QueueError (Option TaskRecord)).run.Only Request.Local := by
  refine only_storing (only_run_bind Session.only_now fun start => ?_)
  refine only_run_bind (Session.only_probed (only_ask trivial)) fun picked => ?_
  cases picked with
  | none => trivial
  | some record =>
    refine only_run_bind Session.only_now fun stop => ?_
    exact only_run_bind (only_lift (only_local_react _)) fun _ => trivial

/-- A pick with its commit concerns neither the pool nor an executor. -/
theorem only_pickAndCommit :
    (r.pickAndCommit : Action ω QueueError (Option TaskRecord)).run.Only Request.Local := by
  refine only_withTransaction (Session.only_begin _) (fun tx => ?_) fun _ => trivial
  refine only_run_bind (r.only_pick tx) fun picked => ?_
  exact only_run_bind (only_storing (Session.only_commit tx)) fun _ => trivial

/-- A poll asks nothing but what its runner may ask. -/
theorem only_poll : r.poll.run.Only r.MayAsk := by
  have hlocal : ∀ request : Request (Job α), request.Local → r.MayAsk request :=
    fun _ h => .inl h.neutral
  unfold poll
  split
  · refine (only_run_bind r.only_pickAndCommit fun picked => ?_ :
      (r.pollSeparate : Action (Job α) _ _).run.Only _).mono hlocal
    cases picked with
    | none => trivial
    | some record =>
      exact only_run_bind (only_lift (r.processor.only_process record none)) fun _ => trivial
  · refine (only_withTransaction (Session.only_begin _) (fun tx => ?_) fun _ => trivial :
      (r.pollShared : Action (Job α) _ _).run.Only _).mono hlocal
    refine only_run_bind (r.only_pick tx) fun picked => ?_
    cases picked with
    | none => exact only_run_bind (only_storing (Session.only_commit tx)) fun _ => trivial
    | some record =>
      refine only_run_bind (only_lift (r.processor.only_process record (some tx))) fun _ => ?_
      exact only_run_bind (only_storing (Session.only_commit tx)) fun _ => trivial
  · next executor hboundary =>
    refine only_run_bind (r.only_pickAndCommit.mono hlocal) fun picked => ?_
    cases picked with
    | none => trivial
    | some record =>
      refine only_run_bind (only_lift (only_ask (.inl trivial))) fun granted => ?_
      cases (granted : Bool) with
      | false => trivial
      | true =>
        refine only_run_bind (only_lift (only_ask (.inr ?_))) fun _ => trivial
        exact ⟨executor, record, hboundary, rfl⟩

end Runner

namespace PollLoop

variable (l : PollLoop α)

/-- What a loop asks: what its polls ask, and to let others know what it is doing. -/
def MayAsk (request : Request (Job α)) : Prop :=
  l.runner.MayAsk request ∨ ∃ state, request = .publish l.id state

/-- A poll that is kept from panicking asks nothing but what its runner may ask. -/
theorem only_guardedPoll : l.guardedPoll.Only l.runner.MayAsk := by
  refine only_bind (only_attempt l.runner.only_poll) fun outcome => ?_
  cases outcome <;> trivial

/-- To tell the observer is something that a loop may ask. -/
theorem only_tell (event : LoopEvent) : (l.tell event : Process (Job α) Unit).Only l.MayAsk :=
  (only_local_react _).mono fun _ h => .inl (.inl h.neutral)

/-- To say what it is doing is something that a loop may ask. -/
theorem only_publish (state : LoopState) :
    (l.publish state : Process (Job α) Unit).Only l.MayAsk := only_ask (.inr ⟨state, rfl⟩)

/-- A cycle asks nothing but what its loop may ask. -/
theorem only_cycle : l.cycle.Only l.MayAsk := by
  have hlast : ∀ wait : Duration,
      ((l.tell .finished : Process (Job α) Unit).bind fun _ => .done wait).Only l.MayAsk :=
    fun wait => only_bind (l.only_tell _) fun _ => trivial
  refine only_bind (l.only_publish _) fun _ => only_bind (l.only_tell _) fun _ => ?_
  refine only_bind (only_ask (.inl (.inl trivial))) fun start => ?_
  refine only_bind (l.only_guardedPoll.mono fun _ h => .inl h) fun outcome => ?_
  cases outcome with
  | ok status =>
    refine only_bind (only_ask (.inl (.inl trivial))) fun stop => ?_
    exact only_bind (l.only_tell _) fun _ => only_bind (l.only_publish _) fun _ => hlast _
  | error e =>
    exact only_bind (l.only_tell _) fun _ => only_bind (l.only_publish _) fun _ => hlast _

/-- A round asks nothing but what its loop may ask. -/
theorem only_round : l.round.Only l.MayAsk := by
  refine only_bind (only_ask (.inl (.inl trivial))) fun stopping => ?_
  cases (stopping : Bool) with
  | true => exact only_bind (l.only_publish _) fun _ => trivial
  | false =>
    refine only_bind l.only_cycle fun wait => only_bind ?_ fun _ => trivial
    exact only_bind (only_ask (.inl (.inl trivial))) fun t => only_ask (.inl (.inl trivial))

end PollLoop

/-! ## The last round -/

namespace PollLoop

variable (l : PollLoop α)

/-- The last round finds the sign to stop and lets others know that the loop is stopped. -/
theorem returns_roundOf_false {poll : Action ω QueueError PollStatus} {es : List (Exchange ω)}
    (h : Returns (l.roundOf poll) es false) :
    es = [⟨.isStopping, true⟩, ⟨.publish l.id .stopped, ()⟩] := by
  obtain ⟨xs, ys, stopping, rfl, hsign, hrest⟩ := returns_bind h
  obtain rfl := returns_ask hsign
  cases (stopping : Bool) with
  | true =>
    change Returns (Process.bind (l.publish .stopped) fun _ => .done false) ys false at hrest
    obtain ⟨xs, zs, _, rfl, hpublish, hend⟩ := returns_bind hrest
    obtain rfl := returns_ask hpublish
    cases hend
    rfl
  | false =>
    change Returns (Process.bind (l.cycleOf poll) fun wait => (pause wait).bind fun _ => .done true)
      ys false at hrest
    obtain ⟨_, zs, wait, -, -, hpause⟩ := returns_bind hrest
    obtain ⟨_, _, _, -, -, hend⟩ := returns_bind hpause
    cases hend

/-- A round after which none follows has found the sign to stop, and has said that the loop is
stopped. -/
theorem returns_round_false {es : List (Exchange (Job α))} (h : Returns l.round es false) :
    es = [⟨.isStopping, true⟩, ⟨.publish l.id .stopped, ()⟩] :=
  l.returns_roundOf_false h

end PollLoop

/-! ## Panics -/

/-- Whatever it is told, the process does not panic. -/
def Process.NeverPanics {γ : Type} : Process ω γ → Prop
  | .done _ => True
  | .panic _ => False
  | .call _ next => ∀ reply, (next reply).NeverPanics

namespace Process

variable {δ : Type}

/-- A process that never panics comes to no panic. -/
theorem NeverPanics.not_runs {p : Process ω γ} (h : p.NeverPanics) {es : List (Exchange ω)}
    {cause : Panic} : ¬ Runs p es (.panic cause) := by
  intro hruns
  generalize hq : Process.panic cause = q at hruns
  induction hruns with
  | nil =>
    subst hq
    exact h
  | cons _ ih => exact ih (h _) hq

/-- A sequence never panics if its parts do not. -/
theorem neverPanics_bind {p : Process ω γ} {f : γ → Process ω δ} (hp : p.NeverPanics)
    (hf : ∀ a, (f a).NeverPanics) : (p.bind f).NeverPanics := by
  induction p with
  | done a => exact hf a
  | panic cause => exact hp.elim
  | call r next ih => exact fun reply => ih reply (hp reply)

/-- An attempt never panics, whatever it guards. -/
theorem neverPanics_attempt (p : Process ω γ) : p.attempt.NeverPanics := by
  induction p with
  | done a => trivial
  | panic cause => trivial
  | call r next ih => exact fun reply => ih reply

/-- A single request never panics. -/
theorem neverPanics_ask (r : Request ω) : (ask r).NeverPanics := fun _ => trivial

/-- An observer without a panic never panics. -/
theorem neverPanics_react {r : Reaction} (h : r.panic = none) :
    (react r : Process ω Unit).NeverPanics := by
  unfold react
  induction r.notices with
  | nil =>
    rw [h]
    trivial
  | cons notice rest ih => exact fun _ => ih

end Process

/-- The observer of a loop does not panic. -/
def PollLoop.Calm (l : PollLoop α) : Prop :=
  ∀ event, (l.listener l.shard l.location event).panic = none

/-- A loop whose observer does not panic does not panic itself, whatever happens to its polls. -/
theorem PollLoop.roundOf_neverPanics {l : PollLoop α} (h : l.Calm)
    (poll : Action ω QueueError PollStatus) : (l.roundOf poll).NeverPanics := by
  have htell : ∀ event, (l.tell event : Process ω Unit).NeverPanics :=
    fun event => neverPanics_react (h event)
  have hpublish : ∀ state, (l.publish state : Process ω Unit).NeverPanics :=
    fun state => neverPanics_ask _
  have hpoll : (guarded poll).NeverPanics := by
    refine neverPanics_bind (neverPanics_attempt _) fun outcome => ?_
    cases outcome <;> trivial
  have hcycle : (l.cycleOf poll).NeverPanics := by
    refine neverPanics_bind (hpublish _) fun _ => neverPanics_bind (htell _) fun _ => ?_
    refine neverPanics_bind (neverPanics_ask _) fun start => ?_
    refine neverPanics_bind hpoll fun outcome => ?_
    have hlast : ∀ wait : Duration,
        ((l.tell .finished : Process ω Unit).bind fun _ => .done wait).NeverPanics :=
      fun wait => neverPanics_bind (htell _) fun _ => trivial
    cases outcome with
    | ok status =>
      refine neverPanics_bind (neverPanics_ask _) fun stop => ?_
      exact neverPanics_bind (htell _) fun _ => neverPanics_bind (hpublish _) fun _ => hlast _
    | error e =>
      exact neverPanics_bind (htell _) fun _ => neverPanics_bind (hpublish _) fun _ => hlast _
  refine neverPanics_bind (neverPanics_ask _) fun stopping => ?_
  cases (stopping : Bool) with
  | true => exact neverPanics_bind (hpublish _) fun _ => trivial
  | false =>
    refine neverPanics_bind hcycle fun wait => neverPanics_bind ?_ fun _ => trivial
    exact neverPanics_bind (neverPanics_ask _) fun t => neverPanics_ask _

/-- The round of a loop with a calm observer never panics. -/
theorem PollLoop.round_neverPanics {l : PollLoop α} (h : l.Calm) : l.round.NeverPanics :=
  roundOf_neverPanics h l.runner.poll

end LeaseQueue
