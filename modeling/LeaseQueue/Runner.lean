import LeaseQueue.Consumer

/-!
# Runners

A runner polls one queue on one shard: it picks at most one task and sees it through.  How the pick,
the work and the outcome share transactions depends on the queue's processing mode.

Nothing that goes wrong with a task fails the poll: reading the payload, the consumer and recording
the verdict may each fail or panic, and all of it ends as a crash of the task, which then keeps the
lease of its pick.
-/

set_option autoImplicit false

namespace LeaseQueue

variable {ω α : Type}

/-- How a verdict changes the row of its task. -/
inductive Outcome
  | delete
  | reschedule (delay : Duration) (fresh : Bool)
  | keep
deriving DecidableEq

/-- Where and how the verdicts of one queue on one shard are recorded. -/
structure Recorder where
  shard : ShardId
  location : Location
  reenqueue : ReenqueueSchedule

namespace Recorder

/-- The change that a verdict asks for. -/
def outcome (r : Recorder) (record : TaskRecord) : Verdict → Except RetryError Outcome
  | .finish => .ok .delete
  | .reenqueue (some delay) => .ok (.reschedule delay true)
  | .reenqueue none =>
    (r.reenqueue.delay record.id record.attempts).map fun delay => .reschedule delay true
  | .fail (some delay) => .ok (.reschedule delay false)
  | .fail none => .ok .keep

/-- Changes a row inside a transaction; a row that is gone is left alone. -/
def apply (r : Recorder) (tx : Handle) (id : TaskId) : Outcome → Action ω QueueError Unit
  | .delete => do
    let _ ← storing (Session.delete tx r.location id)
  | .reschedule delay fresh => do
    let _ ← storing (Session.reenqueue tx r.location id delay fresh)
  | .keep => pure ()

/-- Records a verdict in a given transaction, or else in one of its own.  A verdict that changes
nothing needs none. -/
def record (r : Recorder) (record : TaskRecord) (verdict : Verdict) (tx : Option Handle) :
    Action ω QueueError Unit :=
  match r.outcome record verdict with
  | .error e => throw (.retry e)
  | .ok .keep => pure ()
  | .ok outcome =>
    match tx with
    | some tx => r.apply tx record.id outcome
    | none =>
      withTransaction r.shard fun tx => do
        r.apply tx record.id outcome
        storing (Session.commit tx)

end Recorder

/-- All that working on the tasks of one queue on one shard needs. -/
structure Processor (α : Type) where
  shard : ShardId
  consumer : Consumer α
  listener : TaskListener
  reenqueue : ReenqueueSchedule

namespace Processor

/-- The queue's location. -/
def location (p : Processor α) : Location := p.consumer.config.location

/-- The recorder of the queue's verdicts. -/
def recorder (p : Processor α) : Recorder := ⟨p.shard, p.location, p.reenqueue⟩

/-- Tells the observer of an event. -/
def tell (p : Processor α) (event : TaskEvent) : Process ω Unit :=
  .react (p.listener p.shard p.location event)

/-- The task of a row. -/
def task (p : Processor α) (record : TaskRecord) : Action ω QueueError (Task α) :=
  match p.consumer.codec.read record.payload with
  | .value payload => pure (.ofRecord p.shard payload record)
  | .unreadable => throw (.payload .unreadable)
  | .panics cause => ExceptT.lift (.panic cause)

/-- Reads the payload, calls the consumer and records its verdict. -/
def execute (p : Processor α) (record : TaskRecord) (tx : Option Handle) :
    Action ω QueueError Unit := do
  let task ← p.task record
  let start ← Session.now
  let verdict ← p.consumer.execute task
  let stop ← Session.now
  ExceptT.lift (p.tell (.executed record verdict (stop.elapsed start)))
  p.recorder.record record verdict tx

/-- Works on a picked task; whatever goes wrong is told to the observer. -/
def process (p : Processor α) (record : TaskRecord) (tx : Option Handle) : Process ω Unit := do
  p.tell (.started record)
  match ← (p.execute record tx).run.attempt with
  | .ok (.ok ()) => pure ()
  | .ok (.error e) => p.tell (.crashed record e)
  | .error cause => p.tell (.crashed record (.panic cause))
  p.tell (.finished record)

end Processor

/-- A picked task that is handed over to an executor. -/
structure Job (α : Type) where
  processor : Processor α
  record : TaskRecord

/-- The work of a job. -/
def Job.work (job : Job α) : Process (Job α) Unit := job.processor.process job.record none

/-- Picks a task inside a transaction and tells the observer of it. -/
def pickTask (shard : ShardId) (location : Location) (lease : LeaseSchedule)
    (listener : TaskListener) (tx : Handle) : Action ω StoreError (Option TaskRecord) := do
  let start ← Session.now
  match ← Session.pick tx location lease with
  | none => pure none
  | some record =>
    let stop ← Session.now
    ExceptT.lift (.react (listener shard location (.picked record (stop.elapsed start))))
    pure (some record)

/-- The transaction boundary of a runner. -/
inductive Boundary
  /-- The pick and the outcome have transactions of their own. -/
  | separate
  /-- The pick, the work and the outcome share one transaction. -/
  | shared
  /-- The pick has its own transaction and the rest is handed over to an executor. -/
  | handedOver (executor : ExecutorId)
deriving DecidableEq

/-- The polling of one queue on one shard. -/
structure Runner (α : Type) where
  processor : Processor α
  lease : LeaseSchedule
  boundary : Boundary

namespace Runner

/-- The runner that a consumer's settings ask for. -/
def make (consumer : Consumer α) (shard : ShardId) (listener : TaskListener)
    (executor : Option ExecutorId) : Except QueueError (Runner α) := do
  let settings := consumer.config.settings
  let lease ← (LeaseSchedule.ofSettings settings).mapError .config
  let reenqueue ← (ReenqueueSchedule.ofSettings settings).mapError .config
  let processor : Processor α := ⟨shard, consumer, listener, reenqueue⟩
  match settings.mode, executor with
  | .separateTransactions, _ => pure ⟨processor, lease, .separate⟩
  | .wrapInTransaction, _ => pure ⟨processor, lease, .shared⟩
  | .useExternalExecutor, some executor => pure ⟨processor, lease, .handedOver executor⟩
  | .useExternalExecutor, none => throw (.executorMissing consumer.config.location)

/-- Picks a task inside a transaction. -/
def pick (r : Runner α) (tx : Handle) : Action ω QueueError (Option TaskRecord) :=
  storing (pickTask r.processor.shard r.processor.location r.lease r.processor.listener tx)

/-- Picks a task in a transaction of its own, so that the lease is committed before the work. -/
def pickAndCommit (r : Runner α) : Action ω QueueError (Option TaskRecord) :=
  withTransaction r.processor.shard fun tx => do
    let picked ← r.pick tx
    storing (Session.commit tx)
    pure picked

/-- A poll with separate transactions. -/
def pollSeparate (r : Runner α) : Action ω QueueError PollStatus := do
  match ← r.pickAndCommit with
  | none => pure .skipped
  | some record =>
    ExceptT.lift (r.processor.process record none)
    pure .processed

/-- A poll in one transaction, which is committed even if the task crashed. -/
def pollShared (r : Runner α) : Action ω QueueError PollStatus :=
  withTransaction r.processor.shard fun tx => do
    match ← r.pick tx with
    | none =>
      storing (Session.commit tx)
      pure .skipped
    | some record =>
      ExceptT.lift (r.processor.process record (some tx))
      storing (Session.commit tx)
      pure .processed

/-- A poll that hands the work over; it is done once the executor has taken the work. -/
def pollHandingOver (r : Runner α) (executor : ExecutorId) :
    Action (Job α) QueueError PollStatus := do
  match ← r.pickAndCommit with
  | none => pure .skipped
  | some record =>
    let granted : Bool ← ExceptT.lift (.ask (.slot executor))
    if granted then
      ExceptT.lift (.ask (.handOver executor ⟨r.processor, record⟩))
      pure .processed
    else throw .executorClosed

/-- One poll: picks at most one task and sees it through. -/
def poll (r : Runner α) : Action (Job α) QueueError PollStatus :=
  match r.boundary with
  | .separate => r.pollSeparate
  | .shared => r.pollShared
  | .handedOver executor => r.pollHandingOver executor

end Runner

end LeaseQueue
