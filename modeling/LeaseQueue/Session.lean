import LeaseQueue.Process

/-!
# Talking to stores

The operations of a store as steps of a process.  An operation first asks whether it has been made
to fail; the one that may have to wait is the last request, so it can be asked again.  A transaction
that is used through `withTransaction` is abandoned at the end, whatever happens inside, and that
has no effect on one that has been committed.
-/

set_option autoImplicit false

namespace LeaseQueue

variable {ω α : Type}

/-- A part of a process that may fail. -/
abbrev Action (ω ε α : Type) := ExceptT ε (Process ω) α

namespace Session

/-- A request whose answer may be a failure. -/
def request {ε : Type} (p : Process ω (Except ε α)) : Action ω ε α := ExceptT.mk p

/-- Fails if the next call of an operation has been made to fail. -/
def probe (shard : ShardId) (point : StorePoint) : Action ω StoreError Unit :=
  request (.ask (.probe shard point))

/-- The reading of the clock. -/
def now {ε : Type} : Action ω ε Instant := ExceptT.lift (.ask .now)

/-- Opens a transaction. -/
def begin (shard : ShardId) : Action ω StoreError Handle := do
  probe shard .begin
  request (.ask (.begin shard))

/-- Puts a task in. -/
def enqueue (tx : Handle) (location : Location) (task : NewTask) :
    Action ω StoreError TaskId := do
  probe tx.shard .enqueue
  request (.ask (.enqueue tx location task))

/-- Picks a task. -/
def pick (tx : Handle) (location : Location) (lease : LeaseSchedule) :
    Action ω StoreError (Option TaskRecord) := do
  probe tx.shard .pick
  request (.ask (.pick tx location lease))

/-- Deletes a task, which may have to wait. -/
def delete (tx : Handle) (location : Location) (id : TaskId) : Action ω StoreError Bool := do
  probe tx.shard .delete
  request (.ask (.delete tx location id))

/-- Lets a task run again after a delay from now, which may have to wait. -/
def reenqueue (tx : Handle) (location : Location) (id : TaskId) (delay : Duration)
    (fresh : Bool) : Action ω StoreError Bool := do
  probe tx.shard .reenqueue
  let asOf ← now
  request (.ask (.reenqueue tx asOf location id delay fresh))

/-- Ends a transaction and keeps its changes. -/
def commit (tx : Handle) : Action ω StoreError Unit := do
  probe tx.shard .commit
  request (.ask (.commit tx))

/-- Ends a transaction and takes its changes back. -/
def rollback (tx : Handle) : Action ω StoreError Unit := do
  probe tx.shard .rollback
  request (.ask (.rollback tx))

end Session

/-- A failure of a store as a failure of a queue. -/
def storing (a : Action ω StoreError α) : Action ω QueueError α :=
  ExceptT.mk (a.run.bind fun r => .done (r.mapError QueueError.store))

/-- A transaction for one part of a process. -/
def withTransaction (shard : ShardId) (body : Handle → Action ω QueueError α) :
    Action ω QueueError α := do
  let tx ← storing (Session.begin shard)
  ExceptT.mk ((body tx).run.followedBy (.ask (.abandon tx)))

end LeaseQueue
