import LeaseQueue.Schedule
import LeaseQueue.Task

/-!
# Failures

The causes for which an operation of a store, a codec, a task, a poll or a pool fails, and the
wording of each.  A failure that is not reported but thrown through the running program is a panic.
-/

set_option autoImplicit false

namespace LeaseQueue

/-- What a program throws when it panics. -/
inductive Panic
  | text (message : String)
  /-- Something that is no text. -/
  | other
deriving DecidableEq, Repr

/-- The text of a panic, if it has one. -/
def Panic.text? : Panic → Option String
  | .text message => some message
  | .other => none

/-- The operations of a store that can be made to fail. -/
inductive StorePoint
  | begin
  | enqueue
  | pick
  | delete
  | reenqueue
  | commit
  | rollback
deriving DecidableEq, Repr

instance : Named StorePoint where
  all := [.begin, .enqueue, .pick, .delete, .reenqueue, .commit, .rollback]
  name
    | .begin => "begin"
    | .enqueue => "enqueue"
    | .pick => "pick"
    | .delete => "delete"
    | .reenqueue => "reenqueue"
    | .commit => "commit"
    | .rollback => "rollback"

/-- Why the database did not answer. -/
inductive Outage
  | unavailable
  | injected (point : StorePoint)
deriving DecidableEq, Repr

/-- Why an operation of a store fails. -/
inductive StoreError
  | database (cause : Outage)
  | delayOutOfRange (delay : Duration)
  | transactionFinished
deriving DecidableEq, Repr

/-- The wording of each cause. -/
def StoreError.message : StoreError → String
  | .database .unavailable => "database error: store is unavailable"
  | .database (.injected point) => "database error: injected " ++ Named.name point
  | .delayOutOfRange delay => "delay out of range: " ++ delay.display
  | .transactionFinished => "transaction is already finished"

/-- Why a payload cannot be converted. -/
inductive PayloadError
  | unreadable
  | unwritable (reason : String)
  | missing
deriving DecidableEq, Repr

/-- The wording of each cause. -/
def PayloadError.message : PayloadError → String
  | .unreadable => "failed to deserialize payload"
  | .unwritable reason => "failed to serialize payload: " ++ reason
  | .missing => "task has no payload"

/-- Why a task or a poll crashes. -/
inductive QueueError
  | store (cause : StoreError)
  | payload (cause : PayloadError)
  | retry (cause : RetryError)
  | config (cause : ConfigError)
  /-- The consumer failed; the outermost context of its error comes first. -/
  | consumer (causes : List String)
  | panic (cause : Panic)
  | shardNotFound (shard : ShardId)
  | executorMissing (location : Location)
  | executorClosed
deriving DecidableEq

/-- The wording of each cause. -/
def QueueError.message : QueueError → String
  | .store cause => cause.message
  | .payload cause => cause.message
  | .retry cause => cause.message
  | .config cause => cause.message
  | .consumer causes => "consumer failed: " ++ ": ".intercalate causes
  | .panic cause => "panicked: " ++ cause.text?.getD "unknown panic payload"
  | .shardNotFound shard => "shard not found: " ++ shard.name
  | .executorMissing location => "external executor missing for queue " ++ location.display
  | .executorClosed => "external executor rejected the task: executor is shut down"

/-- Why a pool does not start or stop. -/
inductive PoolError
  | alreadyRunning
  | shutdownTimeout
  | executorsShutDown
  | queue (cause : QueueError)
deriving DecidableEq

/-- The wording of each cause. -/
def PoolError.message : PoolError → String
  | .alreadyRunning => "execution pool is already running"
  | .shutdownTimeout => "graceful shutdown timed out"
  | .executorsShutDown =>
    "external executors were shut down; build a new pool with fresh executors"
  | .queue cause => cause.message

end LeaseQueue
