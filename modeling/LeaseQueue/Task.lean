import LeaseQueue.Instant
import LeaseQueue.Location
import LeaseQueue.Settings
import LeaseQueue.Text.Numeral

/-!
# Tasks

A task is a row of a queue's table.  This module holds the row, what is inserted, the view that a
consumer gets, the verdict of a consumer and the outcome of a poll.
-/

set_option autoImplicit false

namespace LeaseQueue

open Text

/-- The identifier of a row, unique within its shard. -/
abbrev TaskId := Int

/-- One row of a queue's table. -/
structure TaskRecord where
  id : TaskId
  /-- The stored payload. -/
  payload : Option String
  /-- The number of picks since the task was put in or started afresh. -/
  attempts : Nat
  created : Instant
  /-- The earliest time of the next pick; the end of the lease while the task is worked on. -/
  processTime : Instant
  correlationId : Option String
  actor : Option String
deriving DecidableEq

/-- A task to put in. -/
structure NewTask where
  payload : Option String
  delay : Duration
  correlationId : Option String
  actor : Option String
deriving DecidableEq

/-- What a consumer gets for one run. -/
structure Task (α : Type) where
  shard : ShardId
  payload : Option α
  attempts : Nat
  created : Instant
  correlationId : Option String
  actor : Option String
deriving DecidableEq

/-- The view of a row whose payload has been read. -/
def Task.ofRecord {α : Type} (shard : ShardId) (payload : Option α) (record : TaskRecord) :
    Task α where
  shard := shard
  payload := payload
  attempts := record.attempts
  created := record.created
  correlationId := record.correlationId
  actor := record.actor

/-- What a producer is asked to put in. -/
structure Submission (α : Type) where
  payload : Option α
  delay : Duration
  correlationId : Option String
  actor : Option String
deriving DecidableEq

/-- What a consumer decided about a task. -/
inductive Verdict
  /-- The task is done and its row goes. -/
  | finish
  /-- The task runs again as a fresh one, after a delay of its own or of the schedule. -/
  | reenqueue (delay : Option Duration)
  /-- The task runs again with its attempts kept, after a delay of its own or its lease. -/
  | fail (delay : Option Duration)
deriving DecidableEq, Repr

namespace Verdict

/-- The delay that the verdict names. -/
def delay : Verdict → Option Duration
  | finish => none
  | reenqueue delay => delay
  | fail delay => delay

/-- The verdict without its delay. -/
def action : Verdict → String
  | finish => "finish"
  | reenqueue _ => "reenqueue"
  | fail _ => "fail"

/-- The text form: the action, and the delay in brackets. -/
def display (v : Verdict) : String :=
  match v.delay with
  | some delay => v.action ++ "(" ++ delay.display ++ ")"
  | none => v.action

end Verdict

/-- The outcome of a poll. -/
inductive PollStatus
  /-- A task was picked and worked on, or handed over. -/
  | processed
  /-- There was nothing to pick. -/
  | skipped
deriving DecidableEq, Repr

namespace PollStatus

/-- The word for the outcome. -/
def name : PollStatus → String
  | processed => "processed"
  | skipped => "skipped"

/-- The wait after a poll with this outcome. -/
def wait (status : PollStatus) (settings : Settings) : Duration :=
  match status with
  | processed => settings.betweenTaskTimeout
  | skipped => settings.noTaskTimeout

end PollStatus

/-- One more attempt; the count stops at the largest number of 32 bits. -/
def nextAttempts (attempts : Nat) : Nat := min (attempts + 1) maxWord32

end LeaseQueue
