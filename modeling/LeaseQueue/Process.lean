import LeaseQueue.Event
import LeaseQueue.Status
import LeaseQueue.Store

/-!
# Processes

A process is a program that talks to the world one request at a time: it is done, has panicked, or
waits for the answer to a request.  Nothing happens between two requests of a process that the
process itself does not see, so a run of several processes is an interleaving of their requests.

A request that cannot be answered yet is asked again later; it therefore carries all that its
meaning depends on, such as the time from which a delay counts.

The type parameter `ω` is the type of the jobs that processes hand over to executors.
-/

set_option autoImplicit false

namespace LeaseQueue

/-- A transaction of one of the shards. -/
structure Handle where
  shard : ShardId
  transaction : TransactionId
deriving DecidableEq

/-- The number of an executor. -/
abbrev ExecutorId := Nat

/-- The number of a polling loop. -/
abbrev LoopId := Nat

/-- The number of a running process. -/
abbrev FiberId := Nat

/-- A point of the time that passes while processes sleep, in nanoseconds from its start. -/
abbrev Tick := Nat

/-- What a process can ask of the world. -/
inductive Request (ω : Type)
  /-- The reading of the clock. -/
  | now
  /-- Moves the clock on. -/
  | advance (duration : Duration)
  | report (notice : Notice)
  /-- Whether an operation of a store has been made to fail this time. -/
  | probe (shard : ShardId) (point : StorePoint)
  | begin (shard : ShardId)
  | enqueue (tx : Handle) (location : Location) (task : NewTask)
  | pick (tx : Handle) (location : Location) (lease : LeaseSchedule)
  | delete (tx : Handle) (location : Location) (id : TaskId)
  | reenqueue (tx : Handle) (asOf : Instant) (location : Location) (id : TaskId)
      (delay : Duration) (fresh : Bool)
  | commit (tx : Handle)
  | rollback (tx : Handle)
  | abandon (tx : Handle)
  /-- Cuts the database of a shard off, or brings it back. -/
  | outage (shard : ShardId) (on : Bool)
  /-- How often the consumer with this number has been called before. -/
  | invocation (consumer : Nat)
  /-- Waits until a gate is open. -/
  | pass (gate : String)
  /-- Waits until a gate is open; false once a point of time is over. -/
  | passBefore (gate : String) (deadline : Tick)
  /-- Waits for a free slot of an executor; false once the executor is closed. -/
  | slot (executor : ExecutorId)
  /-- Starts a job in the slot that was granted. -/
  | handOver (executor : ExecutorId) (job : ω)
  | close (executor : ExecutorId)
  /-- Waits until a closed executor has no unfinished job; false once a point of time is over. -/
  | drained (executor : ExecutorId) (deadline : Option Tick)
  | activeJobs (executor : ExecutorId)
  | publish (loop : LoopId) (state : LoopState)
  | loopState (loop : LoopId)
  /-- The time that passes while processes sleep. -/
  | tick
  | sleepUntil (t : Tick)
  /-- Waits until a point of time, or until the loops are told to stop. -/
  | pauseUntil (t : Tick)
  | isStopping
  | signalStop (on : Bool)
  /-- Takes over the stopping of a running pool; false if it is not running. -/
  | beginDraining
  /-- Takes over the processes of the loops. -/
  | takeLoops
  /-- Waits until processes have ended; false once a point of time is over. -/
  | ended (fibers : List FiberId) (deadline : Tick)
  | abort (fibers : List FiberId)
  /-- Notes that executors are shut down from now on, as the hook of this one is called. -/
  | enterHook (executor : ExecutorId)
  | endDraining

/-- The type of the answer to a request. -/
def Request.Reply {ω : Type} : Request ω → Type
  | .now => Instant
  | .probe .. => Except StoreError Unit
  | .begin _ => Except StoreError Handle
  | .enqueue .. => Except StoreError TaskId
  | .pick .. => Except StoreError (Option TaskRecord)
  | .delete .. => Except StoreError Bool
  | .reenqueue .. => Except StoreError Bool
  | .commit _ => Except StoreError Unit
  | .rollback _ => Except StoreError Unit
  | .invocation _ => Nat
  | .passBefore .. => Bool
  | .slot _ => Bool
  | .drained .. => Bool
  | .activeJobs _ => Nat
  | .loopState _ => LoopState
  | .tick => Tick
  | .isStopping => Bool
  | .beginDraining => Bool
  | .takeLoops => List FiberId
  | .ended .. => Bool
  | _ => Unit

/-- A program that talks to the world. -/
inductive Process (ω α : Type)
  | done (result : α)
  | panic (cause : Panic)
  | call (request : Request ω) (next : request.Reply → Process ω α)

namespace Process

variable {ω α β : Type}

/-- Goes on with the result of a process. -/
def bind (p : Process ω α) (f : α → Process ω β) : Process ω β :=
  match p with
  | .done a => f a
  | .panic cause => .panic cause
  | .call r next => .call r fun reply => (next reply).bind f

instance : Monad (Process ω) where
  pure := .done
  bind := bind

/-- Asks one thing. -/
def ask (r : Request ω) : Process ω r.Reply := .call r .done

/-- Catches a panic. -/
def attempt : Process ω α → Process ω (Except Panic α)
  | .done a => .done (.ok a)
  | .panic cause => .done (.error cause)
  | .call r next => .call r fun reply => (next reply).attempt

/-- Goes on with the result of a process, or throws its panic again, after a last action that is
taken in both cases. -/
def followedBy (p : Process ω α) (last : Process ω Unit) : Process ω α :=
  p.attempt.bind fun outcome =>
    last.bind fun _ =>
      match outcome with
      | .ok a => .done a
      | .error cause => .panic cause

/-- Gives notices and panics if asked to. -/
def react (r : Reaction) : Process ω Unit :=
  r.notices.foldr (fun n p => .call (.report n) fun _ => p)
    (match r.panic with
      | some cause => .panic cause
      | none => .done ())

end Process

end LeaseQueue
