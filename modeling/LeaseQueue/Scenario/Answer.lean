import LeaseQueue.Registry

/-!
# Answers to the steps of a scenario

What a step of a scenario comes to, together with what was seen while it ran and which earlier
operations came to their end meanwhile.
-/

set_option autoImplicit false

namespace LeaseQueue.Scenario

/-- What a step comes to. -/
inductive Answer
  | done
  | begun (tx : Handle)
  | added (id : TaskId)
  | picked (record : Option TaskRecord)
  | flag (value : Bool)
  | polled (status : PollStatus)
  | produced (receipt : Receipt)
  | cycled (wait : Duration) (state : LoopState)
  | rehearsed (waits : List Duration) (state : LoopState)
  | loopEntry (shard : ShardId) (location : Location) (state : LoopState)
  | jobs (active : Nat)
  | executor (active limit : Nat)
  | clock (now : Instant)
  | number (n : Nat)
  | rows (records : List TaskRecord)
  | poolStatus (status : PoolStatus)
  | loopStates (entries : List (ShardId × Location × LoopState))
  | wiring (outline : Wiring.Outline)
  /-- The operation is still under way. -/
  | pending
  /-- There is no transaction of that name. -/
  | noTransaction
  /-- The transaction is waiting inside another operation. -/
  | busy
  /-- A panic left the operation. -/
  | escaped (cause : Panic)
  | storeFailed (error : StoreError)
  | queueFailed (error : QueueError)
  | configFailed (error : ConfigError)
  | poolFailed (error : PoolError)

/-- The answer of an operation that may fail with the error of a store. -/
def Answer.ofStore {α : Type} (f : α → Answer) : Except StoreError α → Answer
  | .ok a => f a
  | .error e => .storeFailed e

/-- The answer of an operation that may fail with the error of a queue. -/
def Answer.ofQueue {α : Type} (f : α → Answer) : Except QueueError α → Answer
  | .ok a => f a
  | .error e => .queueFailed e

/-- The answer of an operation that has ended. -/
def Answer.ofOutcome : Except Panic Answer → Answer
  | .ok a => a
  | .error cause => .escaped cause

/-- Whether a panic left the operation. -/
def Answer.isEscaped : Answer → Bool
  | .escaped _ => true
  | _ => false

/-- What one step comes to and what was seen of it. -/
structure StepAnswer where
  result : Answer
  /-- What was seen, with the time that passes while processes sleep. -/
  events : List (Tick × Notice)
  /-- Earlier operations that ended during the step, by their labels and in the order of their
  ends. -/
  ended : List (String × Answer)

end LeaseQueue.Scenario
