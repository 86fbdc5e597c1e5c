import LeaseQueue.Runner
import LeaseQueue.StopSignal

/-!
# Polling loops

A loop polls one queue on one shard over and over.  Every cycle is one poll, told to an observer
from its start to its finish, and gives the wait that follows: one after a processed task, one after
an empty poll and one after a crash.  A crash ends the cycle, never the loop; the loop ends when it
finds itself stopped before a cycle.
-/

set_option autoImplicit false

namespace LeaseQueue

variable {α : Type}

/-- A poll with a crash in place of a panic. -/
def Process.guarded {ω γ : Type} (poll : Action ω QueueError γ) :
    Process ω (Except QueueError γ) :=
  poll.run.attempt.bind fun
    | .ok outcome => .done outcome
    | .error cause => .done (.error (.panic cause))

/-- The polling of one queue on one shard, over and over. -/
structure PollLoop (α : Type) where
  id : LoopId
  runner : Runner α
  listener : LoopListener

namespace PollLoop

/-- The shard that is polled. -/
def shard (l : PollLoop α) : ShardId := l.runner.processor.shard

/-- The queue that is polled. -/
def location (l : PollLoop α) : Location := l.runner.processor.location

/-- The settings of the queue. -/
def settings (l : PollLoop α) : Settings := l.runner.processor.consumer.config.settings

/-- Tells the observer of an event. -/
def tell {ω : Type} (l : PollLoop α) (event : LoopEvent) : Process ω Unit :=
  .react (l.listener l.shard l.location event)

/-- Lets others know what the loop is doing. -/
def publish {ω : Type} (l : PollLoop α) (state : LoopState) : Process ω Unit :=
  .ask (.publish l.id state)

/-- One cycle around any poll; gives the wait that follows. -/
def cycleOf {ω : Type} (l : PollLoop α) (poll : Action ω QueueError PollStatus) :
    Process ω Duration := do
  l.publish .running
  l.tell .started
  let start : Instant ← .ask .now
  let outcome ← Process.guarded poll
  let wait ← match outcome with
    | .ok status => do
      let stop : Instant ← .ask .now
      l.tell (.executed status (stop.elapsed start))
      l.publish .waiting
      pure (status.wait l.settings)
    | .error e => do
      l.tell (.crashed e)
      l.publish .crashed
      pure l.settings.fatalCrashTimeout
  l.tell .finished
  pure wait

/-- A poll of the loop with a crash in place of a panic. -/
def guardedPoll (l : PollLoop α) : Process (Job α) (Except QueueError PollStatus) :=
  .guarded l.runner.poll

/-- One cycle; gives the wait that follows. -/
def cycle (l : PollLoop α) : Process (Job α) Duration := l.cycleOf l.runner.poll

/-- A given number of cycles, each with its wait, until the loop stops; the waits are only noted,
and the clock may be moved on by each. -/
def rehearse (l : PollLoop α) (advance : Bool) : Nat → Process (Job α) (List Duration)
  | 0 => do
    l.publish .stopped
    pure []
  | cycles + 1 => do
    let wait ← l.cycle
    if advance then .ask (.advance wait)
    let waits ← l.rehearse advance cycles
    pure (wait :: waits)

end PollLoop

/-- A wait that ends early when the loops are told to stop. -/
def pause {ω : Type} (d : Duration) : Process ω Unit := do
  let t : Tick ← .ask .tick
  .ask (.pauseUntil (waitEnd t d))

/-- One round around any poll: true if another one follows. -/
def PollLoop.roundOf {ω : Type} (l : PollLoop α) (poll : Action ω QueueError PollStatus) :
    Process ω Bool := do
  let stopping : Bool ← .ask .isStopping
  if stopping then
    l.publish .stopped
    pure false
  else
    let wait ← l.cycleOf poll
    pause wait
    pure true

/-- One round of a loop in a pool: true if another one follows. -/
def PollLoop.round (l : PollLoop α) : Process (Job α) Bool := l.roundOf l.runner.poll

end LeaseQueue
