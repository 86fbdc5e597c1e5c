import LeaseQueue.Codec
import LeaseQueue.Session

/-!
# Consumers and producers

A consumer works on the tasks of one queue.  How it handles a task may depend on how often it has
been called, and while it does so it may give notices, move the clock, cut a database off and wait
at gates; in the end it gives a verdict, fails or panics.

A producer puts tasks into one queue, each into the store of the shard that its router names.
-/

set_option autoImplicit false

namespace LeaseQueue

variable {ω α : Type}

/-- What a consumer does before it comes to its end. -/
inductive Effect
  | announce (notice : Notice)
  | advance (duration : Duration)
  | outage (shard : ShardId) (on : Bool)
  /-- Waits until a gate is open. -/
  | pass (gate : String)

/-- How a consumer comes to its end. -/
inductive Ending
  | verdict (verdict : Verdict)
  /-- An error with its contexts, the outermost first. -/
  | error (causes : List String)
  | panic (cause : Panic)
deriving DecidableEq

/-- All that a consumer does with one task. -/
structure Handling where
  effects : List Effect
  ending : Ending

/-- The consumer of one queue. -/
structure Consumer (α : Type) where
  /-- The number under which its calls are counted. -/
  number : Nat
  config : QueueConfig
  codec : Codec α
  router : Router α
  /-- What is done with a task, given the number of calls before. -/
  handle : Nat → Task α → Handling

/-- One effect of a consumer. -/
def Effect.process : Effect → Process ω Unit
  | .announce notice => .ask (.report notice)
  | .advance duration => .ask (.advance duration)
  | .outage shard on => .ask (.outage shard on)
  | .pass gate => .ask (.pass gate)

/-- The end of a consumer. -/
def Ending.process : Ending → Action ω QueueError Verdict
  | .verdict v => pure v
  | .error causes => throw (.consumer causes)
  | .panic cause => ExceptT.lift (.panic cause)

/-- Effects, one after the other. -/
def Effect.processAll : List Effect → Process ω Unit
  | [] => .done ()
  | effect :: rest => effect.process.bind fun _ => processAll rest

/-- All that a consumer does with one task. -/
def Handling.process (h : Handling) : Action ω QueueError Verdict := do
  ExceptT.lift (Effect.processAll h.effects)
  h.ending.process

/-- A call of a consumer. -/
def Consumer.execute (c : Consumer α) (task : Task α) : Action ω QueueError Verdict := do
  let calls ← ExceptT.lift (.ask (.invocation c.number))
  (c.handle calls task).process

/-- The producer of one queue. -/
structure Producer (α : Type) where
  config : QueueConfig
  codec : Codec α
  router : Router α
  /-- The shards whose stores it knows. -/
  shards : List ShardId

/-- Where a task was put. -/
structure Receipt where
  shard : ShardId
  id : TaskId
deriving DecidableEq

/-- Puts a task in, in a transaction of its own. -/
def Producer.enqueue (p : Producer α) (task : Submission α) : Action ω QueueError Receipt := do
  let shard := p.router.route task
  if shard ∈ p.shards then
    match p.codec.write task.payload with
    | .error e => throw (.payload e)
    | .ok payload =>
      withTransaction shard fun tx => do
        let id ← storing <| Session.enqueue tx p.config.location {
          payload := payload
          delay := task.delay
          correlationId := task.correlationId
          actor := task.actor }
        storing (Session.commit tx)
        pure ⟨shard, id⟩
  else throw (.shardNotFound shard)

end LeaseQueue
