import LeaseQueue.Json.Printer
import LeaseQueue.Pool
import LeaseQueue.Scenario.Run

/-!
# Scenarios over a pool

The steps of such a scenario start, watch and stop a pool, put tasks in and change the world around
it.  Time passes only while a step sleeps or waits for the pool to stop; after every step all that
can go on does so.  A stop may also be left under way; its result is reported when it has one.
-/

set_option autoImplicit false

namespace LeaseQueue.Scenario

/-- One step. -/
inductive PoolStep
  | start
  /-- Stops the pool and waits for it, or leaves it under way. -/
  | shutdown (background : Bool)
  | status
  | states
  | sleep (d : Duration)
  | wiring
  /-- A step that has nothing to do with the pool. -/
  | plain (step : Step)

/-- A pool in a world. -/
structure PoolRun where
  run : Run
  pool : Pool String

/-- Starts an operation and lets time pass until it has ended. -/
def Run.await (r : Run) (p : Process (Job String) Answer) : Run × StepAnswer :=
  let id := r.world.nextFiber
  let world :=
    (r.world.spawn (.operation p)).settleThrough Job.work World.turnLimit id World.turnLimit
  let r := { r with world := world }.settle
  match r.world.results.find? fun e => e.1 == id with
  | some (_, outcome) => r.collect (Answer.ofOutcome outcome)
  | none => r.collect .pending

/-- Starts an operation that is reported at its end, be it in this step or in a later one. -/
def Run.leave (r : Run) (label : String) (p : Process (Job String) Answer) : Run × StepAnswer :=
  let id := r.world.nextFiber
  { r with
    world := r.world.spawn (.operation p)
    labels := r.labels.insert id label }.settle.collect .done

/-- Lets time pass. -/
def sleepProcess (d : Duration) : Process (Job String) Answer := do
  let now : Tick ← .ask .tick
  .ask (.sleepUntil (waitEnd now d))
  pure .done

/-- The answer of a pool that did what it was told, or did not. -/
def ofPool : Except PoolError Unit → Answer
  | .ok () => .done
  | .error e => .poolFailed e

/-- The stop of a pool, with its answer. -/
def stopProcess (p : Pool String) : Process (Job String) Answer :=
  p.shutdown.bind fun result => .done (ofPool result)

/-- The JSON text of the state of a loop, by which states are sorted. -/
def stateText (e : LoopEntry) : String :=
  (Json.array [.ofString e.shard.name, .ofString e.location.display,
    .ofString (Named.name e.state)]).print

/-- The states of the loops in the order of their texts. -/
def sortedStates (states : List LoopEntry) : List (ShardId × Location × LoopState) :=
  (states.mergeSort fun a b => (compare (stateText a) (stateText b)).isLE).map fun e =>
    (e.shard, e.location, e.state)

namespace PoolRun

/-- The start: the executors are numbered in the order of their limits. -/
def initial (clock : Instant) (shards : List ShardId) (limits : List Nat) (queues : List QueueSpec)
    (pool : Pool String) : PoolRun where
  run := { Run.initial clock shards [] queues with
    world := .initial clock shards (limits.map Executor.make) }
  pool := pool

/-- The run after a step of its world.  A stop that was left under way and has panicked is not
reported: its result has gone with it. -/
def after (r : PoolRun) (step : Run × StepAnswer) : PoolRun × StepAnswer :=
  ({ r with run := step.1 },
    { step.2 with ended := step.2.ended.filter fun e => !e.2.isEscaped })

/-- One step. -/
def step (r : PoolRun) : PoolStep → PoolRun × StepAnswer
  | .start =>
    let (world, result) := r.pool.start r.run.world
    r.after ({ r.run with world := world }.settle.collect (ofPool result))
  | .shutdown false => r.after (r.run.await (stopProcess r.pool))
  | .shutdown true => r.after (r.run.leave "shutdown" (stopProcess r.pool))
  | .status => r.after (r.run.collect (.poolStatus r.run.world.pool.status))
  | .states => r.after (r.run.collect (.loopStates (sortedStates (Pool.loopStates r.run.world))))
  | .sleep d => r.after (r.run.await (sleepProcess d))
  | .wiring => r.after (r.run.collect (.wiring r.pool.wiring.outline))
  | .plain s => r.after (r.run.step "" s)

/-- All steps, one after the other. -/
def steps (r : PoolRun) : List PoolStep → List StepAnswer
  | [] => []
  | s :: rest =>
    let (r, answer) := r.step s
    answer :: r.steps rest

end PoolRun

end LeaseQueue.Scenario
