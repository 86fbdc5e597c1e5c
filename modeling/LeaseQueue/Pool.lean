import LeaseQueue.Registry
import LeaseQueue.World

/-!
# Pools

A pool runs one loop for every queue of a wiring and every shard that the queue's router names.  All
runners are made before the first loop starts, so a start that fails leaves nothing running.

Stopping a pool tells its loops to stop, which they do before their next cycle, and waits for their
ends up to a deadline, at which those still there are called off; then it calls the hooks of the
executors one after the other, each of which is given up at the same deadline.  Executors are shut
down for good, so a pool with executors starts only once.  A hook that panics takes the stopping of
the pool with it.

What is logged besides the reports of observers is left out.
-/

set_option autoImplicit false

namespace LeaseQueue

variable {α β : Type}

/-- A wiring and how it is run. -/
structure Pool (α : Type) where
  wiring : Wiring α
  config : PoolConfig

/-- A loop that is about to start: its runner and its observer. -/
structure PlannedLoop (α : Type) where
  runner : Runner α
  listener : LoopListener

namespace Pool

/-- The loop of a queue on a shard. -/
def planLoop (p : Pool α) (l : Location) (consumer : Consumer α) (shard : ShardId) :
    Except QueueError (PlannedLoop α) :=
  if p.wiring.shards.contains shard then
    let executor := (p.wiring.executors.get? l).map External.executor
    (Runner.make consumer shard (p.wiring.taskListener l) executor).map
      fun runner => ⟨runner, p.wiring.loopListener l⟩
  else .error (.shardNotFound shard)

/-- All pairs of a queue and a shard that its router names. -/
def pairs (p : Pool α) : List (Location × Consumer α × ShardId) :=
  p.wiring.queues.entries.flatMap fun e => e.2.router.shards.map fun s => (e.1, e.2, s)

/-- All loops, or why one of them cannot be made. -/
def plan (p : Pool α) : Except QueueError (List (PlannedLoop α)) :=
  p.pairs.mapM fun (l, consumer, shard) => p.planLoop l consumer shard

/-- The world with one more loop, which is ready after all others. -/
def startLoop (w : World (Job α) β) (planned : PlannedLoop α) : World (Job α) β :=
  let loop : PollLoop α := ⟨w.loops.length, planned.runner, planned.listener⟩
  let w := { w with
    loops := w.loops ++ [(⟨loop.shard, loop.location, .idle⟩ : LoopEntry)]
    pool := { w.pool with
      loops := w.pool.loops ++ [loop.id]
      fibers := w.pool.fibers ++ [w.nextFiber] } }
  w.spawn (.loop loop.round loop.round)

/-- Starts all loops of a stopped pool. -/
def start (p : Pool α) (w : World (Job α) β) : World (Job α) β × Except PoolError Unit :=
  if w.pool.status ≠ .stopped then (w, .error .alreadyRunning)
  else if w.pool.executorsShutDown then (w, .error .executorsShutDown)
  else
    let w := { w with pool := { w.pool with signal := w.pool.signal.apply (.say false) } }
    match p.plan with
    | .error e => (w, .error (.queue e))
    | .ok planned =>
      let w := { w with pool := { w.pool with status := .running, loops := [], fibers := [] } }
      (planned.foldl startLoop w, .ok ())

/-- Calls the hooks of executors one after the other, whatever they do, each up to a deadline; true
if all of them returned in time. -/
def drain {ω : Type} (deadline : Tick) : List External → Process ω Bool
  | [] => pure true
  | x :: rest => do
    .ask (.enterHook x.executor)
    let returned ← x.callHook deadline
    let others ← drain deadline rest
    pure (returned && others)

/-- Waits for processes up to a deadline and calls them off if it passes; true if they ended in
time. -/
def join {ω : Type} (deadline : Tick) (fibers : List FiberId) : Process ω Bool := do
  let ended : Bool ← .ask (.ended fibers deadline)
  if ended then pure true
  else
    .ask (.abort fibers)
    pure false

/-- What throws a deadline that is out of reach. -/
def deadlineOverflow : Panic := .text "overflow when adding duration to instant"

/-- Stops a running pool. -/
def shutdown {ω : Type} (p : Pool α) : Process ω (Except PoolError Unit) := do
  let running : Bool ← .ask .beginDraining
  if running then
    .ask (.signalStop true)
    let now : Tick ← .ask .tick
    let deadline := now + p.config.shutdownTimeout.nanos
    if tickLimit ≤ deadline then .panic deadlineOverflow
    else
      let fibers : List FiberId ← .ask .takeLoops
      let ended ← join deadline fibers
      let drained ← drain deadline p.wiring.executors.values
      .ask .endDraining
      pure (if ended && drained then .ok () else .error .shutdownTimeout)
  else pure (.ok ())

/-- The loops of the last start and what they are doing. -/
def loopStates (w : World (Job α) β) : List LoopEntry :=
  w.pool.loops.filterMap fun id => w.loops[id]?

end Pool

end LeaseQueue
