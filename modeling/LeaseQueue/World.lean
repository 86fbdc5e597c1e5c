import LeaseQueue.Executor
import LeaseQueue.StopSignal

/-!
# The world

The state that processes share: a clock, the stores of the shards, executors, gates, loops and the
pool, together with the processes themselves and what has been seen of them.  `World.perform` says
what one request does; it is the only place where a process touches the world.

A process that has to wait is parked, in the order in which the waiting began, with the condition
that it waits for.  After every request all parked processes whose condition holds become ready.
-/

set_option autoImplicit false

namespace LeaseQueue

/-- One shard: its store, and how many of the next calls of each operation fail. -/
structure Shard where
  store : Store
  faults : StorePoint → Nat

/-- A shard with an empty store that answers every call. -/
def Shard.fresh : Shard := ⟨.empty, fun _ => 0⟩

instance : Inhabited Shard := ⟨.fresh⟩

/-- What is known of a polling loop. -/
structure LoopEntry where
  shard : ShardId
  location : Location
  state : LoopState
deriving DecidableEq

/-- The state of the pool. -/
structure PoolState where
  status : PoolStatus
  signal : StopSignal
  /-- Whether the executors have been shut down, which is for good. -/
  executorsShutDown : Bool
  /-- The loops of the last start. -/
  loops : List LoopId
  /-- Their processes, until a stop takes them over. -/
  fibers : List FiberId
deriving DecidableEq

/-- A pool that was never started. -/
def PoolState.initial : PoolState := ⟨.stopped, .initial, false, [], []⟩

/-- What a parked process waits for. -/
inductive Wait
  /-- The end of a transaction; so many had ended when the waiting began. -/
  | release (shard : ShardId) (ended : Nat)
  | gate (name : String)
  | gateBefore (name : String) (deadline : Tick)
  | slot (executor : ExecutorId)
  | drained (executor : ExecutorId) (deadline : Option Tick)
  | time (t : Tick)
  /-- A point of time or the sign to stop. -/
  | pause (t : Tick)
  | ended (fibers : List FiberId) (deadline : Tick)
deriving DecidableEq

/-- The point of time at which a wait is over in any case. -/
def Wait.timer? : Wait → Option Tick
  | .gateBefore _ deadline => some deadline
  | .drained _ deadline => deadline
  | .time t => some t
  | .pause t => some t
  | .ended _ deadline => some deadline
  | _ => none

/-- What a running process does. -/
inductive Body (ω β : Type)
  /-- Something whose result is asked for. -/
  | operation (program : Process ω β)
  /-- A job in a slot of an executor. -/
  | job (executor : ExecutorId) (program : Process ω Unit)
  /-- A loop: its rounds, and what is left of the present one. -/
  | loop (round program : Process ω Bool)

/-- A running process. -/
structure Fiber (ω β : Type) where
  body : Body ω β
  /-- The transactions that it has opened and not abandoned. -/
  held : List Handle
  aborted : Bool

/-- The state shared by all processes, and the processes. -/
structure World (ω β : Type) where
  clock : Instant
  /-- The time that passes while processes sleep. -/
  time : Tick
  shards : OrderedMap ShardId Shard
  executors : List Executor
  /-- The open gates. -/
  gates : List String
  /-- How often every consumer has been called. -/
  calls : OrderedMap Nat Nat
  loops : List LoopEntry
  pool : PoolState
  /-- What has been seen, the latest first. -/
  trace : List (Tick × Notice)
  fibers : OrderedMap FiberId (Fiber ω β)
  nextFiber : FiberId
  /-- The processes that can go on, in their order. -/
  ready : List FiberId
  /-- The processes that wait, in the order in which they began to. -/
  parked : List (FiberId × Wait)
  /-- The results of operations, the latest first. -/
  results : List (FiberId × Except Panic β)

/-- The answer to a request, or what has to be waited for. -/
inductive Reply (α : Type)
  | answer (a : α)
  | wait (condition : Wait)

namespace World

variable {ω β : Type}

/-- A world without processes. -/
def initial (clock : Instant) (shards : List ShardId) (executors : List Executor) : World ω β where
  clock := clock
  time := 0
  shards := .ofList (shards.map fun s => (s, .fresh))
  executors := executors
  gates := []
  calls := .empty
  loops := []
  pool := .initial
  trace := []
  fibers := .empty
  nextFiber := 0
  ready := []
  parked := []
  results := []

/-- The store of a shard. -/
def store (w : World ω β) (shard : ShardId) : Store :=
  ((w.shards.get? shard).map Shard.store).getD .empty

/-- The world with another store of a shard. -/
def setStore (w : World ω β) (shard : ShardId) (store : Store) : World ω β :=
  { w with shards := w.shards.modify shard fun s => { s with store := store } }

/-- The world with the number of calls of an operation that fail. -/
def setFaults (w : World ω β) (shard : ShardId) (point : StorePoint) (times : Nat) : World ω β :=
  { w with shards := w.shards.modify shard fun s =>
      { s with faults := fun p => if p = point then times else s.faults p } }

/-- An executor. -/
def executor (w : World ω β) (id : ExecutorId) : Executor := (w.executors[id]?).getD default

/-- The world with a changed executor. -/
def setExecutor (w : World ω β) (id : ExecutorId) (e : Executor) : World ω β :=
  { w with executors := w.executors.set id e }

/-- The world with a process changed. -/
def modifyFiber (w : World ω β) (id : FiberId) (f : Fiber ω β → Fiber ω β) : World ω β :=
  { w with fibers := w.fibers.modify id f }

/-- The world with one more process, which is ready after all others. -/
def spawn (w : World ω β) (body : Body ω β) : World ω β :=
  { w with
    fibers := w.fibers.insert w.nextFiber ⟨body, [], false⟩
    nextFiber := w.nextFiber + 1
    ready := w.ready ++ [w.nextFiber] }

/-- Whether what a process waits for has come. -/
def isOver (w : World ω β) (id : FiberId) : Wait → Bool
  | .release shard ended => (w.store shard).releases != ended
  | .gate name => w.gates.contains name
  | .gateBefore name deadline => w.gates.contains name || deadline ≤ w.time
  | .slot executor => (w.executor executor).hasAnswer id
  | .drained executor deadline =>
    (w.executor executor).isDrained || deadline.any fun t => t ≤ w.time
  | .time t => t ≤ w.time
  | .pause t => t ≤ w.time || w.pool.signal.isStopped
  | .ended fibers deadline =>
    (fibers.all fun f => !w.fibers.contains f) || deadline ≤ w.time

/-- Lets all parked processes go on whose wait is over, in the order in which they began to wait. -/
def wake (w : World ω β) : World ω β :=
  let (woken, waiting) := w.parked.partition fun p => w.isOver p.1 p.2
  { w with ready := w.ready ++ woken.map Prod.fst, parked := waiting }

/-- An answer of a store in a transaction. -/
def inStore {α : Type} (w : World ω β) (tx : Handle)
    (act : Store → TransactionId → Store × Except StoreError α) :
    World ω β × Reply (Except StoreError α) :=
  let (store, answer) := act (w.store tx.shard) tx.transaction
  (w.setStore tx.shard store, .answer answer)

/-- An answer of a store in a transaction that may have to wait for the end of another one. -/
def inStoreWaiting {α : Type} (w : World ω β) (tx : Handle)
    (act : Store → TransactionId → Store × Option (Except StoreError α)) :
    World ω β × Reply (Except StoreError α) :=
  match act (w.store tx.shard) tx.transaction with
  | (store, some answer) => (w.setStore tx.shard store, .answer answer)
  | (store, none) => (w, .wait (.release tx.shard store.releases))

/-- Uses up one of the failures that an operation has been made to have. -/
def probe (w : World ω β) (shard : ShardId) (point : StorePoint) :
    World ω β × Except StoreError Unit :=
  match ((w.shards.get? shard).map fun s => s.faults point).getD 0 with
  | 0 => (w, .ok ())
  | times + 1 => (w.setFaults shard point times, .error (.database (.injected point)))

/-- Opens a transaction for a process. -/
def begin (w : World ω β) (id : FiberId) (shard : ShardId) :
    World ω β × Except StoreError Handle :=
  match (w.store shard).begin with
  | (store, .ok tx) =>
    let handle : Handle := ⟨shard, tx⟩
    ((w.setStore shard store).modifyFiber id fun f => { f with held := handle :: f.held },
      .ok handle)
  | (store, .error e) => (w.setStore shard store, .error e)

/-- Abandons a transaction. -/
def abandon (w : World ω β) (tx : Handle) : World ω β :=
  w.setStore tx.shard ((w.store tx.shard).abandon tx.transaction)

/-- Calls processes off: each ends when its turn comes. -/
def abort (w : World ω β) (ids : List FiberId) : World ω β :=
  let ids := ids.filter w.fibers.contains
  let waiting := (w.parked.filter fun p => ids.contains p.1).map Prod.fst
  { w with
    fibers := ids.foldl (fun fibers id => fibers.modify id fun f => { f with aborted := true })
      w.fibers
    parked := w.parked.filter fun p => !ids.contains p.1
    ready := w.ready ++ ids.filter waiting.contains }

/-- What one request of a process does. -/
def perform (jobProgram : ω → Process ω Unit) (w : World ω β) (id : FiberId)
    (r : Request ω) : World ω β × Reply r.Reply :=
  match r with
  | .now => (w, .answer w.clock)
  | .advance d => ({ w with clock := w.clock.advance d }, .answer ())
  | .report notice => ({ w with trace := (w.time, notice) :: w.trace }, .answer ())
  | .probe shard point =>
    let (w, answer) := w.probe shard point
    (w, .answer answer)
  | .begin shard =>
    let (w, answer) := w.begin id shard
    (w, .answer answer)
  | .enqueue tx location task => w.inStore tx fun s t => s.enqueue t w.clock location task
  | .pick tx location lease => w.inStore tx fun s t => s.pick t w.clock location lease
  | .delete tx location task => w.inStoreWaiting tx fun s t => s.delete t location task
  | .reenqueue tx asOf location task delay fresh =>
    w.inStoreWaiting tx fun s t => s.reenqueue t asOf location task delay fresh
  | .commit tx => w.inStore tx Store.commit
  | .rollback tx => w.inStore tx Store.rollback
  | .abandon tx =>
    ((w.abandon tx).modifyFiber id fun f => { f with held := f.held.filter (· ≠ tx) },
      .answer ())
  | .outage shard on =>
    (w.setStore shard { w.store shard with unavailable := on }, .answer ())
  | .invocation consumer =>
    let calls := (w.calls.get? consumer).getD 0
    ({ w with calls := w.calls.insert consumer (calls + 1) }, .answer calls)
  | .pass gate => if w.gates.contains gate then (w, .answer ()) else (w, .wait (.gate gate))
  | .passBefore gate deadline =>
    if w.gates.contains gate then (w, .answer true)
    else if deadline ≤ w.time then (w, .answer false)
    else (w, .wait (.gateBefore gate deadline))
  | .slot executor =>
    match (w.executor executor).request id with
    | (e, .granted) => (w.setExecutor executor e, .answer true)
    | (e, .refused) => (w.setExecutor executor e, .answer false)
    | (e, .wait) => (w.setExecutor executor e, .wait (.slot executor))
  | .handOver executor job =>
    ((w.setExecutor executor (w.executor executor).start).spawn (.job executor (jobProgram job)),
      .answer ())
  | .close executor => (w.setExecutor executor (w.executor executor).close, .answer ())
  | .drained executor deadline =>
    if (w.executor executor).isDrained then (w, .answer true)
    else if deadline.any fun t => t ≤ w.time then (w, .answer false)
    else (w, .wait (.drained executor deadline))
  | .activeJobs executor => (w, .answer (w.executor executor).active)
  | .publish loop state =>
    ({ w with loops := w.loops.modify loop fun l => { l with state := state } }, .answer ())
  | .loopState loop => (w, .answer (((w.loops[loop]?).map LoopEntry.state).getD .idle))
  | .tick => (w, .answer w.time)
  | .sleepUntil t => if t ≤ w.time then (w, .answer ()) else (w, .wait (.time t))
  | .pauseUntil t =>
    if t ≤ w.time || w.pool.signal.isStopped then (w, .answer ()) else (w, .wait (.pause t))
  | .isStopping => (w, .answer w.pool.signal.isStopped)
  | .signalStop on =>
    ({ w with pool := { w.pool with signal := w.pool.signal.apply (.say on) } }, .answer ())
  | .beginDraining =>
    if w.pool.status = .running then
      ({ w with pool := { w.pool with status := .draining } }, .answer true)
    else (w, .answer false)
  | .takeLoops => ({ w with pool := { w.pool with fibers := [] } }, .answer w.pool.fibers)
  | .ended fibers deadline =>
    if fibers.all fun f => !w.fibers.contains f then (w, .answer true)
    else if deadline ≤ w.time then (w, .answer false)
    else (w, .wait (.ended fibers deadline))
  | .abort fibers => (w.abort fibers, .answer ())
  | .enterHook _ =>
    ({ w with pool := { w.pool with executorsShutDown := true } }, .answer ())
  | .endDraining => ({ w with pool := { w.pool with status := .stopped } }, .answer ())

end World

end LeaseQueue
