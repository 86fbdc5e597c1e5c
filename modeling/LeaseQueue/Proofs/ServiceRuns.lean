import Mathlib.Logic.Function.Basic
import LeaseQueue.Pool
import LeaseQueue.World.Schedule
import LeaseQueue.Proofs.ProcessRuns

/-!
# A pool in service

A pool is started and shut down over and over, by any number of callers at a time, while its loops
poll and its executors work on what they are handed over.  Here all of this is interleaved in any
way: a start is one move, since it holds the status from its beginning to its end, and everything
else goes on request by request.  A shutdown may be given up by its caller, a loop that has been
called off ends at some time or goes on until then, and the stores, the clock and whatever else
surrounds the pool may change at any moment.  Who is ready or parked plays no part, so every order
in which a scheduler lets the processes go on is among these.

Along with the world goes the account of what every process is there for and what it has asked and
been told, also of those that have ended; of a loop it is the account of its present round.
`Accounted` says that what is left of a process is what is left of its program after these
exchanges.
-/

set_option autoImplicit false

namespace LeaseQueue

variable {α ω β : Type}

open Process

/-- What a process of a service is there for. -/
inductive Duty (α : Type)
  /-- A loop of a start; the starts are counted from one. -/
  | loop (start : Nat) (loop : PollLoop α)
  | work (executor : ExecutorId) (job : Job α)
  | shutdown

/-- The next request of a process, and what is left of it after the answer. -/
def Body.request? : Body ω β → Option ((r : Request ω) × (r.Reply → Body ω β))
  | .operation (.call r next) => some ⟨r, fun reply => .operation (next reply)⟩
  | .job executor (.call r next) => some ⟨r, fun reply => .job executor (next reply)⟩
  | .loop round (.call r next) => some ⟨r, fun reply => .loop round (next reply)⟩
  | _ => none

/-- Whether somebody asks for the result of a process. -/
def Body.isOperation : Body ω β → Bool
  | .operation _ => true
  | _ => false

/-- The loops that are made of a plan, numbered from the first one on. -/
def Pool.loopsFrom (first : LoopId) (planned : List (PlannedLoop α)) : List (PollLoop α) :=
  (planned.zipIdx first).map fun l => ⟨l.2, l.1.runner, l.1.listener⟩

/-- A world with the account of its processes. -/
structure Service (α : Type) where
  world : World (Job α) (Except PoolError Unit)
  duty : FiberId → Option (Duty α)
  /-- What a process has asked and been told; a loop, in its present round. -/
  said : FiberId → List (Exchange (Job α))
  /-- How many starts have succeeded. -/
  starts : Nat
  /-- The shutdown that last declared the pool stopped. -/
  stopper : Option FiberId

namespace Service

/-- What can happen to a pool in service. -/
inductive Move (α : Type)
  | start
  | shutdown
  /-- A process asks once, or comes to an end; a loop then begins its next round or ends. -/
  | go (id : FiberId)
  /-- A process that has been called off ends, or a shutdown is given up. -/
  | drop (id : FiberId)
  /-- All changes but the pool, its loops, the executors and the processes. -/
  | meanwhile (surroundings : World (Job α) (Except PoolError Unit))

/-- A pool that was never started, with executors of these limits; how many jobs they take is the
same for all makes, and what their hooks do is part of the pool. -/
def initial (clock : Instant) (shards : List ShardId) (limits : List Nat) : Service α where
  world := .initial clock shards (limits.map Executor.make)
  duty _ := none
  said _ := []
  starts := 0
  stopper := none

variable (p : Pool α)

/-- The account of duties after a start: the loops are new. -/
def dutiesAfterStart (s : Service α) (id : FiberId) : Option (Duty α) :=
  if id < s.world.nextFiber then s.duty id
  else
    let loops := Pool.loopsFrom s.world.loops.length (p.plan.toOption.getD [])
    (loops[id - s.world.nextFiber]?).map (.loop (s.starts + 1))

/-- A start is called. -/
def start (s : Service α) : Service α :=
  match p.start s.world with
  | (w, .ok ()) =>
    { s with world := w, duty := s.dutiesAfterStart p, starts := s.starts + 1 }
  | (w, .error _) => { s with world := w }

/-- A shutdown is called. -/
def shutdown (s : Service α) : Service α :=
  { s with
    world := s.world.spawn (.operation p.shutdown)
    duty := Function.update s.duty s.world.nextFiber (some .shutdown) }

/-- The account of duties after a request: a job that is handed over is a new one. -/
def dutiesAfter (s : Service α) : Request (Job α) → FiberId → Option (Duty α)
  | .handOver executor job =>
    Function.update s.duty s.world.nextFiber (some (.work executor job))
  | _ => s.duty

/-- Who last declared the pool stopped, after a request. -/
def stopperAfter (s : Service α) (id : FiberId) : Request (Job α) → Option FiberId
  | .endDraining => some id
  | _ => s.stopper

/-- A process goes on with an answer. -/
def answered (s : Service α) (w : World (Job α) (Except PoolError Unit)) (id : FiberId)
    (x : Exchange (Job α)) (left : Body (Job α) (Except PoolError Unit)) : Service α where
  world := w.modifyFiber id fun f => { f with body := left }
  duty := s.dutiesAfter x.1
  said := Function.update s.said id (s.said id ++ [x])
  starts := s.starts
  stopper := s.stopperAfter id x.1

/-- A request of a process is answered, or has to wait. -/
def ask (s : Service α) (id : FiberId) (r : Request (Job α))
    (next : r.Reply → Body (Job α) (Except PoolError Unit)) : Service α :=
  match s.world.perform Job.work id r with
  | (w, .wait _) => { s with world := w }
  | (w, .answer reply) => s.answered w id ⟨r, reply⟩ (next reply)

/-- A process has nothing more to ask: a loop whose round is over begins another one, every other
process is gone. -/
def finish (s : Service α) (id : FiberId) : Body (Job α) (Except PoolError Unit) → Service α
  | .loop round (.done true) =>
    { s with
      world := s.world.modifyFiber id fun f => { f with body := .loop round round }
      said := Function.update s.said id [] }
  | .loop .. => { s with world := s.world.dismiss id }
  | .job executor _ =>
    { s with world :=
        (s.world.setExecutor executor (s.world.executor executor).finish).dismiss id }
  | .operation program =>
    let results := (program.outcome?.map fun outcome => (id, outcome)).toList ++ s.world.results
    { s with world := { s.world with results := results }.dismiss id }

/-- A process asks once, or comes to an end. -/
def go (s : Service α) (id : FiberId) : Service α :=
  match s.world.fibers.get? id with
  | none => s
  | some f =>
    match f.body.request? with
    | some ⟨r, next⟩ => s.ask id r next
    | none => s.finish id f.body

/-- A process is gone wherever it was, if it was called off or is given up. -/
def drop (s : Service α) (id : FiberId) : Service α :=
  match s.world.fibers.get? id with
  | none => s
  | some f =>
    if f.aborted || f.body.isOperation then { s with world := s.world.bury id f } else s

/-- One move. -/
def step (s : Service α) : Move α → Service α
  | .start => s.start p
  | .shutdown => s.shutdown p
  | .go id => s.go id
  | .drop id => s.drop id
  | .meanwhile surroundings =>
    { s with world := { surroundings with
        executors := s.world.executors
        loops := s.world.loops
        pool := s.world.pool
        fibers := s.world.fibers
        nextFiber := s.world.nextFiber
        results := s.world.results } }

/-- Moves, one after the other. -/
def run (s : Service α) : List (Move α) → Service α
  | [] => s
  | m :: rest => (s.step p m).run rest

variable {p}

/-- Moves in two stretches are the moves in one. -/
theorem run_append (s : Service α) (before after : List (Move α)) :
    s.run p (before ++ after) = (s.run p before).run p after := by
  induction before generalizing s with
  | nil => rfl
  | cons m rest ih => exact ih (s.step p m)

/-- What holds at the beginning and is kept by every move holds after all of them. -/
theorem run_induction {P : Service α → Prop} {s : Service α} (hs : P s)
    (hstep : ∀ s m, P s → P (s.step p m)) (moves : List (Move α)) : P (s.run p moves) := by
  induction moves generalizing s with
  | nil => exact hs
  | cons m rest ih => exact ih (hstep s m hs)

end Service

/-! ## What matters of a world -/

/-- What the life of a pool depends on. -/
structure World.Sketch (ω β : Type) where
  pool : PoolState
  loops : List LoopEntry
  /-- How many unfinished jobs an executor has; nothing if there is no such executor. -/
  active : ExecutorId → Option Nat
  /-- What is left of a process and whether it has been called off; nothing if it is not there. -/
  standing : FiberId → Option (Body ω β × Bool)
  nextFiber : FiberId

namespace World

/-- The sketch of a world. -/
def sketch (w : World ω β) : Sketch ω β where
  pool := w.pool
  loops := w.loops
  active e := (w.executors[e]?).map Executor.active
  standing k := (w.fibers.get? k).map fun f => (f.body, f.aborted)
  nextFiber := w.nextFiber

/-- The sketch with what stands at a process. -/
def Sketch.set (d : Sketch ω β) (id : FiberId) (standing : Option (Body ω β × Bool)) :
    Sketch ω β :=
  { d with standing := Function.update d.standing id standing }

/-- The sketch with the number of unfinished jobs of an executor changed. -/
def Sketch.count (d : Sketch ω β) (e : ExecutorId) (f : Nat → Nat) : Sketch ω β :=
  { d with active := Function.update d.active e ((d.active e).map f) }

/-- A change of a store is not in the sketch. -/
theorem sketch_setStore (w : World ω β) (shard : ShardId) (store : Store) :
    (w.setStore shard store).sketch = w.sketch := rfl

/-- Waking processes up is not in the sketch. -/
theorem sketch_wake (w : World ω β) : w.wake.sketch = w.sketch := rfl

/-- A change of a process that keeps what is left of it is not in the sketch. -/
theorem sketch_modifyFiber (w : World ω β) (id : FiberId) (f : Fiber ω β → Fiber ω β)
    (hf : ∀ x, (f x).body = x.body ∧ (f x).aborted = x.aborted) :
    (w.modifyFiber id f).sketch = w.sketch := by
  unfold sketch modifyFiber
  congr 1
  funext k
  rw [OrderedMap.get?_modify]
  split
  · cases w.fibers.get? k with
    | none => rfl
    | some x => simp [(hf x).1, (hf x).2]
  · rfl

/-- A process that goes on stands in the sketch with what is left of it. -/
theorem sketch_goOn (w : World ω β) (id : FiberId) (left : Body ω β) :
    (w.modifyFiber id fun f => { f with body := left }).sketch =
      w.sketch.set id ((w.sketch.standing id).map fun x => (left, x.2)) := by
  unfold sketch modifyFiber Sketch.set
  congr 1
  funext k
  rw [OrderedMap.get?_modify, Function.update_apply]
  split
  · next hk =>
    subst hk
    rw [Option.map_map, Option.map_map]
    rfl
  · rfl

/-- A change of an executor is in the sketch by the number of its jobs. -/
theorem sketch_setExecutor (w : World ω β) (e : ExecutorId) (f : Executor → Executor)
    (g : Nat → Nat) (hf : ∀ x, (f x).active = g x.active) :
    (w.setExecutor e (f (w.executor e))).sketch = w.sketch.count e g := by
  unfold sketch setExecutor Sketch.count
  congr 1
  funext k
  rw [Function.update_apply, List.getElem?_set]
  by_cases hk : k = e
  · subst hk
    rw [if_pos rfl, if_pos rfl]
    unfold World.executor
    cases hx : w.executors[k]? with
    | none =>
      rw [if_neg (by have := List.getElem?_eq_none_iff.1 hx; omega)]
      simp [hx]
    | some x =>
      rw [if_pos (List.getElem?_eq_some_iff.1 hx).1]
      simp [hx, hf]
  · rw [if_neg fun h => hk h.symm, if_neg hk]

/-- An executor may change as long as its number of unfinished jobs does not. -/
theorem sketch_setExecutor_same (w : World ω β) (e : ExecutorId) (x : Executor)
    (hx : x.active = (w.executor e).active) : (w.setExecutor e x).sketch = w.sketch := by
  have h := w.sketch_setExecutor e (fun y => { x with active := y.active }) id fun _ => rfl
  have hsame : ({ x with active := (w.executor e).active } : Executor) = x := by rw [← hx]
  rw [hsame] at h
  rw [h]
  unfold Sketch.count
  rw [Option.map_id, id, Function.update_eq_self]

/-- A new process is in the sketch under the next number. -/
theorem sketch_spawn (w : World ω β) (body : Body ω β) :
    (w.spawn body).sketch =
      { w.sketch.set w.nextFiber (some (body, false)) with nextFiber := w.nextFiber + 1 } := by
  unfold sketch spawn Sketch.set
  congr 1
  funext k
  simp only [OrderedMap.get?_insert, Function.update_apply]
  split <;> rfl

/-- A process that goes is gone from the sketch. -/
theorem sketch_dismiss (w : World ω β) (id : FiberId) :
    (w.dismiss id).sketch = w.sketch.set id none := by
  unfold dismiss
  rw [sketch_wake]
  unfold sketch Sketch.set
  congr 1
  funext k
  rw [OrderedMap.get?_erase, Function.update_apply]
  split <;> rfl

/-- Aborted processes are called off in the sketch. -/
theorem sketch_abort (w : World ω β) (ids : List FiberId) :
    (w.abort ids).sketch =
      { w.sketch with standing := fun k =>
          if k ∈ ids then (w.sketch.standing k).map fun x => (x.1, true)
          else w.sketch.standing k } := by
  -- the processes are called off one by one
  have hfold : ∀ (ids : List FiberId) (fibers : OrderedMap FiberId (Fiber ω β)) (k : FiberId),
      (ids.foldl (fun fibers id => fibers.modify id fun f => { f with aborted := true })
        fibers).get? k =
      if k ∈ ids then (fibers.get? k).map fun f => { f with aborted := true }
      else fibers.get? k := by
    intro ids
    induction ids with
    | nil => exact fun fibers k => by simp
    | cons id rest ih =>
      intro fibers k
      simp only [List.foldl_cons, ih, OrderedMap.get?_modify, List.mem_cons]
      by_cases hk : k = id
      · by_cases hrest : k ∈ rest
        · rw [if_pos hrest, if_pos hk, if_pos (Or.inl hk), Option.map_map]
          rfl
        · rw [if_neg hrest, if_pos hk, if_pos (Or.inl hk)]
      · by_cases hrest : k ∈ rest
        · rw [if_pos hrest, if_neg hk, if_pos (Or.inr hrest)]
        · rw [if_neg hrest, if_neg hk, if_neg (by simp [hk, hrest])]
  unfold abort sketch
  congr 1
  funext k
  simp only [hfold, List.mem_filter]
  by_cases hk : k ∈ ids
  · cases hfiber : w.fibers.get? k with
    | none => simp
    | some f => simp [hk, OrderedMap.contains, hfiber]
  · simp [hk]

/-- An executor has one job less when one has finished. -/
theorem active_finish (e : Executor) : e.finish.active = e.active - 1 := rfl

/-- A process that leaves the queue of an executor leaves its jobs. -/
theorem active_leave (e : Executor) (who : Nat) : (e.leave who).active = e.active := by
  unfold Executor.leave Executor.release
  split
  · dsimp only
    split <;> rfl
  · rfl

/-- A process that asks for a place at an executor leaves its jobs. -/
theorem active_request (e : Executor) (who : Nat) : (e.request who).1.active = e.active := by
  unfold Executor.request
  repeat' split
  all_goals rfl

/-- The work of a process that is gone before its end is counted no more. -/
theorem sketch_bury (w : World ω β) (id : FiberId) (f : Fiber ω β) :
    (w.bury id f).sketch =
      (match f.body with
        | .job e _ => w.sketch.count e (· - 1)
        | _ => w.sketch).set id none := by
  have habandon : ∀ (held : List Handle) (w : World ω β),
      (held.foldl abandon w).sketch = w.sketch := by
    intro held
    induction held with
    | nil => exact fun _ => rfl
    | cons tx rest ih => exact fun w => (ih (w.abandon tx)).trans (w.sketch_setStore _ _)
  have hleave : ∀ w : World ω β,
      ({ w with executors := w.executors.map fun e => Executor.leave e id } : World ω β).sketch =
        w.sketch := by
    intro w
    unfold sketch
    congr 1
    funext k
    rw [List.getElem?_map, Option.map_map]
    congr 1
    funext e
    exact active_leave e id
  unfold bury
  dsimp only
  rw [sketch_dismiss]
  congr 1
  cases f.body with
  | operation program => exact (hleave _).trans (habandon _ w)
  | loop round program => exact (hleave _).trans (habandon _ w)
  | job e program =>
    dsimp only
    rw [sketch_setExecutor _ e Executor.finish (· - 1) active_finish]
    exact congrArg (·.count e (· - 1)) ((hleave _).trans (habandon _ w))

end World

/-! ## What a request changes -/

/-- Requests that only concern the stores, the time and other processes. -/
def Request.Neutral : Request ω → Prop
  | .handOver .. | .close _ | .publish .. | .signalStop _ | .beginDraining | .takeLoops | .abort _
  | .enterHook _ | .endDraining => False
  | _ => True

namespace World

/-- Beginning a transaction is not in the sketch. -/
theorem sketch_begin (w : World ω β) (id : FiberId) (shard : ShardId) :
    (w.begin id shard).1.sketch = w.sketch := by
  unfold World.begin
  split
  · exact sketch_modifyFiber _ _ _ fun _ => ⟨rfl, rfl⟩
  · rfl

/-- A probe of a store is not in the sketch. -/
theorem sketch_probe (w : World ω β) (shard : ShardId) (point : StorePoint) :
    (w.probe shard point).1.sketch = w.sketch := by
  unfold World.probe
  split <;> rfl

/-- A call of a store that may wait is not in the sketch. -/
theorem sketch_inStoreWaiting {γ : Type} (w : World ω β) (tx : Handle)
    (act : Store → TransactionId → Store × Option (Except StoreError γ)) :
    (w.inStoreWaiting tx act).1.sketch = w.sketch := by
  unfold inStoreWaiting
  split <;> rfl

/-- A neutral request changes nothing that the life of a pool depends on. -/
theorem sketch_perform_of_neutral {jobProgram : ω → Process ω Unit} {w : World ω β} {id : FiberId}
    {r : Request ω} (h : r.Neutral) : (w.perform jobProgram id r).1.sketch = w.sketch := by
  cases r with
  | probe shard point => exact w.sketch_probe shard point
  | begin shard => exact w.sketch_begin id shard
  | delete tx location task => exact w.sketch_inStoreWaiting tx _
  | reenqueue tx asOf location task delay fresh => exact w.sketch_inStoreWaiting tx _
  | abandon tx => exact sketch_modifyFiber _ _ _ fun _ => ⟨rfl, rfl⟩
  | pass gate =>
    simp only [World.perform]
    split <;> rfl
  | slot executor =>
    have hsame := w.sketch_setExecutor_same executor ((w.executor executor).request id).1
      (active_request _ id)
    simp only [World.perform]
    split
    · next e he => rw [he] at hsame; exact hsame
    · next e he => rw [he] at hsame; exact hsame
    · next e he => rw [he] at hsame; exact hsame
  | passBefore _ _ | drained _ _ =>
    simp only [World.perform]
    split
    · rfl
    · split <;> rfl
  | sleepUntil t =>
    simp only [World.perform]
    split <;> rfl
  | pauseUntil t =>
    simp only [World.perform]
    split <;> rfl
  | ended fibers deadline =>
    simp only [World.perform]
    split
    · rfl
    · split <;> rfl
  | handOver _ _ | close _ | publish _ _ | signalStop _ | beginDraining | takeLoops | abort _
  | enterHook _ | endDraining => exact h.elim
  | _ => rfl

/-- A job that is handed over is one more job and one more process. -/
theorem sketch_handOver (jobProgram : ω → Process ω Unit) (w : World ω β) (id : FiberId)
    (e : ExecutorId) (job : ω) :
    (w.perform jobProgram id (.handOver e job)).1.sketch =
      { (w.sketch.count e (· + 1)).set w.nextFiber (some (.job e (jobProgram job), false)) with
        nextFiber := w.nextFiber + 1 } := by
  show ((w.setExecutor e (w.executor e).start).spawn _).sketch = _
  rw [sketch_spawn, sketch_setExecutor w e Executor.start (· + 1) fun _ => rfl]
  rfl

/-- Closing an executor is not in the sketch. -/
theorem sketch_close (jobProgram : ω → Process ω Unit) (w : World ω β) (id : FiberId)
    (e : ExecutorId) : (w.perform jobProgram id (.close e)).1.sketch = w.sketch :=
  w.sketch_setExecutor_same e _ rfl

/-- Only those that wait are not answered, and while they wait nothing changes. -/
theorem sketch_of_wait {jobProgram : ω → Process ω Unit} {w w' : World ω β} {id : FiberId}
    {r : Request ω} {condition : Wait} (h : w.perform jobProgram id r = (w', .wait condition)) :
    w'.sketch = w.sketch := by
  by_cases hneutral : r.Neutral
  · exact (congrArg (fun x => x.1.sketch) h).symm.trans (sketch_perform_of_neutral hneutral)
  · cases r with
    | beginDraining =>
      simp only [World.perform] at h
      split at h <;> cases h
    | handOver _ _ | close _ | publish _ _ | signalStop _ | takeLoops | abort _
    | enterHook _ | endDraining => cases h
    | _ => exact absurd trivial hneutral

end World

/-! ## Starts -/

/-- The world of a stopped pool with the sign to stop taken back. -/
def World.lowered (w : World ω β) : World ω β :=
  { w with pool := { w.pool with signal := w.pool.signal.apply (.say false) } }

/-- The world of a pool that runs without loops. -/
def World.emptied (w : World ω β) : World ω β :=
  { w.lowered with pool := { w.lowered.pool with status := .running, loops := [], fibers := [] } }

namespace Pool

/-- What a start can come to. -/
inductive Start (p : Pool α) (w : World (Job α) β) : World (Job α) β × Except PoolError Unit → Prop
  | busy (hstatus : w.pool.status ≠ .stopped) : Start p w (w, .error .alreadyRunning)
  | shut (hstatus : w.pool.status = .stopped) (hshut : w.pool.executorsShutDown = true) :
    Start p w (w, .error .executorsShutDown)
  | fail {e : QueueError} (hstatus : w.pool.status = .stopped)
    (hopen : w.pool.executorsShutDown = false) (hplan : p.plan = .error e) :
    Start p w (w.lowered, .error (.queue e))
  | succeed {planned : List (PlannedLoop α)} (hstatus : w.pool.status = .stopped)
    (hopen : w.pool.executorsShutDown = false) (hplan : p.plan = .ok planned) :
    Start p w (planned.foldl startLoop w.emptied, .ok ())

/-- A start does what is said of it. -/
theorem start_spec (p : Pool α) (w : World (Job α) β) : Start p w (p.start w) := by
  unfold start
  by_cases hstatus : w.pool.status = .stopped
  · rw [if_neg (not_not_intro hstatus)]
    cases hshut : w.pool.executorsShutDown with
    | true => exact .shut hstatus hshut
    | false =>
      cases hplan : p.plan with
      | error e => exact .fail hstatus hshut hplan
      | ok planned => exact .succeed hstatus hshut hplan
  · rw [if_pos hstatus]
    exact .busy hstatus

/-- The loops of a plan are numbered one after the other. -/
theorem loopsFrom_cons (first : LoopId) (l : PlannedLoop α) (rest : List (PlannedLoop α)) :
    loopsFrom first (l :: rest) = ⟨first, l.runner, l.listener⟩ :: loopsFrom (first + 1) rest := by
  simp [loopsFrom, List.zipIdx_cons]

/-- A plan has as many loops as it plans. -/
theorem length_loopsFrom (first : LoopId) (planned : List (PlannedLoop α)) :
    (loopsFrom first planned).length = planned.length := by
  simp [loopsFrom]

/-- The world after one loop has been started. -/
theorem sketch_startLoop (w : World (Job α) β) (l : PlannedLoop α) : (startLoop w l).sketch =
    { w.sketch.set w.nextFiber (some (.loop (PollLoop.round ⟨w.loops.length, l.runner, l.listener⟩)
          (PollLoop.round ⟨w.loops.length, l.runner, l.listener⟩), false)) with
      pool := { w.pool with
        loops := w.pool.loops ++ [w.loops.length]
        fibers := w.pool.fibers ++ [w.nextFiber] }
      loops := w.loops ++ [⟨l.runner.processor.shard, l.runner.processor.location, .idle⟩]
      nextFiber := w.nextFiber + 1 } := by
  unfold startLoop
  rw [World.sketch_spawn]
  rfl

/-- The world after the loops of a plan have been started one by one. -/
theorem sketch_startLoops (planned : List (PlannedLoop α)) {w : World (Job α) β}
    (hfresh : ∀ k, w.nextFiber ≤ k → w.sketch.standing k = none) :
    (planned.foldl startLoop w).sketch =
      { w.sketch with
        pool := { w.pool with
          loops := w.pool.loops ++ (loopsFrom w.loops.length planned).map PollLoop.id
          fibers := w.pool.fibers ++ List.range' w.nextFiber planned.length }
        loops := w.loops ++ (loopsFrom w.loops.length planned).map fun l =>
          ⟨l.shard, l.location, .idle⟩
        standing := fun k =>
          if k < w.nextFiber then w.sketch.standing k
          else ((loopsFrom w.loops.length planned)[k - w.nextFiber]?).map fun l =>
            (.loop l.round l.round, false)
        nextFiber := w.nextFiber + planned.length } := by
  induction planned generalizing w with
  | nil =>
    have hstanding : (fun k => if k < w.nextFiber then w.sketch.standing k
        else (([] : List (PollLoop α))[k - w.nextFiber]?).map fun l =>
          ((.loop l.round l.round : Body (Job α) β), false)) = w.sketch.standing := by
      funext k
      split
      · rfl
      · next hk => exact (hfresh k (Nat.le_of_not_lt hk)).symm
    simp only [List.foldl_nil, loopsFrom, List.zipIdx_nil, List.map_nil, List.append_nil,
      List.length_nil, List.range'_zero, hstanding]
    rfl
  | cons l rest ih =>
    have hstanding : ∀ k, (startLoop w l).sketch.standing k =
        if k = w.nextFiber then
          some (.loop (PollLoop.round ⟨w.loops.length, l.runner, l.listener⟩)
            (PollLoop.round ⟨w.loops.length, l.runner, l.listener⟩), false)
        else w.sketch.standing k := by
      intro k
      rw [sketch_startLoop]
      exact Function.update_apply ..
    have hlength : (startLoop w l).loops.length = w.loops.length + 1 := List.length_append
    have hnext : (startLoop w l).nextFiber = w.nextFiber + 1 := rfl
    have hpool : (startLoop w l).pool = { w.pool with
        loops := w.pool.loops ++ [w.loops.length]
        fibers := w.pool.fibers ++ [w.nextFiber] } := rfl
    have hloops : (startLoop w l).loops =
        w.loops ++ [⟨l.runner.processor.shard, l.runner.processor.location, .idle⟩] := rfl
    have hlater : ∀ k, (startLoop w l).nextFiber ≤ k →
        (startLoop w l).sketch.standing k = none := by
      intro k hk
      rw [hstanding, if_neg (Nat.ne_of_gt hk)]
      exact hfresh k (Nat.le_of_succ_le hk)
    rw [List.foldl_cons, ih hlater, hlength, hnext, hpool, hloops, loopsFrom_cons]
    have hall : ∀ k, (if k < w.nextFiber + 1 then (startLoop w l).sketch.standing k
        else ((loopsFrom (w.loops.length + 1) rest)[k - (w.nextFiber + 1)]?).map fun l =>
          ((.loop l.round l.round : Body (Job α) β), false)) =
        if k < w.nextFiber then w.sketch.standing k
        else (((⟨w.loops.length, l.runner, l.listener⟩ : PollLoop α) ::
          loopsFrom (w.loops.length + 1) rest)[k - w.nextFiber]?).map fun l =>
            (.loop l.round l.round, false) := by
      intro k
      rcases Nat.lt_trichotomy k w.nextFiber with hk | hk | hk
      · rw [if_pos (Nat.lt_succ_of_lt hk), if_pos hk, hstanding, if_neg (Nat.ne_of_lt hk)]
      · subst hk
        rw [if_pos (Nat.lt_succ_self _), if_neg (Nat.lt_irrefl _), hstanding, if_pos rfl,
          Nat.sub_self]
        rfl
      · have hsub : k - w.nextFiber = (k - (w.nextFiber + 1)) + 1 :=
          (Nat.sub_add_cancel (Nat.sub_pos_of_lt hk)).symm
        rw [if_neg (Nat.not_lt_of_le hk), if_neg (Nat.lt_asymm hk), hsub, List.getElem?_cons_succ]
    rw [funext hall, sketch_startLoop]
    simp only [List.map_cons, List.append_assoc, List.singleton_append, List.length_cons,
      List.range'_succ, World.Sketch.set]
    congr 1
    exact Nat.add_right_comm ..

end Pool

end LeaseQueue
