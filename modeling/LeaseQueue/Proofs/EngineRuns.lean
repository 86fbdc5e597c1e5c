import Mathlib.Logic.Function.Basic
import LeaseQueue.World.Schedule
import LeaseQueue.Proofs.OutcomeRequests
import LeaseQueue.Proofs.StoreRuns

/-!
# Runs of the engine

The engine is a world with three kinds of processes: a producer puts a task in, a runner polls its
queue, and a job that a runner has handed over works on its task.  Here they are interleaved in any
way, request by request: at every moment any process may go on, any process may be dropped, more may
be started, databases may be cut off and operations made to fail, and all else around them may
change.  Who is ready or parked plays no part, so every order in which a scheduler lets the
processes go on is among these.

Along with the world goes the account of what every process was started for and what it has asked
and been told.  What is left of a process is always what is left of its program after these
exchanges (`Accounted`).
-/

set_option autoImplicit false

namespace LeaseQueue

variable {α : Type}

/-- What a process of the engine is started for. -/
inductive Deed (α : Type)
  | produce (producer : Producer α) (task : Submission α)
  | poll (runner : Runner α)
  | work (job : Job α)

/-- A process whose result nobody asks for. -/
def Process.ignoring {ω β : Type} (p : Process ω β) : Process ω Unit := p.bind fun _ => .done ()

/-- What is done for a deed. -/
def Deed.program : Deed α → Process (Job α) Unit
  | produce producer task => (producer.enqueue task).run.ignoring
  | poll runner => runner.poll.run.ignoring
  | work job => job.work

/-- What is left of an operation or a job. -/
def Body.program? {ω : Type} : Body ω Unit → Option (Process ω Unit)
  | .operation program => some program
  | .job _ program => some program
  | .loop .. => none

/-- An operation or a job of which something else is left. -/
def Body.goOn {ω : Type} (program : Process ω Unit) : Body ω Unit → Body ω Unit
  | .operation _ => .operation program
  | .job executor _ => .job executor program
  | .loop round rest => .loop round rest

/-- The job that a request hands over to an executor. -/
def Request.handsOver? {ω : Type} : Request ω → Option (ExecutorId × ω)
  | .handOver executor job => some (executor, job)
  | _ => none

/-- A world with the account of its processes. -/
structure Engine (α : Type) where
  world : World (Job α) Unit
  deed : FiberId → Option (Deed α)
  said : FiberId → List (Exchange (Job α))

namespace Engine

/-- What can happen to an engine. -/
inductive Move (α : Type)
  | produce (producer : Producer α) (task : Submission α)
  | poll (runner : Runner α)
  /-- A process asks once, or ends. -/
  | go (id : FiberId)
  /-- A process is dropped wherever it is. -/
  | drop (id : FiberId)
  | outage (shard : ShardId) (on : Bool)
  | fail (shard : ShardId) (point : StorePoint) (times : Nat)
  /-- All changes but the stores and the processes: the clock, gates, executors and the pool. -/
  | meanwhile (surroundings : World (Job α) Unit)

/-- An engine in which nothing has happened. -/
def start (clock : Instant) (shards : List ShardId) (executors : List Executor) : Engine α :=
  ⟨.initial clock shards executors, fun _ => none, fun _ => []⟩

/-- One more process. -/
def begin (e : Engine α) (deed : Deed α) : Engine α :=
  { e with
    world := e.world.spawn (.operation deed.program)
    deed := Function.update e.deed e.world.nextFiber (some deed) }

/-- The account of deeds after a request: a job that is handed over is a new one. -/
def deedsAfter (e : Engine α) (r : Request (Job α)) (id : FiberId) : Option (Deed α) :=
  match r.handsOver? with
  | some (_, job) => if id = e.world.nextFiber then some (.work job) else e.deed id
  | none => e.deed id

/-- A process goes on with an answer. -/
def answered (e : Engine α) (w : World (Job α) Unit) (id : FiberId) (x : Exchange (Job α))
    (left : Process (Job α) Unit) : Engine α where
  world := w.modifyFiber id fun f => { f with body := f.body.goOn left }
  deed := e.deedsAfter x.1
  said := Function.update e.said id (e.said id ++ [x])

/-- A request of a process is answered, or has to wait. -/
def ask (e : Engine α) (id : FiberId) (r : Request (Job α))
    (next : r.Reply → Process (Job α) Unit) : Engine α :=
  match e.world.perform Job.work id r with
  | (w, .wait _) => { e with world := w }
  | (w, .answer reply) => e.answered w id ⟨r, reply⟩ (next reply)

/-- A process that is at its end is gone; a job leaves its slot. -/
def finish (e : Engine α) (id : FiberId) (f : Fiber (Job α) Unit) : Engine α :=
  match f.body with
  | .job executor _ =>
    { e with world :=
        (e.world.setExecutor executor (e.world.executor executor).finish).dismiss id }
  | _ => { e with world := e.world.dismiss id }

/-- A process asks once, or ends. -/
def go (e : Engine α) (id : FiberId) : Engine α :=
  match e.world.fibers.get? id with
  | none => e
  | some f =>
    match f.body.program? with
    | none => e
    | some (.done _) => e.finish id f
    | some (.panic _) => e.finish id f
    | some (.call r next) => e.ask id r next

/-- A process is dropped, and with it its open transactions. -/
def drop (e : Engine α) (id : FiberId) : Engine α :=
  match e.world.fibers.get? id with
  | none => e
  | some f => { e with world := e.world.bury id f }

/-- One move. -/
def step (e : Engine α) : Move α → Engine α
  | .produce producer task => e.begin (.produce producer task)
  | .poll runner => e.begin (.poll runner)
  | .go id => e.go id
  | .drop id => e.drop id
  | .outage shard on =>
    { e with world := e.world.setStore shard { e.world.store shard with unavailable := on } }
  | .fail shard point times => { e with world := e.world.setFaults shard point times }
  | .meanwhile surroundings =>
    { e with world := { surroundings with
        shards := e.world.shards
        fibers := e.world.fibers
        nextFiber := e.world.nextFiber } }

/-- Moves, one after the other. -/
def run (e : Engine α) : List (Move α) → Engine α
  | [] => e
  | m :: rest => (e.step m).run rest

end Engine

/-! ## What a request does to the stores -/

/-- The action on the store of a shard that a request asks for. -/
def Request.action? {ω : Type} (clock : Instant) : Request ω → Option (ShardId × Store.Action)
  | .begin shard => some (shard, .begin)
  | .enqueue tx location task => some (tx.shard, .enqueue tx.transaction clock location task)
  | .pick tx location lease => some (tx.shard, .pick tx.transaction clock location lease)
  | .delete tx location id => some (tx.shard, .delete tx.transaction location id)
  | .reenqueue tx asOf location id delay fresh =>
    some (tx.shard, .reenqueue tx.transaction asOf location id delay fresh)
  | .commit tx => some (tx.shard, .commit tx.transaction)
  | .rollback tx => some (tx.shard, .rollback tx.transaction)
  | .abandon tx => some (tx.shard, .abandon tx.transaction)
  | .outage shard on => some (shard, .outage on)
  | _ => none

namespace World

variable {ω β : Type} {w : World ω β}

/-- After a store has been put in place the others are as they were. -/
theorem store_setStore (w : World ω β) (shard s : ShardId) (store : Store) :
    (w.setStore shard store).store s =
      if s = shard ∧ w.shards.contains shard = true then store else w.store s := by
  unfold World.store setStore
  simp only [OrderedMap.get?_modify]
  by_cases hs : s = shard
  · subst hs
    cases hshard : w.shards.get? s with
    | none => simp [OrderedMap.contains, hshard]
    | some entry => simp [OrderedMap.contains, hshard]
  · simp [hs]

/-- Faults leave the stores as they are. -/
theorem store_setFaults (w : World ω β) (shard s : ShardId) (point : StorePoint) (times : Nat) :
    (w.setFaults shard point times).store s = w.store s := by
  unfold World.store setFaults
  simp only [OrderedMap.get?_modify]
  split
  · rw [Option.map_map]
    rfl
  · rfl

/-- A store that is not there is empty. -/
theorem store_of_not_contains {shard : ShardId} (h : ¬ w.shards.contains shard = true) :
    w.store shard = .empty := by
  unfold World.store
  cases hshard : w.shards.get? shard with
  | none => rfl
  | some entry => simp [OrderedMap.contains, hshard] at h

/-- At the beginning all stores are empty. -/
theorem store_initial (clock : Instant) (shards : List ShardId) (executors : List Executor)
    (s : ShardId) : (initial clock shards executors : World ω β).store s = .empty := by
  -- the shards are put in one by one, and each of them is fresh
  have hfold : ∀ (entries : List (ShardId × Shard)) (m : OrderedMap ShardId Shard),
      (∀ k v, m.get? k = some v → v.store = .empty) → (∀ e ∈ entries, e.2.store = .empty) →
      ∀ k v, (entries.foldl (fun m e => m.insert e.1 e.2) m).get? k = some v →
        v.store = .empty := by
    intro entries
    induction entries with
    | nil => exact fun m hm _ => hm
    | cons e rest ih =>
      intro m hm hentries
      refine ih _ (fun k v hv => ?_) fun e' he' => hentries e' (List.mem_cons_of_mem _ he')
      rw [OrderedMap.get?_insert] at hv
      split at hv
      · cases hv
        exact hentries e List.mem_cons_self
      · exact hm k v hv
  unfold World.store initial OrderedMap.ofList
  cases hshard : ((shards.map fun s => (s, Shard.fresh)).foldl (fun m e => m.insert e.1 e.2)
      OrderedMap.empty).get? s with
  | none => rfl
  | some shard =>
    refine hfold _ _ (fun k v hv => ?_) (fun e he => ?_) s shard hshard
    · cases hv
    · obtain ⟨s, -, rfl⟩ := List.mem_map.1 he
      rfl

/-- A store after an action on the store of a shard; if there is none, nothing happens. -/
def acted (w : World ω β) (shard : ShardId) (a : Store.Action) (s : ShardId) : Store :=
  if s = shard ∧ w.shards.contains shard = true then ((w.store shard).perform a).1 else w.store s

/-- An operation on one store leaves the others as they are. -/
theorem store_inStore {γ : Type} (w : World ω β) (tx : Handle)
    (act : Store → TransactionId → Store × Except StoreError γ) (s : ShardId) :
    (w.inStore tx act).1.store s =
      if s = tx.shard ∧ w.shards.contains tx.shard = true
        then (act (w.store tx.shard) tx.transaction).1 else w.store s :=
  store_setStore w tx.shard s _

/-- An action that has to wait leaves the stores alone. -/
theorem store_inStoreWaiting {γ : Type} (w : World ω β) (tx : Handle)
    (act : Store → TransactionId → Store × Option (Except StoreError γ))
    (hwait : (act (w.store tx.shard) tx.transaction).2 = none →
      (act (w.store tx.shard) tx.transaction).1 = w.store tx.shard) (s : ShardId) :
    (w.inStoreWaiting tx act).1.store s =
      if s = tx.shard ∧ w.shards.contains tx.shard = true
        then (act (w.store tx.shard) tx.transaction).1 else w.store s := by
  unfold inStoreWaiting
  generalize act (w.store tx.shard) tx.transaction = outcome at hwait
  obtain ⟨store, answer⟩ := outcome
  cases answer with
  | some answer => exact store_setStore w tx.shard s store
  | none =>
    have hsame : store = w.store tx.shard := hwait rfl
    subst hsame
    by_cases hs : s = tx.shard
    · subst hs
      simp
    · simp [hs]

/-- The begin of a transaction is one of its own store. -/
theorem store_begin (w : World ω β) (id : FiberId) (shard s : ShardId) :
    (w.begin id shard).1.store s = w.acted shard .begin s := by
  unfold World.begin acted Store.perform
  generalize (w.store shard).begin = outcome
  obtain ⟨store, answer⟩ := outcome
  cases answer with
  | ok tx => exact store_setStore w shard s store
  | error e => exact store_setStore w shard s store

/-- A probe of an operation leaves the stores as they are. -/
theorem store_probe (w : World ω β) (shard s : ShardId) (point : StorePoint) :
    (w.probe shard point).1.store s = w.store s := by
  unfold World.probe
  split
  · rfl
  · exact store_setFaults w shard s point _

end World

/-- A delete that has to wait changes nothing. -/
theorem Store.delete_waits {s : Store} {tx : TransactionId} {location : Location} {id : TaskId}
    (h : (s.delete tx location id).2 = none) : (s.delete tx location id).1 = s := by
  unfold Store.delete at h ⊢
  split
  · next hopen =>
    rw [if_pos hopen] at h
    split
    · rfl
    · rfl
    · next haccess =>
      rw [haccess] at h
      cases h
  · rfl

/-- A reenqueue that has to wait changes nothing. -/
theorem Store.reenqueue_waits {s : Store} {tx : TransactionId} {asOf : Instant}
    {location : Location} {id : TaskId} {delay : Duration} {fresh : Bool}
    (h : (s.reenqueue tx asOf location id delay fresh).2 = none) :
    (s.reenqueue tx asOf location id delay fresh).1 = s := by
  unfold Store.reenqueue at h ⊢
  split
  · next hopen =>
    rw [if_pos hopen] at h
    split
    · rfl
    · next hdeadline =>
      rw [hdeadline] at h
      split
      · rfl
      · rfl
      · next haccess =>
        simp only [haccess] at h
        cases h
  · rfl

namespace World

variable {ω β : Type}

/-- A request leaves the stores alone or is one action on one of them. -/
theorem store_perform (jobProgram : ω → Process ω Unit) (w : World ω β) (id : FiberId)
    (r : Request ω) (s : ShardId) :
    (w.perform jobProgram id r).1.store s =
      match r.action? w.clock with
      | none => w.store s
      | some (shard, a) => w.acted shard a s := by
  cases r with
  | probe shard point => exact w.store_probe shard s point
  | begin shard => exact w.store_begin id shard s
  | enqueue tx location task => exact w.store_inStore tx _ s
  | pick tx location lease => exact w.store_inStore tx _ s
  | commit tx => exact w.store_inStore tx _ s
  | rollback tx => exact w.store_inStore tx _ s
  | delete tx location task => exact w.store_inStoreWaiting tx _ Store.delete_waits s
  | reenqueue tx asOf location task delay fresh =>
    exact w.store_inStoreWaiting tx _ Store.reenqueue_waits s
  | abandon tx => exact w.store_setStore tx.shard s _
  | outage shard on => exact w.store_setStore shard s _
  | pass gate =>
    simp only [World.perform, Request.action?]
    split <;> rfl
  | slot executor =>
    simp only [World.perform, Request.action?]
    split <;> rfl
  | passBefore _ _ | drained _ _ =>
    simp only [World.perform, Request.action?]
    split
    · rfl
    · split <;> rfl
  | sleepUntil t =>
    simp only [World.perform, Request.action?]
    split <;> rfl
  | pauseUntil t =>
    simp only [World.perform, Request.action?]
    split <;> rfl
  | beginDraining =>
    simp only [World.perform, Request.action?]
    split <;> rfl
  | ended fibers deadline =>
    simp only [World.perform, Request.action?]
    split
    · rfl
    · split <;> rfl
  | _ => rfl

/-! ## What a request answers -/

/-- A task that is put in is put into the store of its transaction. -/
theorem perform_enqueue_answer {jobProgram : ω → Process ω Unit} {w : World ω β} {fiber : FiberId}
    {tx : Handle} {location : Location} {task : NewTask} {id : TaskId}
    (h : (w.perform jobProgram fiber (.enqueue tx location task)).2 = .answer (.ok id)) :
    ((w.store tx.shard).perform (.enqueue tx.transaction w.clock location task)).2 =
      .enqueued (.ok id) := by
  have hanswer : ((w.store tx.shard).enqueue tx.transaction w.clock location task).2 = .ok id :=
    Reply.answer.inj h
  simp only [Store.perform, Prod.map_snd, hanswer]

/-- A commit is one of the store of its transaction. -/
theorem perform_commit_answer {jobProgram : ω → Process ω Unit} {w : World ω β} {fiber : FiberId}
    {tx : Handle} (h : (w.perform jobProgram fiber (.commit tx)).2 = .answer (.ok ())) :
    ((w.store tx.shard).perform (.commit tx.transaction)).2 = .ended (.ok ()) := by
  have hanswer : ((w.store tx.shard).commit tx.transaction).2 = .ok () := Reply.answer.inj h
  simp only [Store.perform, Prod.map_snd, hanswer]

/-- A transaction that is opened for a shard is one of this shard. -/
theorem perform_begin_answer {jobProgram : ω → Process ω Unit} {w : World ω β} {fiber : FiberId}
    {shard : ShardId} {tx : Handle}
    (h : (w.perform jobProgram fiber (.begin shard)).2 = .answer (.ok tx)) : tx.shard = shard := by
  have hanswer : (w.begin fiber shard).2 = .ok tx := Reply.answer.inj h
  unfold World.begin at hanswer
  split at hanswer
  · cases hanswer
    rfl
  · cases hanswer

/-- A request that has to wait hands nothing over. -/
theorem handsOver?_of_wait {jobProgram : ω → Process ω Unit} {w : World ω β} {fiber : FiberId}
    {r : Request ω} {condition : Wait}
    (h : (w.perform jobProgram fiber r).2 = .wait condition) : r.handsOver? = none := by
  cases r with
  | handOver executor job => cases h
  | _ => rfl

/-! ## What a request does to the processes -/

/-- What is left of a process that is an operation or a job. -/
def program? (w : World ω Unit) (id : FiberId) : Option (Process ω Unit) :=
  (w.fibers.get? id).bind fun f => f.body.program?

variable {w : World ω Unit}

/-- A new process has its own program, and the others go on with theirs. -/
theorem program?_spawn (w : World ω Unit) (body : Body ω Unit) (k : FiberId) :
    (w.spawn body).program? k = if k = w.nextFiber then body.program? else w.program? k := by
  unfold program? spawn
  simp only [OrderedMap.get?_insert]
  split <;> rfl

/-- A process that goes has no program any more, and the others go on with theirs. -/
theorem program?_dismiss (w : World ω Unit) (id k : FiberId) :
    (w.dismiss id).program? k = if k = id then none else w.program? k := by
  unfold program? dismiss wake
  simp only [OrderedMap.get?_erase]
  split <;> rfl

/-- A process that goes on has what is left of its program, and the others have theirs. -/
theorem program?_goOn (w : World ω Unit) (id k : FiberId) (p : Process ω Unit) :
    (w.modifyFiber id fun f => { f with body := f.body.goOn p }).program? k =
      if k = id then (w.program? id).map fun _ => p else w.program? k := by
  unfold program? modifyFiber
  simp only [OrderedMap.get?_modify]
  split
  · next hk =>
    subst hk
    cases w.fibers.get? k with
    | none => rfl
    | some f =>
      obtain ⟨body, held, aborted⟩ := f
      cases body <;> rfl
  · rfl

/-- Two worlds have the same processes, of which the same is left. -/
structure SameProcesses (w w' : World ω Unit) : Prop where
  program? : ∀ k, w'.program? k = w.program? k
  nextFiber : w'.nextFiber = w.nextFiber

/-- A world has the same processes as itself. -/
theorem SameProcesses.refl (w : World ω Unit) : SameProcesses w w := ⟨fun _ => rfl, rfl⟩

/-- What a process holds is no matter of its program. -/
theorem sameProcesses_held (w : World ω Unit) (id : FiberId) (held : List Handle → List Handle) :
    SameProcesses w (w.modifyFiber id fun f => { f with held := held f.held }) where
  program? k := by
    unfold World.program? modifyFiber
    simp only [OrderedMap.get?_modify]
    split
    · rw [Option.bind_map]
      rfl
    · rfl
  nextFiber := rfl

/-- Processes that are called off are still there. -/
theorem sameProcesses_abort (w : World ω Unit) (ids : List FiberId) :
    SameProcesses w (w.abort ids) where
  program? k := by
    unfold World.program? abort
    simp only
    generalize ids.filter w.fibers.contains = ids
    generalize w.fibers = fibers
    induction ids generalizing fibers with
    | nil => rfl
    | cons id rest ih =>
      rw [List.foldl_cons, ih, OrderedMap.get?_modify]
      split
      · rw [Option.bind_map]
        rfl
      · rfl
  nextFiber := rfl

/-- An operation on a store that may have to wait leaves the processes as they are. -/
theorem sameProcesses_inStoreWaiting {γ : Type} (w : World ω Unit) (tx : Handle)
    (act : Store → TransactionId → Store × Option (Except StoreError γ)) :
    SameProcesses w (w.inStoreWaiting tx act).1 := by
  unfold inStoreWaiting
  split <;> exact ⟨fun _ => rfl, rfl⟩

/-- The begin of a transaction leaves the processes as they are. -/
theorem sameProcesses_begin (w : World ω Unit) (id : FiberId) (shard : ShardId) :
    SameProcesses w (w.begin id shard).1 := by
  unfold World.begin
  split
  · next store tx _ =>
    have hheld := sameProcesses_held (w.setStore shard store) id (⟨shard, tx⟩ :: ·)
    exact ⟨hheld.program?, rfl⟩
  · exact ⟨fun _ => rfl, rfl⟩

/-- A probe of an operation leaves the processes as they are. -/
theorem sameProcesses_probe (w : World ω Unit) (shard : ShardId) (point : StorePoint) :
    SameProcesses w (w.probe shard point).1 := by
  unfold World.probe
  split <;> exact ⟨fun _ => rfl, rfl⟩

/-- A request leaves the processes as they are, unless it starts a job. -/
theorem sameProcesses_perform (jobProgram : ω → Process ω Unit) (w : World ω Unit) (id : FiberId)
    {r : Request ω} (h : r.handsOver? = none) :
    SameProcesses w (w.perform jobProgram id r).1 := by
  cases r with
  | probe shard point => exact w.sameProcesses_probe shard point
  | begin shard => exact w.sameProcesses_begin id shard
  | delete tx location task => exact w.sameProcesses_inStoreWaiting tx _
  | reenqueue tx asOf location task delay fresh => exact w.sameProcesses_inStoreWaiting tx _
  | abandon tx =>
    have hheld := sameProcesses_held (w.abandon tx) id fun held => held.filter (· ≠ tx)
    exact ⟨hheld.program?, rfl⟩
  | handOver executor job => cases h
  | abort fibers => exact w.sameProcesses_abort fibers
  | pass gate =>
    simp only [World.perform]
    split <;> exact .refl w
  | slot executor =>
    simp only [World.perform]
    split <;> exact ⟨fun _ => rfl, rfl⟩
  | passBefore _ _ | drained _ _ =>
    simp only [World.perform]
    split
    · exact .refl w
    · split <;> exact .refl w
  | sleepUntil t =>
    simp only [World.perform]
    split <;> exact .refl w
  | pauseUntil t =>
    simp only [World.perform]
    split <;> exact .refl w
  | beginDraining =>
    simp only [World.perform]
    split <;> exact ⟨fun _ => rfl, rfl⟩
  | ended fibers deadline =>
    simp only [World.perform]
    split
    · exact .refl w
    · split <;> exact .refl w
  | _ => exact ⟨fun _ => rfl, rfl⟩

/-- A request that hands a job over starts it. -/
theorem program?_perform (jobProgram : ω → Process ω Unit) (w : World ω Unit) (id : FiberId)
    (r : Request ω) (k : FiberId) :
    (w.perform jobProgram id r).1.program? k =
      match r.handsOver? with
      | some (_, job) => if k = w.nextFiber then some (jobProgram job) else w.program? k
      | none => w.program? k := by
  cases hr : r.handsOver? with
  | none => exact (w.sameProcesses_perform jobProgram id hr).program? k
  | some handed =>
    cases r with
    | handOver executor job =>
      cases hr
      exact program?_spawn _ _ k
    | _ => cases hr

/-- Only a job that is handed over is a new process. -/
theorem nextFiber_perform (jobProgram : ω → Process ω Unit) (w : World ω Unit) (id : FiberId)
    (r : Request ω) :
    (w.perform jobProgram id r).1.nextFiber =
      if r.handsOver?.isSome then w.nextFiber + 1 else w.nextFiber := by
  cases hr : r.handsOver? with
  | none => exact (w.sameProcesses_perform jobProgram id hr).nextFiber
  | some handed =>
    cases r with
    | handOver executor job => rfl
    | _ => cases hr

/-- A process that is dropped leaves the others as they are. -/
theorem bury_processes (w : World ω Unit) (id : FiberId) (f : Fiber ω Unit) :
    (∀ k, (w.bury id f).program? k = if k = id then none else w.program? k) ∧
      (w.bury id f).nextFiber = w.nextFiber := by
  have habandon : ∀ handles : List Handle, SameProcesses w (handles.foldl abandon w) := by
    intro handles
    generalize w = w
    induction handles generalizing w with
    | nil => exact .refl w
    | cons tx rest ih =>
      have hrest := ih (w.abandon tx)
      exact ⟨fun k => (hrest.program? k).trans rfl, hrest.nextFiber⟩
  have hheld := habandon f.held
  unfold bury
  constructor
  · intro k
    rw [program?_dismiss]
    split
    · rfl
    · rw [← hheld.program? k]
      split <;> rfl
  · refine Eq.trans ?_ hheld.nextFiber
    simp only [dismiss, wake]
    split <;> rfl

end World

/-! ## The account -/

namespace Engine

/-- A process that is dropped abandons its transactions, and that is all that happens to the
stores. -/
theorem store_bury (w : World (Job α) Unit) (id : FiberId) (f : Fiber (Job α) Unit)
    (s : ShardId) : (w.bury id f).store s = (f.held.foldl World.abandon w).store s := by
  unfold World.bury
  simp only
  split <;> rfl

/-- What is left of every process is left of its program after what it has asked and been told. -/
structure Accounted (e : Engine α) : Prop where
  unborn : ∀ {id}, e.world.nextFiber ≤ id → e.deed id = none ∧ e.said id = []
  runs : ∀ {id p}, e.world.program? id = some p →
    ∃ deed, e.deed id = some deed ∧ deed.program.Runs (e.said id) p
  /-- Transactions are those of the shard that they were opened for. -/
  honest : ∀ {id shard tx}, ⟨.begin shard, .ok tx⟩ ∈ e.said id → tx.shard = shard

/-- A change of the world that starts no process keeps the account. -/
theorem Accounted.of_program? {e : Engine α} (h : e.Accounted) {w : World (Job α) Unit}
    (hprogram : ∀ {k p}, w.program? k = some p → e.world.program? k = some p)
    (hnext : w.nextFiber = e.world.nextFiber) : Accounted { e with world := w } where
  unborn hid := h.unborn (hnext ▸ hid)
  runs hp := h.runs (hprogram hp)
  honest := h.honest

/-- The account is right after something has begun. -/
theorem Accounted.begin {e : Engine α} (h : e.Accounted) (deed : Deed α) :
    (e.begin deed).Accounted where
  unborn {id} hid := by
    have hlt : e.world.nextFiber < id := hid
    obtain ⟨hdeed, hsaid⟩ := h.unborn (Nat.le_of_lt hlt)
    exact ⟨(Function.update_of_ne (Nat.ne_of_gt hlt) _ _).trans hdeed, hsaid⟩
  runs {id p} hp := by
    simp only [Engine.begin, World.program?_spawn] at hp ⊢
    split at hp
    · next hid =>
      subst hid
      obtain ⟨-, hsaid⟩ := h.unborn (Nat.le_refl _)
      cases hp
      refine ⟨deed, Function.update_self _ _ _, ?_⟩
      rw [hsaid]
      exact .nil
    · next hid =>
      rw [Function.update_of_ne hid]
      exact h.runs hp
  honest := h.honest

/-- The account after an answer has one exchange more. -/
theorem said_answered (e : Engine α) (w : World (Job α) Unit) (id : FiberId)
    (x : Exchange (Job α)) (left : Process (Job α) Unit) (k : FiberId) :
    (e.answered w id x left).said k = if k = id then e.said id ++ [x] else e.said k :=
  Function.update_apply _ _ _ _

/-- What has been said after an answer was said before, or is the answer. -/
theorem mem_said_answered {e : Engine α} {w : World (Job α) Unit} {id k : FiberId}
    {x y : Exchange (Job α)} {left : Process (Job α) Unit}
    (h : y ∈ (e.answered w id x left).said k) : y ∈ e.said k ∨ (k = id ∧ y = x) := by
  rw [said_answered] at h
  split at h
  · next hk =>
    rcases List.mem_append.1 h with h | h
    · exact .inl (hk ▸ h)
    · exact .inr ⟨hk, List.mem_singleton.1 h⟩
  · exact .inl h

/-- Whoever has something to do has begun before the next process. -/
theorem Accounted.lt_nextFiber {e : Engine α} (h : e.Accounted) {id : FiberId} {deed : Deed α}
    (hdeed : e.deed id = some deed) : id < e.world.nextFiber :=
  Nat.lt_of_not_le fun hle => by
    rw [(h.unborn hle).1] at hdeed
    cases hdeed

/-- What was started stays what it was. -/
theorem Accounted.deedsAfter_of_some {e : Engine α} (h : e.Accounted) {r : Request (Job α)}
    {id : FiberId} {deed : Deed α} (hdeed : e.deed id = some deed) :
    e.deedsAfter r id = some deed := by
  unfold deedsAfter
  split
  · exact (if_neg (Nat.ne_of_lt (h.lt_nextFiber hdeed))).trans hdeed
  · exact hdeed

/-- An answer that starts no job is one exchange more for its process. -/
theorem Accounted.answered {e : Engine α} (h : e.Accounted) {w : World (Job α) Unit}
    {id : FiberId} {r : Request (Job α)} {reply : r.Reply}
    {next : r.Reply → Process (Job α) Unit}
    (hcall : e.world.program? id = some (.call r next))
    (hperform : e.world.perform Job.work id r = (w, .answer reply)) :
    (e.answered w id ⟨r, reply⟩ (next reply)).Accounted := by
  have hprogram := e.world.program?_perform Job.work id r
  have hnext := e.world.nextFiber_perform Job.work id r
  rw [hperform] at hprogram hnext
  obtain ⟨deed, hdeed, hruns⟩ := h.runs hcall
  refine ⟨fun {k} hk => ?_, fun {k p} hp => ?_, fun {k shard tx} hmem => ?_⟩
  · -- of a process that has not been started nothing was known before either
    have hk : w.nextFiber ≤ k := hk
    rw [hnext] at hk
    have hle : e.world.nextFiber ≤ k := by
      refine Nat.le_trans ?_ hk
      split
      · exact Nat.le_succ _
      · exact Nat.le_refl _
    have hne : k ≠ id := Nat.ne_of_gt (Nat.lt_of_lt_of_le (h.lt_nextFiber hdeed) hle)
    obtain ⟨hnone, hsaid⟩ := h.unborn hle
    rw [said_answered, if_neg hne]
    refine ⟨?_, hsaid⟩
    show e.deedsAfter r k = none
    unfold deedsAfter
    split
    · next hr =>
      rw [hr] at hk
      exact (if_neg (Nat.ne_of_gt hk)).trans hnone
    · exact hnone
  · rw [said_answered]
    show ∃ deed, e.deedsAfter r k = some deed ∧ _
    simp only [Engine.answered, World.program?_goOn] at hp
    split at hp
    · -- the process that has asked goes on with the answer
      next hk =>
      subst hk
      obtain ⟨_, -, rfl⟩ := Option.map_eq_some_iff.1 hp
      rw [if_pos rfl]
      exact ⟨deed, h.deedsAfter_of_some hdeed, hruns.answered reply⟩
    · next hk =>
      rw [if_neg hk]
      have hp := (hprogram k).symm.trans hp
      unfold deedsAfter
      split
      · next executor job hr =>
        rw [hr] at hp
        simp only at hp
        split at hp
        · -- the job that has just been handed over has not said anything
          next hk =>
          cases hp
          rw [(h.unborn (Nat.le_of_eq hk.symm)).2]
          exact ⟨.work job, if_pos hk, .nil⟩
        · next hk =>
          rw [if_neg hk]
          exact h.runs hp
      · next hr =>
        rw [hr] at hp
        exact h.runs hp
  · rcases mem_said_answered hmem with hmem | ⟨-, heq⟩
    · exact h.honest hmem
    · cases heq
      exact World.perform_begin_answer (congrArg Prod.snd hperform)

/-- A request has to wait, or it is answered and its process goes on. -/
theorem ask_cases (e : Engine α) (id : FiberId) (r : Request (Job α))
    (next : r.Reply → Process (Job α) Unit) :
    (∃ w condition, e.world.perform Job.work id r = (w, .wait condition) ∧
      e.ask id r next = { e with world := w }) ∨
    ∃ w reply, e.world.perform Job.work id r = (w, .answer reply) ∧
      e.ask id r next = e.answered w id ⟨r, reply⟩ (next reply) := by
  unfold ask
  split
  · next w condition hperform => exact .inl ⟨w, condition, hperform, rfl⟩
  · next w reply hperform => exact .inr ⟨w, reply, hperform, rfl⟩

/-- A process that has come to its end is gone; the stores and the other processes stay. -/
theorem finish_world (e : Engine α) (id : FiberId) (f : Fiber (Job α) Unit) :
    ∃ w, e.finish id f = { e with world := w } ∧ (∀ s, w.store s = e.world.store s) ∧
      (∀ {k p}, w.program? k = some p → e.world.program? k = some p) ∧
      w.nextFiber = e.world.nextFiber := by
  have hgone : ∀ {w : World (Job α) Unit}, w.program? = e.world.program? →
      ∀ {k p}, (w.dismiss id).program? k = some p → e.world.program? k = some p := by
    intro w hw k p hp
    rw [World.program?_dismiss] at hp
    split at hp
    · cases hp
    · exact hw ▸ hp
  unfold finish
  split
  · exact ⟨_, rfl, fun _ => rfl, hgone rfl, rfl⟩
  · exact ⟨_, rfl, fun _ => rfl, hgone rfl, rfl⟩

/-- A process that is told to go on has come to its end or asks something, if anything is left of
it. -/
theorem go_cases (e : Engine α) (id : FiberId) :
    (e.world.program? id = none ∧ e.go id = e) ∨
      (∃ f p, e.world.program? id = some p ∧ (∀ r next, p ≠ .call r next) ∧
        e.go id = e.finish id f) ∨
      ∃ r next, e.world.program? id = some (.call r next) ∧ e.go id = e.ask id r next := by
  unfold go World.program?
  cases e.world.fibers.get? id with
  | none => exact .inl ⟨rfl, rfl⟩
  | some f =>
    simp only [Option.bind_some]
    cases f.body.program? with
    | none => exact .inl ⟨rfl, rfl⟩
    | some p =>
      cases p with
      | done result => exact .inr (.inl ⟨f, _, rfl, by simp, rfl⟩)
      | panic cause => exact .inr (.inl ⟨f, _, rfl, by simp, rfl⟩)
      | call r next => exact .inr (.inr ⟨r, next, rfl, rfl⟩)

/-- The account is right after a request, whether it is answered or has to wait. -/
theorem Accounted.ask {e : Engine α} (h : e.Accounted) {id : FiberId} {r : Request (Job α)}
    {next : r.Reply → Process (Job α) Unit}
    (hcall : e.world.program? id = some (.call r next)) : (e.ask id r next).Accounted := by
  rcases e.ask_cases id r next with ⟨w, condition, hperform, hask⟩ | ⟨w, reply, hperform, hask⟩
  · rw [hask]
    have hsame := e.world.sameProcesses_perform Job.work id
      (World.handsOver?_of_wait (congrArg Prod.snd hperform))
    rw [hperform] at hsame
    exact h.of_program? (fun {k p} hp => (hsame.program? k).symm.trans hp) hsame.nextFiber
  · rw [hask]
    exact h.answered hcall hperform

/-- The account is right after a process has come to its end. -/
theorem Accounted.finish {e : Engine α} (h : e.Accounted) (id : FiberId)
    (f : Fiber (Job α) Unit) : (e.finish id f).Accounted := by
  obtain ⟨w, hfinish, -, hprogram, hnext⟩ := e.finish_world id f
  rw [hfinish]
  exact h.of_program? hprogram hnext

/-- The account is right after a process has gone on. -/
theorem Accounted.go {e : Engine α} (h : e.Accounted) (id : FiberId) : (e.go id).Accounted := by
  rcases e.go_cases id with ⟨-, hgo⟩ | ⟨f, -, -, -, hgo⟩ | ⟨r, next, hcall, hgo⟩
  · rw [hgo]
    exact h
  · rw [hgo]
    exact h.finish id f
  · rw [hgo]
    exact h.ask hcall

/-- The account is right after a process has been dropped. -/
theorem Accounted.drop {e : Engine α} (h : e.Accounted) (id : FiberId) : (e.drop id).Accounted := by
  unfold Engine.drop
  cases e.world.fibers.get? id with
  | none => exact h
  | some f =>
    obtain ⟨hprogram, hnext⟩ := e.world.bury_processes id f
    refine h.of_program? (fun {k p} hp => ?_) hnext
    rw [hprogram] at hp
    split at hp
    · cases hp
    · exact hp

/-- Every move keeps the account. -/
theorem Accounted.step {e : Engine α} (h : e.Accounted) (m : Move α) : (e.step m).Accounted := by
  cases m with
  | produce producer task => exact h.begin _
  | poll runner => exact h.begin _
  | go id => exact h.go id
  | drop id => exact h.drop id
  | outage shard on => exact h.of_program? id rfl
  | fail shard point times => exact h.of_program? id rfl
  | meanwhile surroundings => exact h.of_program? id rfl

/-- At the start there is nothing to be accounted for. -/
theorem accounted_start (clock : Instant) (shards : List ShardId) (executors : List Executor) :
    (start clock shards executors : Engine α).Accounted where
  unborn _ := ⟨rfl, rfl⟩
  runs h := by cases h
  honest h := by cases h

end Engine

end LeaseQueue
