import LeaseQueue.Loop
import LeaseQueue.Scenario.Answer
import LeaseQueue.Scenario.Script
import LeaseQueue.World.Schedule

/-!
# Scenarios over transactions, runners and loops

A scenario is a list of steps over a few queues.  Each step starts an operation or changes the
world; then all that can go on does so until nothing moves.  An operation that has to wait stays
under way and is reported when it ends.  Transactions are known by names and stay under their name
until they are dropped.
-/

set_option autoImplicit false

namespace LeaseQueue.Scenario

/-- The queues of a scenario. -/
structure QueueSpec where
  config : QueueConfig
  codec : Codec String
  router : Router String
  script : List ScriptEntry
  producer : Producer String
  recording : Recording
  executor : Option String

/-- The consumer of a queue. -/
def QueueSpec.consumer (q : QueueSpec) (number : Nat) : Consumer String :=
  scripted number q.config q.codec q.router q.script

/-- One step. -/
inductive Step
  | begin (tx : String) (shard : ShardId)
  | drop (tx : String)
  | enqueue (tx : String) (location : Location) (task : NewTask)
  | pick (tx : String) (location : Location) (lease : LeaseSchedule)
  /-- A pick that is told to a recording observer under the name of a shard. -/
  | pickRecorded (tx : String) (location : Location) (lease : LeaseSchedule) (shard : ShardId)
  | delete (tx : String) (location : Location) (id : TaskId)
  | reenqueue (tx : String) (location : Location) (id : TaskId) (delay : Duration) (fresh : Bool)
  | commit (tx : String)
  | rollback (tx : String)
  /-- Records a verdict on a row with these attempts, in a transaction or in one of its own. -/
  | record (tx : Option String) (recorder : Recorder) (id : TaskId) (attempts : Nat)
      (verdict : Verdict)
  | produce (queue : Nat) (task : Submission String)
  | poll (queue : Nat) (shard : ShardId)
  | cycle (queue : Nat) (shard : ShardId)
  | loopState (queue : Nat) (shard : ShardId)
  | rehearse (queue : Nat) (shard : ShardId) (cycles : Nat) (advance : Bool)
  | executor (name : String)
  | shutExecutor (name : String)
  | advance (duration : Duration)
  | setClock (t : Instant)
  | gate (name : String)
  | outage (shard : ShardId) (on : Bool)
  | fault (shard : ShardId) (point : StorePoint) (times : Nat)
  | setProcessTime (shard : ShardId) (id : TaskId) (t : Instant)
  | find (shard : ShardId) (id : TaskId)
  | count (shard : ShardId) (location : Location)
  | dump (shard : ShardId)
  /-- A step that names no location. -/
  | refused (cause : ConfigError)

/-- The world of scenarios. -/
abbrev ScenarioWorld := World (Job String) Answer

/-- A run of a scenario. -/
structure Run where
  world : ScenarioWorld
  queues : List QueueSpec
  /-- The executors by their names. -/
  executors : OrderedMap String ExecutorId
  /-- The transactions by their names. -/
  transactions : OrderedMap String Handle
  /-- The operations under way inside a transaction. -/
  busy : OrderedMap String FiberId
  /-- The labels of the operations under way. -/
  labels : OrderedMap FiberId String
  /-- The loops that have been used, by queue and shard. -/
  loops : List ((Nat × ShardId) × LoopId)

namespace Run

/-- The start of a run. -/
def initial (clock : Instant) (shards : List ShardId) (executors : List (String × Nat))
    (queues : List QueueSpec) : Run where
  world := .initial clock shards (executors.map fun e => .make e.2)
  queues := queues
  executors := .ofList (executors.zipIdx.map fun e => (e.1.1, e.2))
  transactions := .empty
  busy := .empty
  labels := .empty
  loops := []

/-- All that can go on does so until nothing moves. -/
def settle (r : Run) : Run :=
  { r with world := r.world.wake.settle Job.work World.turnLimit }

/-- What has been seen since the last step and which operations have ended, oldest first. -/
def collect (r : Run) (result : Answer) : Run × StepAnswer :=
  let results := r.world.results.reverse
  let ended := results.filterMap fun e =>
    (r.labels.get? e.1).map fun label => (label, Answer.ofOutcome e.2)
  let ids := results.map Prod.fst
  ({ r with
      world := { r.world with results := [], trace := [] }
      labels := ids.foldl OrderedMap.erase r.labels
      busy := ⟨r.busy.entries.filter fun e => !ids.contains e.2, r.busy.increasing.filter _⟩ },
    ⟨result, r.world.trace.reverse, ended⟩)

/-- A step that changes the world at once. -/
def change (r : Run) (f : ScenarioWorld → ScenarioWorld) (result : Answer) : Run × StepAnswer :=
  { r with world := f r.world }.settle.collect result

/-- A step that starts an operation.  If it does not end, it stays under way with its label, and a
transaction that it works in is busy. -/
def start (r : Run) (label : String) (tx : Option String) (p : Process (Job String) Answer) :
    Run × StepAnswer :=
  let id := r.world.nextFiber
  let r := { r with world := r.world.spawn (.operation p) }.settle
  match r.world.results.find? fun e => e.1 == id with
  | some (_, outcome) => r.collect (Answer.ofOutcome outcome)
  | none =>
    let (r, answer) := r.collect .pending
    ({ r with
        labels := r.labels.insert id label
        busy := match tx with
          | some name => r.busy.insert name id
          | none => r.busy },
      answer)

/-- A step inside a transaction. -/
def inTransaction (r : Run) (name : String) (p : Handle → Process (Job String) Answer) :
    Run × StepAnswer :=
  match r.transactions.get? name with
  | none => r.collect .noTransaction
  | some tx =>
    if r.busy.contains name then r.collect .busy else r.start name (some name) (p tx)

/-- Forgets a transaction: what it waits in is called off, and it is abandoned. -/
def forget (r : Run) (name : String) : Run :=
  match r.transactions.get? name with
  | none => r
  | some tx =>
    let world :=
      match r.busy.get? name with
      | none => r.world
      | some id =>
        { r.world with
          fibers := r.world.fibers.erase id
          parked := r.world.parked.filter fun p => p.1 != id }
    { r with
      world := world.abandon tx
      transactions := r.transactions.erase name
      busy := r.busy.erase name
      labels := match r.busy.get? name with
        | none => r.labels
        | some id => r.labels.erase id }

/-- A step on a queue. -/
def onQueue (r : Run) (queue : Nat) (f : QueueSpec → Run × StepAnswer) : Run × StepAnswer :=
  match r.queues[queue]? with
  | some q => f q
  | none => r.collect .done

/-- The runner of a queue on a shard. -/
def runner (r : Run) (queue : Nat) (q : QueueSpec) (shard : ShardId) :
    Except QueueError (Runner String) :=
  Runner.make (q.consumer queue) shard q.recording.taskListener (q.executor.bind r.executors.get?)

/-- A loop around a runner, known to the world from now on. -/
def newLoop (r : Run) (q : QueueSpec) (runner : Runner String) : Run × PollLoop String :=
  let entry : LoopEntry := ⟨runner.processor.shard, q.config.location, .idle⟩
  ({ r with world := { r.world with loops := r.world.loops ++ [entry] } },
    ⟨r.world.loops.length, runner, q.recording.loopListener⟩)

/-- The loop of a queue on a shard, made at its first use. -/
def loop (r : Run) (queue : Nat) (q : QueueSpec) (shard : ShardId) :
    Except QueueError (Run × PollLoop String) := do
  let runner ← r.runner queue q shard
  match r.loops.find? fun l => l.1 == (queue, shard) with
  | some (_, id) => pure (r, ⟨id, runner, q.recording.loopListener⟩)
  | none =>
    let (r, l) := r.newLoop q runner
    pure ({ r with loops := ((queue, shard), l.id) :: r.loops }, l)

/-- A row of which only the identifier and the attempts count. -/
def bareRecord (id : TaskId) (attempts : Nat) : TaskRecord :=
  ⟨id, none, attempts, .epoch, .epoch, none, none⟩

/-- One cycle of a loop and the state that it leaves. -/
def cycleProcess (l : PollLoop String) : Process (Job String) Answer := do
  let wait ← l.cycle
  let state : LoopState ← .ask (.loopState l.id)
  pure (.cycled wait state)

/-- Some cycles of a loop and the state that they leave. -/
def rehearseProcess (l : PollLoop String) (cycles : Nat) (advance : Bool) :
    Process (Job String) Answer := do
  let waits ← l.rehearse advance cycles
  let state : LoopState ← .ask (.loopState l.id)
  pure (.rehearsed waits state)

/-- Closes an executor and waits for its jobs. -/
def shutProcess (id : ExecutorId) : Process (Job String) Answer := do
  .ask (.close id)
  let _ : Bool ← .ask (.drained id none)
  let active : Nat ← .ask (.activeJobs id)
  pure (.jobs active)

/-- The answer of a part of a process that fails with the error of a store. -/
def storeAnswer {α : Type} (f : α → Answer) (a : Action (Job String) StoreError α) :
    Process (Job String) Answer :=
  a.run.bind fun r => .done (Answer.ofStore f r)

/-- The answer of a part of a process that fails with the error of a queue. -/
def queueAnswer {α : Type} (f : α → Answer) (a : Action (Job String) QueueError α) :
    Process (Job String) Answer :=
  a.run.bind fun r => .done (Answer.ofQueue f r)

/-- One step; the label names an operation that belongs to no transaction. -/
def step (r : Run) (label : String) : Step → Run × StepAnswer
  | .begin name shard =>
    let (r, answer) := r.start label none (storeAnswer .begun (Session.begin shard))
    match answer.result with
    | .begun tx =>
      let r := r.forget name
      let r := { r with transactions := r.transactions.insert name tx }
      let (r, later) := r.settle.collect .done
      (r, ⟨.done, answer.events ++ later.events, answer.ended ++ later.ended⟩)
    | _ => (r, answer)
  | .drop name =>
    if r.transactions.contains name then (r.forget name).settle.collect .done
    else r.collect .noTransaction
  | .enqueue name location task =>
    r.inTransaction name fun tx => storeAnswer .added (Session.enqueue tx location task)
  | .pick name location lease =>
    r.inTransaction name fun tx => storeAnswer .picked (Session.pick tx location lease)
  | .pickRecorded name location lease shard =>
    r.inTransaction name fun tx =>
      storeAnswer .picked (pickTask shard location lease Recording.plain.taskListener tx)
  | .delete name location id =>
    r.inTransaction name fun tx => storeAnswer .flag (Session.delete tx location id)
  | .reenqueue name location id delay fresh =>
    r.inTransaction name fun tx =>
      storeAnswer .flag (Session.reenqueue tx location id delay fresh)
  | .commit name =>
    r.inTransaction name fun tx => storeAnswer (fun _ => .done) (Session.commit tx)
  | .rollback name =>
    r.inTransaction name fun tx => storeAnswer (fun _ => .done) (Session.rollback tx)
  | .record (some name) recorder id attempts verdict =>
    r.inTransaction name fun tx =>
      queueAnswer (fun _ => .done) (recorder.record (bareRecord id attempts) verdict (some tx))
  | .record none recorder id attempts verdict =>
    r.start label none <|
      queueAnswer (fun _ => .done) (recorder.record (bareRecord id attempts) verdict none)
  | .produce queue task =>
    r.onQueue queue fun q => r.start label none (queueAnswer .produced (q.producer.enqueue task))
  | .poll queue shard =>
    r.onQueue queue fun q =>
      match r.runner queue q shard with
      | .error e => r.collect (.queueFailed e)
      | .ok runner => r.start label none (queueAnswer .polled runner.poll)
  | .cycle queue shard =>
    r.onQueue queue fun q =>
      match r.loop queue q shard with
      | .error e => r.collect (.queueFailed e)
      | .ok (r, l) => r.start label none (cycleProcess l)
  | .loopState queue shard =>
    r.onQueue queue fun q =>
      match r.loop queue q shard with
      | .error e => r.collect (.queueFailed e)
      | .ok (r, l) =>
        match r.world.loops[l.id]? with
        | some entry => r.collect (.loopEntry entry.shard entry.location entry.state)
        | none => r.collect .done
  | .rehearse queue shard cycles advance =>
    r.onQueue queue fun q =>
      match r.runner queue q shard with
      | .error e => r.collect (.queueFailed e)
      | .ok runner =>
        let (r, l) := r.newLoop q runner
        r.start label none (rehearseProcess l cycles advance)
  | .executor name =>
    match r.executors.get? name with
    | some id => r.collect (.executor (r.world.executor id).active (r.world.executor id).limit)
    | none => r.collect .done
  | .shutExecutor name =>
    match r.executors.get? name with
    | some id => r.start label none (shutProcess id)
    | none => r.collect .done
  | .advance duration =>
    let now := r.world.clock.advance duration
    r.change (fun w => { w with clock := now }) (.clock now)
  | .setClock t => r.change (fun w => { w with clock := t }) (.clock t)
  | .gate name => r.change (fun w => { w with gates := name :: w.gates }) .done
  | .outage shard on =>
    r.change (fun w => w.setStore shard { w.store shard with unavailable := on }) .done
  | .fault shard point times => r.change (fun w => w.setFaults shard point times) .done
  | .setProcessTime shard id t =>
    let (store, found) := (r.world.store shard).setProcessTime id t
    r.change (fun w => w.setStore shard store) (.flag found)
  | .find shard id => r.collect (.picked ((r.world.store shard).find id))
  | .count shard location => r.collect (.number ((r.world.store shard).count location))
  | .dump shard => r.collect (.rows (r.world.store shard).records)
  | .refused cause => r.collect (.configFailed cause)

/-- A whole scenario: the steps with their labels, one after the other. -/
def steps (r : Run) : List (String × Step) → List StepAnswer
  | [] => []
  | (label, s) :: rest =>
    let (r, answer) := r.step label s
    answer :: r.steps rest

end Run

end LeaseQueue.Scenario
