import LeaseQueue.Hook
import LeaseQueue.Loop

/-!
# The registry

A registry takes queues, shards, observers and executors in any order.  At the end it says whether
all of it fits together: the consumer and the producer of a queue agree, its schedules can be made,
every shard that a router may name is there and no other one, and an executor stands by exactly
those queues that hand their work over.  What is accepted is a wiring; otherwise all that is wrong
is listed, what was found on the way first.
-/

set_option autoImplicit false

namespace LeaseQueue

open Text

/-- The kinds of companions that a queue may have. -/
inductive Companion
  | taskListener
  | loopListener
  | executor
deriving DecidableEq, Repr

/-- The word for a companion that is registered. -/
def Companion.title : Companion → String
  | .taskListener => "task lifecycle listener"
  | .loopListener => "thread lifecycle listener"
  | .executor => "external executor"

/-- The word for a companion that is looked for. -/
def Companion.name : Companion → String
  | .taskListener => "task listener"
  | .loopListener => "thread listener"
  | .executor => "external executor"

/-- What may be wrong with a set of registrations. -/
inductive Problem
  | configsDiffer (location : Location)
  | codecsDiffer (location : Location)
  | routersDiffer (location : Location)
  | invalidLease (location : Location) (cause : ConfigError)
  | invalidReenqueue (location : Location) (cause : ConfigError)
  | duplicateQueue (location : Location)
  /-- Queues of different tables have one name. -/
  | ambiguousName (first second : Location)
  | duplicateShard (shard : ShardId)
  | duplicateCompanion (kind : Companion) (location : Location)
  | unknownShard (shard : ShardId)
  | unusedShards (shards : List ShardId)
  | missingExecutor (location : Location)
  | needlessExecutor (location : Location)
  | strayCompanion (kind : Companion) (location : Location)
deriving DecidableEq

/-- The wording of each problem. -/
def Problem.message : Problem → String
  | .configsDiffer l => "queue config must be the same: location=" ++ l.display
  | .codecsDiffer l => "payload transformers must be the same: location=" ++ l.display
  | .routersDiffer l => "shard routers must be the same: location=" ++ l.display
  | .invalidLease l cause =>
    "invalid task retry settings: location=" ++ l.display ++ ", error=" ++ cause.message
  | .invalidReenqueue l cause =>
    "invalid reenqueue retry settings: location=" ++ l.display ++ ", error=" ++ cause.message
  | .duplicateQueue l => "duplicate queue: location=" ++ l.display
  | .ambiguousName first second =>
    "queue name must be unique: queueName=" ++ second.queue ++ ", locations=" ++
      first.display ++ "," ++ second.display
  | .duplicateShard shard => "duplicate shard: shardId=" ++ shard.name
  | .duplicateCompanion kind l => "duplicate " ++ kind.title ++ ": location=" ++ l.display
  | .unknownShard shard => "shard not found: shardId=" ++ shard.name
  | .unusedShards shards =>
    "shards is not used: shardIds=" ++ ",".intercalate (shards.map ShardId.name)
  | .missingExecutor l =>
    "external executor missing for processing mode USE_EXTERNAL_EXECUTOR: location=" ++ l.display
  | .needlessExecutor l =>
    "external executor must be specified only for processing mode USE_EXTERNAL_EXECUTOR: " ++
      "location=" ++ l.display
  | .strayCompanion kind l => "no matching queue for " ++ kind.name ++ ": location=" ++ l.display

/-- The wording of a whole list of problems. -/
def Problem.report (problems : List Problem) : String :=
  "invalid queue configuration:\n" ++ "\n".intercalate (problems.map message)

/-- One registration. -/
inductive Registration (α : Type)
  | queue (consumer : Consumer α) (producer : Producer α)
  | shard (shard : ShardId)
  | taskListener (location : Location) (listener : TaskListener)
  | loopListener (location : Location) (listener : LoopListener)
  | executor (location : Location) (executor : External)

/-- What has been registered, each thing under its first registration. -/
structure Wiring (α : Type) where
  queues : OrderedMap Location (Consumer α)
  shards : OrderedMap ShardId Unit
  taskListeners : OrderedMap Location TaskListener
  loopListeners : OrderedMap Location LoopListener
  executors : OrderedMap Location External

namespace Wiring

variable {α : Type}

/-- Nothing. -/
def empty : Wiring α := ⟨.empty, .empty, .empty, .empty, .empty⟩

/-- The observer of the tasks of a queue. -/
def taskListener (w : Wiring α) (l : Location) : TaskListener :=
  (w.taskListeners.get? l).getD .silent

/-- The observer of the loops of a queue. -/
def loopListener (w : Wiring α) (l : Location) : LoopListener :=
  (w.loopListeners.get? l).getD .silent

/-- The shards that a queue's router may name, for every queue. -/
def usedShards (w : Wiring α) : OrderedMap ShardId Unit :=
  .ofList ((w.queues.values.flatMap fun c => c.router.shards).map fun s => (s, ()))

/-- The shards that are used but not there, and those that are there but not used. -/
def shardProblems (w : Wiring α) : List Problem :=
  let unused := w.shards.keys.filter fun s => !w.usedShards.contains s
  (w.usedShards.keys.filter fun s => !w.shards.contains s).map Problem.unknownShard ++
    if unused.isEmpty then [] else [.unusedShards unused]

/-- What is wrong with the executor of a queue. -/
def executorProblem? (w : Wiring α) (l : Location) (c : Consumer α) : Option Problem :=
  match decide (c.config.settings.mode = .useExternalExecutor), w.executors.contains l with
  | true, false => some (.missingExecutor l)
  | false, true => some (.needlessExecutor l)
  | _, _ => none

/-- The executors that are missing or not needed. -/
def executorProblems (w : Wiring α) : List Problem :=
  w.queues.entries.filterMap fun e => w.executorProblem? e.1 e.2

/-- The companions of a kind that stand where no queue is. -/
def strays (w : Wiring α) (kind : Companion) (locations : List Location) : List Problem :=
  (locations.filter fun l => !w.queues.contains l).map (.strayCompanion kind)

/-- All that does not fit together. -/
def problems (w : Wiring α) : List Problem :=
  w.shardProblems ++ w.executorProblems ++
    w.strays .taskListener w.taskListeners.keys ++
    w.strays .loopListener w.loopListeners.keys ++
    w.strays .executor w.executors.keys

end Wiring

/-- Registrations so far. -/
structure Registry (α : Type) where
  wiring : Wiring α
  /-- What was found to be wrong, in the order in which it was found. -/
  problems : List Problem

namespace Registry

variable {α : Type}

/-- A registry without registrations. -/
def empty : Registry α := ⟨.empty, []⟩

/-- The points on which the consumer and the producer of a queue have to agree, and the schedules of
its settings. -/
def queueProblems (consumer : Consumer α) (producer : Producer α) : List Problem :=
  let l := consumer.config.location
  let settings := consumer.config.settings
  (if consumer.config = producer.config then [] else [.configsDiffer l]) ++
  (if consumer.codec.identity = producer.codec.identity then [] else [.codecsDiffer l]) ++
  (if consumer.router.identity = producer.router.identity then [] else [.routersDiffer l]) ++
  (match LeaseSchedule.ofSettings settings with
    | .ok _ => []
    | .error e => [.invalidLease l e]) ++
  (match ReenqueueSchedule.ofSettings settings with
    | .ok _ => []
    | .error e => [.invalidReenqueue l e])

/-- The first queue with the name of a location. -/
def namesake? (r : Registry α) (l : Location) : Option Location :=
  r.wiring.queues.keys.find? fun other => other.queue == l.queue

/-- The problems of one more queue among those that are there. -/
def placeProblems (r : Registry α) (l : Location) : List Problem :=
  if r.wiring.queues.contains l then [.duplicateQueue l]
  else
    match r.namesake? l with
    | some other => [.ambiguousName other l]
    | none => []

/-- A problem if a key is taken. -/
def taken {κ ν : Type} [Ord κ] (m : OrderedMap κ ν) (k : κ) (p : Problem) : List Problem :=
  if m.contains k then [p] else []

/-- What is wrong with a registration, given those before. -/
def found (r : Registry α) : Registration α → List Problem
  | .queue consumer producer =>
    queueProblems consumer producer ++ r.placeProblems consumer.config.location
  | .shard s => taken r.wiring.shards s (.duplicateShard s)
  | .taskListener l _ => taken r.wiring.taskListeners l (.duplicateCompanion .taskListener l)
  | .loopListener l _ => taken r.wiring.loopListeners l (.duplicateCompanion .loopListener l)
  | .executor l _ => taken r.wiring.executors l (.duplicateCompanion .executor l)

/-- What is there after a registration. -/
def wired (w : Wiring α) : Registration α → Wiring α
  | .queue consumer _ => { w with queues := w.queues.insertNew consumer.config.location consumer }
  | .shard s => { w with shards := w.shards.insertNew s () }
  | .taskListener l listener => { w with taskListeners := w.taskListeners.insertNew l listener }
  | .loopListener l listener => { w with loopListeners := w.loopListeners.insertNew l listener }
  | .executor l e => { w with executors := w.executors.insertNew l e }

/-- One more registration. -/
def register (r : Registry α) (registration : Registration α) : Registry α :=
  ⟨wired r.wiring registration, r.problems ++ r.found registration⟩

/-- All registrations, one after the other. -/
def ofRegistrations (registrations : List (Registration α)) : Registry α :=
  registrations.foldl register empty

/-- The wiring if nothing is wrong, or else all that is. -/
def finish (r : Registry α) : Except (List Problem) (Wiring α) :=
  match r.problems ++ r.wiring.problems with
  | [] => .ok r.wiring
  | problems => .error problems

end Registry

namespace Wiring

variable {α : Type}

/-- What a wiring shows of itself. -/
structure Outline where
  queues : List (Location × ProcessingMode × Bool)
  shards : List ShardId
  executors : Nat
  /-- All of it in one line. -/
  line : String
deriving DecidableEq

/-- The two parts of a location with their names. -/
def locationLine (l : Location) : String :=
  "QueueLocation \x7b table_name: " ++ quoted l.table ++ ", queue_name: " ++ quoted l.queue ++
    " \x7d"

/-- A list in square brackets. -/
def bracketed (items : List String) : String := "[" ++ ", ".intercalate items ++ "]"

/-- A shard as it stands in the line. -/
def shardLine (s : ShardId) : String := "QueueShardId(" ++ quoted s.name ++ ")"

/-- The locations of the queues, the shards and the locations of the executors in one line. -/
def line (w : Wiring α) : String :=
  "RegisteredQueues \x7b queues: " ++ bracketed (w.queues.keys.map locationLine) ++
    ", shards: " ++ bracketed (w.shards.keys.map shardLine) ++
    ", executors: " ++ bracketed (w.executors.keys.map locationLine) ++ ", .. \x7d"

/-- What the wiring shows of itself; every queue with its mode and whether it has an executor. -/
def outline (w : Wiring α) : Outline where
  queues := w.queues.entries.map fun e =>
    (e.1, e.2.config.settings.mode, w.executors.contains e.1)
  shards := w.shards.keys
  executors := w.executors.size
  line := w.line

end Wiring

end LeaseQueue
