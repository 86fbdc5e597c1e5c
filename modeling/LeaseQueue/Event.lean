import LeaseQueue.Failure

/-!
# Events

What observers of tasks and of polling loops are told, what a log says about it, and the observers
themselves.  An observer answers every event with notices, and it may panic after giving them; it
changes nothing else.
-/

set_option autoImplicit false

namespace LeaseQueue

/-- What happens to one task. -/
inductive TaskEvent
  /-- The task was picked, which took a while. -/
  | picked (record : TaskRecord) (took : Duration)
  | started (record : TaskRecord)
  /-- The consumer gave a verdict, after a while. -/
  | executed (record : TaskRecord) (verdict : Verdict) (took : Duration)
  /-- Reading the payload, the consumer or recording its verdict failed. -/
  | crashed (record : TaskRecord) (error : QueueError)
  | finished (record : TaskRecord)
deriving DecidableEq

/-- What happens in one polling loop. -/
inductive LoopEvent
  | started
  | executed (status : PollStatus) (took : Duration)
  | crashed (error : QueueError)
  | finished
deriving DecidableEq

/-- The word for an event of a task. -/
def TaskEvent.name : TaskEvent → String
  | .picked .. => "picked"
  | .started _ => "started"
  | .executed .. => "executed"
  | .crashed .. => "crashed"
  | .finished _ => "finished"

/-- The word for an event of a loop. -/
def LoopEvent.name : LoopEvent → String
  | .started => "t-started"
  | .executed .. => "t-executed"
  | .crashed _ => "t-crashed"
  | .finished => "t-finished"

/-- How much a line of a log matters. -/
inductive LogLevel
  | debug
  | info
  | warn
deriving DecidableEq, Repr

/-- The word for a level. -/
def LogLevel.name : LogLevel → String
  | .debug => "DEBUG"
  | .info => "INFO"
  | .warn => "WARN"

/-- The value of a field of a log line. -/
inductive LogValue
  | number (n : Int)
  | text (s : String)
deriving DecidableEq, Repr

/-- A line of a log. -/
structure LogLine where
  level : LogLevel
  message : String
  fields : List (String × LogValue)
deriving DecidableEq, Repr

/-- The fields by which every line names its queue. -/
def queueFields (shard : ShardId) (location : Location) : List (String × LogValue) :=
  [("shard", .text shard.name), ("queue", .text location.display)]

/-- The line for an event of a task, if a log takes note of it. -/
def TaskEvent.logLine? (shard : ShardId) (location : Location) : TaskEvent → Option LogLine
  | .picked record took =>
    some ⟨.debug, "task picked", queueFields shard location ++
      [("task_id", .number record.id), ("attempts", .number record.attempts),
        ("pick_time_ms", .number took.millisWord)]⟩
  | .executed record verdict took =>
    some ⟨.info, "task executed", queueFields shard location ++
      [("task_id", .number record.id), ("result", .text verdict.display),
        ("elapsed_ms", .number took.millisWord)]⟩
  | .crashed record error =>
    some ⟨.warn, "task crashed", queueFields shard location ++
      [("task_id", .number record.id), ("attempts", .number record.attempts),
        ("error", .text error.message)]⟩
  | .started _ => none
  | .finished _ => none

/-- The line for an event of a loop, if a log takes note of it. -/
def LoopEvent.logLine? (shard : ShardId) (location : Location) : LoopEvent → Option LogLine
  | .executed .processed took =>
    some ⟨.debug, "poll cycle processed a task", queueFields shard location ++
      [("elapsed_ms", .number took.millisWord)]⟩
  | .executed .skipped _ => none
  | .crashed error =>
    some ⟨.warn, "poll cycle crashed", queueFields shard location ++
      [("error", .text error.message)]⟩
  | .started => none
  | .finished => none

/-- What can be seen of a run from outside. -/
inductive Notice
  | task (shard : ShardId) (location : Location) (event : TaskEvent)
  | loop (shard : ShardId) (location : Location) (event : LoopEvent)
  /-- A consumer got a task. -/
  | consumed (shard : ShardId) (location : Location) (task : Task String)
  | log (line : LogLine)
deriving DecidableEq

/-- How an observer answers an event. -/
structure Reaction where
  notices : List Notice
  panic : Option Panic
deriving DecidableEq

/-- An observer of the tasks of queues. -/
abbrev TaskListener := ShardId → Location → TaskEvent → Reaction

/-- An observer of polling loops. -/
abbrev LoopListener := ShardId → Location → LoopEvent → Reaction

/-- The observer of tasks that takes note of nothing. -/
def TaskListener.silent : TaskListener := fun _ _ _ => ⟨[], none⟩

/-- The observer of loops that takes note of nothing. -/
def LoopListener.silent : LoopListener := fun _ _ _ => ⟨[], none⟩

/-- The observer of tasks that writes a log. -/
def TaskListener.logging : TaskListener := fun shard location event =>
  ⟨((event.logLine? shard location).map Notice.log).toList, none⟩

/-- The observer of loops that writes a log. -/
def LoopListener.logging : LoopListener := fun shard location event =>
  ⟨((event.logLine? shard location).map Notice.log).toList, none⟩

end LeaseQueue
