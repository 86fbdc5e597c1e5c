import LeaseQueue.Consumer

/-!
# Scripts

Consumers and observers for runs that are to be followed from outside.  A scripted consumer takes
one entry of its script at every call and finishes the task once the script is used up; a recording
observer gives every event as a notice and may be told to panic at one of them.
-/

set_option autoImplicit false

namespace LeaseQueue.Scenario

/-- What a scripted consumer does at one call, in the order of the fields. -/
structure ScriptEntry where
  /-- How far the clock moves. -/
  takes : Option Duration
  /-- Whether the database of the task's shard is cut off or brought back. -/
  outage : Option Bool
  /-- The gate to wait at. -/
  gate : Option String
  /-- Whether a task without payload is an error. -/
  needsPayload : Bool
  error : Option (List String)
  panic : Option Panic
  /-- Whether the payload says what the verdict is. -/
  echo : Bool
  verdict : Verdict

/-- An entry that finishes the task. -/
def ScriptEntry.finish : ScriptEntry := ⟨none, none, none, false, none, none, false, .finish⟩

/-- The verdict that a payload names. -/
def echoed : Option String → Verdict
  | some "fail" => .fail none
  | some "reenqueue" => .reenqueue none
  | _ => .finish

namespace ScriptEntry

/-- How the entry ends. -/
def ending (e : ScriptEntry) (task : Task String) : Ending :=
  if e.needsPayload && task.payload.isNone then .error [PayloadError.missing.message]
  else
    match e.error, e.panic with
    | some causes, _ => .error causes
    | none, some cause => .panic cause
    | none, none => .verdict (if e.echo then echoed task.payload else e.verdict)

/-- What the entry does with a task of a queue; the task is announced first. -/
def handling (e : ScriptEntry) (location : Location) (task : Task String) : Handling where
  effects :=
    [.announce (.consumed task.shard location task)] ++
    (e.takes.map Effect.advance).toList ++
    (e.outage.map (Effect.outage task.shard)).toList ++
    (e.gate.map Effect.pass).toList
  ending := e.ending task

end ScriptEntry

/-- The consumer that follows a script. -/
def scripted (number : Nat) (config : QueueConfig) (codec : Codec String) (router : Router String)
    (script : List ScriptEntry) : Consumer String where
  number := number
  config := config
  codec := codec
  router := router
  handle calls task := ((script[calls]?).getD .finish).handling config.location task

/-- How much a recording observer does: whether it writes a log too, and at which event it
panics. -/
structure Recording where
  logging : Bool
  panicAt : Option String

namespace Recording

/-- A recording observer without a log that never panics. -/
def plain : Recording := ⟨false, none⟩

/-- The panic at an event. -/
def panic? (r : Recording) (event : String) : Option Panic :=
  if r.panicAt = some event then some (.text ("listener bug in " ++ event)) else none

/-- The recording observer of tasks. -/
def taskListener (r : Recording) : TaskListener := fun shard location event =>
  let lines := if r.logging then (TaskListener.logging shard location event).notices else []
  ⟨.task shard location event :: lines, r.panic? event.name⟩

/-- The recording observer of loops. -/
def loopListener (r : Recording) : LoopListener := fun shard location event =>
  let lines := if r.logging then (LoopListener.logging shard location event).notices else []
  ⟨.loop shard location event :: lines, r.panic? event.name⟩

end Recording

end LeaseQueue.Scenario
