import LeaseQueue.Settings

/-!
# Settings from variables

Settings read from a list of named texts such as the environment.  Of the variables with a given
stem, six hold the fields of the settings and those with `SETTING_` behind the stem hold parameters;
all others are of no interest.  Of two bindings of one name the later one counts.
-/

set_option autoImplicit false

namespace LeaseQueue.Settings

open Text

/-- The texts with a stem, by what stands behind it. -/
structure Bindings where
  fields : OrderedMap String String
  parameters : OrderedMap String String

/-- What stands behind a stem. -/
def behind? (stem name : String) : Option String :=
  if stem.toList.isPrefixOf name.toList then
    some (String.ofList (name.toList.drop stem.length))
  else none

/-- The stem of all names: one underscore in place of those at its end. -/
def stemOf (given : String) : String :=
  String.ofList (given.toList.reverse.dropWhile (· == '_')).reverse ++ "_"

namespace Bindings

/-- One more binding; a parameter without a key is dropped. -/
def add (stem : String) (b : Bindings) (binding : String × String) : Bindings :=
  let (name, value) := binding
  match behind? (stem ++ "SETTING_") name with
  | some key => if key.isEmpty then b else { b with parameters := b.parameters.insert key value }
  | none =>
    match behind? stem name with
    | some key => { b with fields := b.fields.insert key value }
    | none => b

/-- The bindings of a list of variables. -/
def ofVariables (stem : String) (vars : List (String × String)) : Bindings :=
  vars.foldl (add stem) ⟨.empty, .empty⟩

/-- The milliseconds of a field, if it is bound. -/
def millis? (b : Bindings) (stem key : String) : Except ConfigError (Option Duration) :=
  match b.fields.get? key with
  | none => .ok none
  | some value =>
    match readNumeral maxWord64 (trim value) with
    | .ok n => .ok (some (.ofMillis n))
    | .error e => .error (.invalidVariable (stem ++ key) value (.numeral e))

/-- The milliseconds of a field that has to be bound. -/
def millis (b : Bindings) (stem key : String) : Except ConfigError Duration := do
  match ← b.millis? stem key with
  | some d => .ok d
  | none => .error (.missingSetting (stem ++ key))

/-- The named value of a field, if it is bound. -/
def choice? {α : Type} [Named α] (b : Bindings) (stem key : String) :
    Except ConfigError (Option α) :=
  match b.fields.get? key with
  | none => .ok none
  | some value =>
    match Named.read value with
    | .ok a => .ok (some a)
    | .error e => .error (.invalidVariable (stem ++ key) value (.unknown e))

end Bindings

/-- Settings from variables.  The fields are looked at in a fixed order and the first fault
counts. -/
def ofVariables (stem : String) (vars : List (String × String)) :
    Except ConfigError Settings := do
  let stem := stemOf stem
  let b := Bindings.ofVariables stem vars
  let noTask ← b.millis stem "NO_TASK_TIMEOUT_MS"
  let betweenTask ← b.millis stem "BETWEEN_TASK_TIMEOUT_MS"
  let crash ← b.millis? stem "FATAL_CRASH_TIMEOUT_MS"
  let mode ← b.choice? stem "PROCESSING_MODE"
  let leaseKind ← b.choice? stem "RETRY_TYPE"
  let reenqueueKind ← b.choice? stem "REENQUEUE_RETRY_TYPE"
  let defaults := ofTimeouts noTask betweenTask
  pure {
    noTaskTimeout := noTask
    betweenTaskTimeout := betweenTask
    fatalCrashTimeout := crash.getD defaults.fatalCrashTimeout
    mode := mode.getD defaults.mode
    leaseKind := leaseKind.getD defaults.leaseKind
    reenqueueKind := reenqueueKind.getD defaults.reenqueueKind
    parameters := b.parameters }

end LeaseQueue.Settings
