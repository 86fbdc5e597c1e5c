import LeaseQueue.Duration.Iso
import LeaseQueue.Location

/-!
# Queue settings

How a queue is processed: the waits between polls, the transaction boundary of a poll, the lease
granted at every pick and the delay of a task that is to run again.  Parameters of the last two are
texts under fixed keys and are read only when a schedule is built from them.

A value of an enumeration is written in capitals and underscores and read in either letter case,
with blanks around it.
-/

set_option autoImplicit false

namespace LeaseQueue

open Text

/-- A type whose values have fixed names. -/
class Named (α : Type) where
  all : List α
  name : α → String

/-- A text that names no value. -/
structure UnknownValue where
  given : String
  expected : List String
deriving DecidableEq, Repr

/-- The wording of the refusal: the text as it was compared, and all names. -/
def UnknownValue.message (e : UnknownValue) : String :=
  "unknown value " ++ quoted e.given ++ ", expected one of: " ++ ", ".intercalate e.expected

/-- Reads a name in either letter case, with blanks around it. -/
def Named.read {α : Type} [Named α] (text : String) : Except UnknownValue α :=
  let given := upper (trim text)
  match (Named.all : List α).find? fun a => Named.name a == given with
  | some a => .ok a
  | none => .error ⟨given, (Named.all : List α).map Named.name⟩

/-- The transaction boundary under which a queue is processed. -/
inductive ProcessingMode
  /-- The pick and the outcome are committed separately. -/
  | separateTransactions
  /-- The pick, the work and the outcome share one transaction. -/
  | wrapInTransaction
  /-- The pick is committed and the work handed to an executor. -/
  | useExternalExecutor
deriving DecidableEq, Repr

/-- The kind of lease schedule. -/
inductive LeaseKind
  | geometricBackoff
  | arithmeticBackoff
  | fixedInterval
deriving DecidableEq, Repr

/-- The kind of reenqueue schedule. -/
inductive ReenqueueKind
  | manual
  | fixed
  | sequential
  | arithmetic
  | geometric
deriving DecidableEq, Repr

instance : Named ProcessingMode where
  all := [.separateTransactions, .wrapInTransaction, .useExternalExecutor]
  name
    | .separateTransactions => "SEPARATE_TRANSACTIONS"
    | .wrapInTransaction => "WRAP_IN_TRANSACTION"
    | .useExternalExecutor => "USE_EXTERNAL_EXECUTOR"

instance : Named LeaseKind where
  all := [.geometricBackoff, .arithmeticBackoff, .fixedInterval]
  name
    | .geometricBackoff => "GEOMETRIC_BACKOFF"
    | .arithmeticBackoff => "ARITHMETIC_BACKOFF"
    | .fixedInterval => "FIXED_INTERVAL"

instance : Named ReenqueueKind where
  all := [.manual, .fixed, .sequential, .arithmetic, .geometric]
  name
    | .manual => "MANUAL"
    | .fixed => "FIXED"
    | .sequential => "SEQUENTIAL"
    | .arithmetic => "ARITHMETIC"
    | .geometric => "GEOMETRIC"

/-- What is wrong with the text of a setting or a variable. -/
inductive ValueFault
  | duration (cause : Iso.Invalid)
  | numeral (cause : NumeralError)
  | unknown (cause : UnknownValue)
  | ratioTooSmall
deriving DecidableEq, Repr

/-- The wording of each fault. -/
def ValueFault.message : ValueFault → String
  | .duration cause => cause.message
  | .numeral cause => cause.message
  | .unknown cause => cause.message
  | .ratioTooSmall => "ratio must be at least 1"

/-- Why a configuration is refused. -/
inductive ConfigError
  | invalidLocation (cause : Location.Refusal)
  | missingSetting (key : String)
  | invalidSetting (key value : String) (fault : ValueFault)
  | invalidVariable (name value : String) (fault : ValueFault)
deriving DecidableEq, Repr

/-- The wording of each refusal. -/
def ConfigError.message : ConfigError → String
  | .invalidLocation cause => "invalid queue location: " ++ cause.message
  | .missingSetting key => "missing setting: " ++ key
  | .invalidSetting key value fault =>
    "invalid setting " ++ key ++ "=" ++ quoted value ++ ": " ++ fault.message
  | .invalidVariable name value fault =>
    "invalid environment variable " ++ name ++ "=" ++ quoted value ++ ": " ++ fault.message

/-- The location of two names, or the configuration error. -/
def Location.checked (table queue : String) : Except ConfigError Location :=
  (Location.make table queue).mapError .invalidLocation

/-- How one queue is processed. -/
structure Settings where
  /-- The wait after a poll that found nothing. -/
  noTaskTimeout : Duration
  /-- The wait after a poll that processed a task. -/
  betweenTaskTimeout : Duration
  /-- The wait after a poll that crashed. -/
  fatalCrashTimeout : Duration
  mode : ProcessingMode
  leaseKind : LeaseKind
  reenqueueKind : ReenqueueKind
  /-- The parameters of the two schedules, by their keys. -/
  parameters : OrderedMap String String
deriving DecidableEq

namespace Settings

/-- The wait after a crash unless another one is set. -/
def defaultCrashTimeout : Duration := .ofSeconds 1

/-- Settings with the two required waits and the defaults for all else. -/
def ofTimeouts (noTask betweenTask : Duration) : Settings where
  noTaskTimeout := noTask
  betweenTaskTimeout := betweenTask
  fatalCrashTimeout := defaultCrashTimeout
  mode := .separateTransactions
  leaseKind := .geometricBackoff
  reenqueueKind := .manual
  parameters := .empty

instance : Inhabited Settings := ⟨ofTimeouts .zero .zero⟩

/-- The parameter at a key. -/
def parameter? (s : Settings) (key : String) : Option String := s.parameters.get? key

/-- The parameter at a key that has to be there. -/
def required (s : Settings) (key : String) : Except ConfigError String :=
  match s.parameter? key with
  | some value => .ok value
  | none => .error (.missingSetting key)

/-- The duration at a key that has to be there. -/
def requiredDuration (s : Settings) (key : String) : Except ConfigError Duration := do
  let value ← s.required key
  (Iso.parse value).mapError fun e => .invalidSetting key value (.duration e)

end Settings

/-- Where a queue lives and how it is processed; its producer and its consumer have to agree on
both. -/
structure QueueConfig where
  location : Location
  settings : Settings
deriving DecidableEq

end LeaseQueue
