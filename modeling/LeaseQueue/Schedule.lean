import LeaseQueue.Settings

/-!
# Lease and reenqueue schedules

A lease schedule gives the time for which a pick hides a task, by the number of picks so far; a
reenqueue schedule gives the delay of a task whose consumer asks for another run without naming a
delay.  Both grow with the attempts and neither gives more than ten years.
-/

set_option autoImplicit false

namespace LeaseQueue

open Text

/-- The longest delay of any schedule: ten years of 365 days. -/
def maxDelay : Duration := .ofSeconds (10 * 365 * 24 * 60 * 60)

/-- A delay, or the longest one of any schedule. -/
def capped (d : Duration) : Duration := d.shorter maxDelay

/-- A power, unless it passes the largest number of 32 bits. -/
def powWord32? (base exponent : Nat) : Option Nat :=
  if base ≤ 1 then some (if exponent = 0 then 1 else base)
  else if 32 ≤ exponent then none
  else if base.pow exponent ≤ maxWord32 then some (base.pow exponent) else none

/-- A delay that grows by a constant step. -/
def arithmeticDelay (initial step : Duration) (n : Nat) : Duration :=
  capped (initial.add (step.scale n))

/-- A delay that grows by a constant ratio; a ratio too large for 32 bits gives the longest
delay. -/
def geometricDelay (initial : Duration) (ratio n : Nat) : Duration :=
  match powWord32? ratio n with
  | some factor => capped (initial.scale factor)
  | none => maxDelay

/-- The steps taken before an attempt; attempts count from one, and zero counts as one. -/
def stepsBefore (attempts : Nat) : Nat := max attempts 1 - 1

/-- The time for which a pick hides a task. -/
inductive LeaseSchedule
  | arithmetic (initial step : Duration)
  | geometric (initial : Duration)
  | fixed (delay : Duration)
deriving DecidableEq, Repr

namespace LeaseSchedule

/-- One minute, then two more at every attempt. -/
def defaultArithmetic : LeaseSchedule := .arithmetic (.ofSeconds 60) (.ofSeconds 120)

/-- One minute, then twice as long at every attempt. -/
def defaultGeometric : LeaseSchedule := .geometric (.ofSeconds 60)

instance : Inhabited LeaseSchedule := ⟨defaultGeometric⟩

/-- The key of the delay of a fixed lease. -/
def fixedDelayKey : String := "RETRY_FIXED_INTERVAL_DELAY"

/-- The schedule that settings ask for. -/
def ofSettings (s : Settings) : Except ConfigError LeaseSchedule :=
  match s.leaseKind with
  | .geometricBackoff => .ok defaultGeometric
  | .arithmeticBackoff => .ok defaultArithmetic
  | .fixedInterval => (s.requiredDuration fixedDelayKey).map .fixed

/-- The lease of a pick, counted from one. -/
def delay (schedule : LeaseSchedule) (attempts : Nat) : Duration :=
  match schedule with
  | .arithmetic initial step => arithmeticDelay initial step (stepsBefore attempts)
  | .geometric initial => geometricDelay initial 2 (stepsBefore attempts)
  | .fixed delay => capped delay

end LeaseSchedule

/-- Why there is no delay for a task that is to run again. -/
inductive RetryError
  | manualWithoutDelay (task : Int)
  | emptySequence
deriving DecidableEq, Repr

/-- The wording of each cause. -/
def RetryError.message : RetryError → String
  | .manualWithoutDelay task =>
    "task " ++ toString task ++
      " was reenqueued without a delay but the queue uses MANUAL reenqueue"
  | .emptySequence => "reenqueue delay sequence is empty"

/-- The delay of a task that is to run again. -/
inductive ReenqueueSchedule
  /-- The consumer always has to give a delay. -/
  | manual
  | fixed (delay : Duration)
  /-- One delay for every attempt; the last one repeats. -/
  | sequential (delays : List Duration)
  | arithmetic (initial step : Duration)
  | geometric (initial : Duration) (ratio : Nat)
deriving DecidableEq, Repr

namespace ReenqueueSchedule

instance : Inhabited ReenqueueSchedule := ⟨manual⟩

/-- The key of the delay of a fixed schedule. -/
def fixedDelayKey : String := "REENQUEUE_RETRY_DELAY"

/-- The key of the delays of a sequence, separated by commas. -/
def sequenceKey : String := "REENQUEUE_RETRY_SEQUENCE"

/-- The key of the first delay of a growing schedule. -/
def initialKey : String := "REENQUEUE_RETRY_INITIAL_DELAY"

/-- The key of the step of an arithmetic schedule. -/
def stepKey : String := "REENQUEUE_RETRY_STEP"

/-- The key of the ratio of a geometric schedule. -/
def ratioKey : String := "REENQUEUE_RETRY_RATIO"

/-- The parts of a list between the elements equal to a separator. -/
def splitAt (separator : Char) : List Char → List (List Char)
  | [] => [[]]
  | c :: rest =>
    if c = separator then [] :: splitAt separator rest
    else
      match splitAt separator rest with
      | [] => [[c]]
      | part :: parts => (c :: part) :: parts

/-- The delays of a text with commas between them. -/
def readSequence (value : String) : Except ConfigError (List Duration) :=
  (splitAt ',' value.toList).mapM fun item =>
    (Iso.parse (trim (String.ofList item))).mapError fun e =>
      .invalidSetting sequenceKey value (.duration e)

/-- A ratio of at least one that fits 32 bits. -/
def readRatio (value : String) : Except ConfigError Nat :=
  match readNumeral maxWord32 (trim value) with
  | .ok 0 => .error (.invalidSetting ratioKey value .ratioTooSmall)
  | .ok ratio => .ok ratio
  | .error e => .error (.invalidSetting ratioKey value (.numeral e))

/-- The schedule that settings ask for. -/
def ofSettings (s : Settings) : Except ConfigError ReenqueueSchedule :=
  match s.reenqueueKind with
  | .manual => .ok .manual
  | .fixed => (s.requiredDuration fixedDelayKey).map .fixed
  | .sequential => do
    let value ← s.required sequenceKey
    (readSequence value).map .sequential
  | .arithmetic => do
    let initial ← s.requiredDuration initialKey
    let step ← s.requiredDuration stepKey
    pure (.arithmetic initial step)
  | .geometric => do
    let initial ← s.requiredDuration initialKey
    let value ← s.required ratioKey
    (readRatio value).map (.geometric initial)

/-- The delay of a task with a number of attempts. -/
def delay (schedule : ReenqueueSchedule) (task : Int) (attempts : Nat) :
    Except RetryError Duration :=
  match schedule with
  | .manual => .error (.manualWithoutDelay task)
  | .fixed delay => .ok (capped delay)
  | .sequential delays =>
    match delays[min (stepsBefore attempts) (delays.length - 1)]? with
    | some delay => .ok (capped delay)
    | none => .error .emptySequence
  | .arithmetic initial step => .ok (arithmeticDelay initial step (stepsBefore attempts))
  | .geometric initial ratio => .ok (geometricDelay initial ratio (stepsBefore attempts))

end ReenqueueSchedule

end LeaseQueue
