import LeaseQueue.Settings

/-!
# States of loops and pools

What a polling loop and a pool of loops are doing, and how long a pool waits when it stops.
-/

set_option autoImplicit false

namespace LeaseQueue

open Text

/-- What a polling loop is doing. -/
inductive LoopState
  | idle
  | running
  /-- Waiting after a poll. -/
  | waiting
  /-- Waiting after a poll that crashed. -/
  | crashed
  | stopped
deriving DecidableEq, Repr

instance : Named LoopState where
  all := [.idle, .running, .waiting, .crashed, .stopped]
  name
    | .idle => "idle"
    | .running => "running"
    | .waiting => "waiting"
    | .crashed => "crashed"
    | .stopped => "stopped"

/-- What a pool is doing. -/
inductive PoolStatus
  | stopped
  | running
  /-- Stopping: the loops finish their poll. -/
  | draining
deriving DecidableEq, Repr

instance : Named PoolStatus where
  all := [.stopped, .running, .draining]
  name
    | .stopped => "stopped"
    | .running => "running"
    | .draining => "draining"

/-- How a pool is run. -/
structure PoolConfig where
  /-- How long stopping waits for loops and executors. -/
  shutdownTimeout : Duration
deriving DecidableEq, Repr

namespace PoolConfig

/-- Thirty seconds for stopping. -/
def default : PoolConfig := ⟨.ofSeconds 30⟩

/-- The milliseconds of a variable; one that is not set or no number leaves the default. -/
def ofVariable (value : Option String) : PoolConfig :=
  match value.map (readNumeral maxWord64) with
  | some (.ok n) => ⟨.ofMillis n⟩
  | _ => default

end PoolConfig

end LeaseQueue
