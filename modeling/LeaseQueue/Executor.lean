/-!
# Executors

An executor runs jobs off the polling loops, a limited number at a time.  Whoever wants to hand a
job over waits for a slot; slots that become free are granted in the order in which the waiting
began.  A closed executor grants nothing any more, also not to those who have been granted a slot
and have not used it yet.

This is how the ready-made executor takes jobs, and all executors are taken to do so.  What else an
executor of another make may do is in its hook, which a pool calls when it stops (`Hook`).

`Executor` is the state of this and every step a function on it; whoever waits is named by a
number.
-/

set_option autoImplicit false

namespace LeaseQueue

/-- The slots of an executor. -/
structure Executor where
  /-- How many jobs run at a time. -/
  limit : Nat
  /-- How many slots are neither used nor granted. -/
  free : Nat
  /-- How many jobs have been started and have not ended. -/
  active : Nat
  /-- Who waits for a slot, the longest first. -/
  waiting : List Nat
  /-- Who has been granted a slot and has not been told yet. -/
  granted : List Nat
  closed : Bool
deriving DecidableEq, Repr

namespace Executor

/-- An executor without jobs; a limit of zero counts as one. -/
def make (limit : Nat) : Executor where
  limit := max limit 1
  free := max limit 1
  active := 0
  waiting := []
  granted := []
  closed := false

instance : Inhabited Executor := ⟨make 1⟩

/-- What one finds who asks for a slot. -/
inductive Answer
  | granted
  | refused
  | wait
deriving DecidableEq, Repr

/-- Asks for a slot, for the first time or again after waiting. -/
def request (e : Executor) (who : Nat) : Executor × Answer :=
  if e.closed then
    ({ e with
      waiting := e.waiting.filter (· != who)
      granted := e.granted.filter (· != who) }, .refused)
  else if e.granted.contains who then
    ({ e with granted := e.granted.filter (· != who) }, .granted)
  else if e.waiting.contains who then (e, .wait)
  else if 0 < e.free ∧ e.waiting.isEmpty then ({ e with free := e.free - 1 }, .granted)
  else ({ e with waiting := e.waiting ++ [who] }, .wait)

/-- Frees one slot: the one who has waited longest is granted it. -/
def release (e : Executor) : Executor :=
  match e.waiting with
  | [] => { e with free := e.free + 1 }
  | who :: rest => { e with waiting := rest, granted := e.granted ++ [who] }

/-- Gives up waiting; a slot that was granted meanwhile is freed. -/
def leave (e : Executor) (who : Nat) : Executor :=
  if e.granted.contains who then
    { e with granted := e.granted.filter (· != who) }.release
  else { e with waiting := e.waiting.filter (· != who) }

/-- Starts a job in a slot. -/
def start (e : Executor) : Executor := { e with active := e.active + 1 }

/-- Ends a job, in whatever way. -/
def finish (e : Executor) : Executor := { e.release with active := e.active - 1 }

/-- Closes the executor for good. -/
def close (e : Executor) : Executor := { e with closed := true }

/-- Whether the executor is closed and has no unfinished job. -/
def isDrained (e : Executor) : Bool := e.closed && e.active == 0

/-- Whether one who waits has something to be told. -/
def hasAnswer (e : Executor) (who : Nat) : Bool := e.closed || e.granted.contains who

end Executor

end LeaseQueue
