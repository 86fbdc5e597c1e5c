import LeaseQueue.Process

/-!
# The sign to stop

Loops are told to stop by a sign that their owner can give, take back and, by going away, give for
good.  A wait under the sign lasts until its time is over or the loops are told to stop, whichever
comes first.

`StopSignal.wait` says so for a timetable of changes: it goes through the changes that come before
the end of the wait and stops at the first one that gives the sign.
-/

set_option autoImplicit false

namespace LeaseQueue

open Text

/-- The sign by which loops are told to stop. -/
structure StopSignal where
  /-- What was said last. -/
  raised : Bool
  /-- Whether there is still somebody who can say it. -/
  owned : Bool
deriving DecidableEq, Repr

namespace StopSignal

/-- The sign is not given, and its owner is there. -/
def initial : StopSignal := ⟨false, true⟩

/-- Whether the loops are told to stop. -/
def isStopped (s : StopSignal) : Bool := s.raised || !s.owned

/-- What the owner of a sign can do. -/
inductive Change
  | say (stop : Bool)
  | leave
deriving DecidableEq, Repr

/-- The sign after a change; once the owner has left, nothing changes any more. -/
def apply (s : StopSignal) : Change → StopSignal
  | .say stop => if s.owned then { s with raised := stop } else s
  | .leave => { s with owned := false }

/-- Changes with the times at which they happen, the earliest first. -/
abbrev Timetable := List (Tick × Change)

/-- The timetable with one more change, after those of the same time. -/
def Timetable.insert (t : Tick) (c : Change) : Timetable → Timetable
  | [] => [(t, c)]
  | (t', c') :: rest =>
    if t < t' then (t, c) :: (t', c') :: rest else (t', c') :: Timetable.insert t c rest

/-- How a wait ended. -/
structure Waited where
  /-- When it ended. -/
  time : Tick
  /-- The sign at that time. -/
  signal : StopSignal
  /-- The changes that are still to come. -/
  ahead : Timetable
deriving DecidableEq, Repr

/-- Waits from a point of time, at most until another one. -/
def wait (s : StopSignal) (now limit : Tick) : Timetable → Waited
  | [] => ⟨if s.isStopped then now else limit, s, []⟩
  | (t, c) :: rest =>
    if s.isStopped then ⟨now, s, (t, c) :: rest⟩
    else if limit < t then ⟨limit, s, (t, c) :: rest⟩
    else (s.apply c).wait (max now t) limit rest

end StopSignal

/-- Thirty years of 365 days, the wait in place of one that has no end in time. -/
def farAway : Nat := 86400 * 365 * 30 * nanosPerSecond

/-- The first point of time that is out of reach, in nanoseconds. -/
def tickLimit : Nat := wordHalf * nanosPerSecond

/-- The end of a wait from a point of time on. -/
def waitEnd (t : Tick) (d : Duration) : Tick :=
  if t + d.nanos < tickLimit then t + d.nanos else t + farAway

end LeaseQueue
