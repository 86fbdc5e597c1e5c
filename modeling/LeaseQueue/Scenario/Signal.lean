import LeaseQueue.StopSignal

/-!
# Scenarios of the sign to stop

Steps of the owner of a sign and of somebody who waits under it.  The owner may put a change off:
it then happens after some time, in the course of this wait or of a later one.  Putting off his
leaving is the last thing that he does; what he put off before still happens.
-/

set_option autoImplicit false

namespace LeaseQueue.Scenario

/-- One step. -/
inductive SignalStep
  | change (c : StopSignal.Change)
  /-- A wait, and perhaps a change that is put off by a time from its start. -/
  | wait (d : Duration) (later : Option (Duration × StopSignal.Change))

/-- A sign in the course of time. -/
structure SignalRun where
  time : Tick
  signal : StopSignal
  ahead : StopSignal.Timetable
  /-- Whether the owner has left or put off his leaving. -/
  resigned : Bool
deriving DecidableEq, Repr

namespace SignalRun

/-- The start. -/
def initial : SignalRun := ⟨0, .initial, [], false⟩

/-- Puts a change off to a point of time, unless the owner has resigned. -/
def postpone (r : SignalRun) (t : Tick) (c : StopSignal.Change) : SignalRun :=
  if r.resigned then r
  else { r with ahead := r.ahead.insert t c, resigned := decide (c = .leave) }

/-- One step, with the time that it took if it was a wait. -/
def step (r : SignalRun) : SignalStep → SignalRun × Option Duration
  | .change c =>
    if r.resigned then (r, none)
    else ({ r with signal := r.signal.apply c, resigned := decide (c = .leave) }, none)
  | .wait d later =>
    let r := match later with
      | some (after, c) => r.postpone (r.time + after.nanos) c
      | none => r
    let w := r.signal.wait r.time (waitEnd r.time d) r.ahead
    ({ r with time := w.time, signal := w.signal, ahead := w.ahead },
      some (.ofNanos (w.time - r.time)))

/-- All steps: whether the loops are told to stop after each, and the time that it took. -/
def steps (r : SignalRun) : List SignalStep → List (Bool × Option Duration)
  | [] => []
  | s :: rest =>
    let (r, took) := r.step s
    (r.signal.isStopped, took) :: r.steps rest

end SignalRun

end LeaseQueue.Scenario
