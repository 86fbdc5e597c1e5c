import LeaseQueue.Process

/-!
# Shutdown hooks of executors

A registry takes executors of any make.  A pool that stops calls the hook of each: it may close the
slots of its executor, wait for the jobs or for anything else, and in the end it returns or panics.
The hook of the ready-made executor closes the slots and waits for the jobs; an executor without a
hook of its own has one that does nothing.  In all other things an executor is like the ready-made
one.

A hook is given up at a deadline: it is not asked to go on once it has to wait and the deadline is
over.
-/

set_option autoImplicit false

namespace LeaseQueue

variable {ω : Type}

/-- One thing that the hook of an executor does. -/
inductive HookStep
  /-- Closes the slots of the executor. -/
  | close
  /-- Waits until the executor is closed and has no unfinished job. -/
  | awaitJobs
  /-- Waits for something outside, which is a gate that somebody opens. -/
  | pass (gate : String)
deriving DecidableEq, Repr

/-- What the hook of an executor does, one thing after the other, and whether it panics then. -/
structure Hook where
  steps : List HookStep
  panic : Option Panic
deriving DecidableEq

namespace Hook

/-- The hook of the ready-made executor. -/
def closing : Hook := ⟨[.close, .awaitJobs], none⟩

/-- The hook of an executor that has none of its own. -/
def idle : Hook := ⟨[], none⟩

/-- The hook waits for the jobs of its executor. -/
def Awaits (h : Hook) : Prop := .awaitJobs ∈ h.steps

instance (h : Hook) : Decidable h.Awaits := inferInstanceAs (Decidable (_ ∈ _))

/-- The hook does not panic. -/
def Calm (h : Hook) : Prop := h.panic = none

instance (h : Hook) : Decidable h.Calm := inferInstanceAs (Decidable (_ = _))

end Hook

/-- What is registered for a queue: an executor, and what its hook does when it is called for this
queue.  An executor may be registered for several queues. -/
structure External where
  executor : ExecutorId
  hook : Hook
deriving DecidableEq

/-- An executor of which nothing else is said is a ready-made one. -/
instance : Coe ExecutorId External := ⟨fun e => ⟨e, .closing⟩⟩

/-- What a step of a hook asks, given the deadline of the hook. -/
def HookStep.request (e : ExecutorId) (deadline : Tick) : HookStep → Request ω
  | close => .close e
  | awaitJobs => .drained e (some deadline)
  | pass gate => .passBefore gate deadline

/-- Whether what a hook has waited for came before its deadline was over. -/
def Request.inTime : (r : Request ω) → r.Reply → Bool
  | .drained .., (came : Bool) => came
  | .passBefore .., (came : Bool) => came
  | _, _ => true

namespace External

/-- What is left of the hook of an executor up to a deadline; true if it returns by then. -/
def finishHook (x : External) (deadline : Tick) : List HookStep → Process ω Bool
  | [] =>
    match x.hook.panic with
    | some cause => .panic cause
    | none => .done true
  | step :: rest =>
    .call (step.request x.executor deadline) fun reply =>
      if (step.request x.executor deadline).inTime reply then x.finishHook deadline rest
      else .done false

/-- The hook of an executor up to a deadline; true if it returns by then. -/
def callHook (x : External) (deadline : Tick) : Process ω Bool :=
  x.finishHook deadline x.hook.steps

end External

end LeaseQueue
