import LeaseQueue.World

/-!
# Taking turns

One way to interleave the processes of a world: the one that has been ready longest goes on until it
ends or has to wait, then it is the next one's turn.  Time stands still while any process is ready;
when none is, it may jump to the earliest moment at which a wait is over.

A process that has been called off ends at its turn: its transactions are abandoned and it no longer
waits for a slot.
-/

set_option autoImplicit false

namespace LeaseQueue.World

variable {ω β γ : Type}

/-- How far a process has come in its turn. -/
inductive Progress (ω γ : Type)
  | ended (outcome : Except Panic γ)
  | blocked (program : Process ω γ) (condition : Wait)

/-- Lets a process go on until it ends or has to wait. -/
def run (jobProgram : ω → Process ω Unit) (w : World ω β) (id : FiberId) :
    Process ω γ → World ω β × Progress ω γ
  | .done result => (w, .ended (.ok result))
  | .panic cause => (w, .ended (.error cause))
  | .call request next =>
    match w.perform jobProgram id request with
    | (w, .answer reply) => w.wake.run jobProgram id (next reply)
    | (w, .wait condition) => (w, .blocked (.call request next) condition)

/-- The world without a process that has ended. -/
def dismiss (w : World ω β) (id : FiberId) : World ω β :=
  { w with fibers := w.fibers.erase id }.wake

/-- Parks a process. -/
def park (w : World ω β) (id : FiberId) (body : Body ω β) (condition : Wait) : World ω β :=
  { w.modifyFiber id fun f => { f with body := body } with parked := w.parked ++ [(id, condition)] }

/-- Ends a process that has been called off. -/
def bury (w : World ω β) (id : FiberId) (f : Fiber ω β) : World ω β :=
  let w := f.held.foldl abandon w
  let w := { w with executors := w.executors.map fun e => Executor.leave e id }
  let w :=
    match f.body with
    | .job executor _ => w.setExecutor executor (w.executor executor).finish
    | _ => w
  w.dismiss id

/-- One turn of a process. -/
def turn (jobProgram : ω → Process ω Unit) (w : World ω β) (id : FiberId) : World ω β :=
  match w.fibers.get? id with
  | none => w
  | some f =>
    if f.aborted then w.bury id f
    else
      match f.body with
      | .operation program =>
        match w.run jobProgram id program with
        | (w, .ended outcome) => { w with results := (id, outcome) :: w.results }.dismiss id
        | (w, .blocked program condition) => w.park id (.operation program) condition
      | .job executor program =>
        match w.run jobProgram id program with
        | (w, .ended _) => (w.setExecutor executor (w.executor executor).finish).dismiss id
        | (w, .blocked program condition) => w.park id (.job executor program) condition
      | .loop round program =>
        match w.run jobProgram id program with
        | (w, .ended (.ok true)) =>
          { w.modifyFiber id fun f => { f with body := .loop round round } with
            ready := id :: w.ready }
        | (w, .ended _) => w.dismiss id
        | (w, .blocked program condition) => w.park id (.loop round program) condition

/-- Turns until no process is ready; at most as many as the fuel says. -/
def settle (jobProgram : ω → Process ω Unit) (w : World ω β) : Nat → World ω β
  | 0 => w
  | fuel + 1 =>
    match w.ready with
    | [] => w
    | id :: rest => ({ w with ready := rest }.turn jobProgram id).settle jobProgram fuel

/-- The earliest moment at which a wait is over in any case. -/
def nextTimer? (w : World ω β) : Option Tick :=
  (w.parked.filterMap fun p => p.2.timer?).min?

/-- Turns until an operation has its result, with time passing whenever no process is ready. -/
def settleThrough (jobProgram : ω → Process ω Unit) (turns : Nat) (operation : FiberId)
    (w : World ω β) : Nat → World ω β
  | 0 => w
  | fuel + 1 =>
    let w := w.settle jobProgram turns
    if w.results.any fun r => r.1 == operation then w
    else
      match w.nextTimer? with
      | none => w
      | some t =>
        ({ w with time := max w.time t }.wake).settleThrough jobProgram turns operation fuel

/-- A number of turns that no terminating run reaches. -/
def turnLimit : Nat := 1000000000

end LeaseQueue.World
