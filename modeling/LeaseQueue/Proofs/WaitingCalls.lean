import Mathlib.Logic.Function.Basic
import LeaseQueue.Proofs.StoreChanges

/-!
# Waiting for a row, step by step

`Store.delete` and `Store.reenqueue` take effect at once or have to be tried again, and the end of a
transaction is one action.  Between threads none of this is one step.  A call that wants to change a
row starts to listen for the signal that transactions give when they have ended, looks at the row,
and parks if another transaction holds it; once it is woken it does the same again.  When it is
granted the row it writes it in a further step.  A transaction that ends first changes the store and
then gives the signal, and one whose changes are taken back first takes them back and then frees its
rows.  Any other transaction may act in between.

The signal wakes whoever has begun to listen before it is given; nothing more is known of it, so a
parked call may also be woken for no reason.

The operations of the store are these steps taken without interruption: `delete_alone`,
`reenqueue_alone`, `commit_alone` and `abandon_alone`.
-/

set_option autoImplicit false

namespace LeaseQueue

namespace Store

/-- What is to become of a row. -/
inductive Rewrite
  | delete
  | reschedule (processTime : Instant) (fresh : Bool)

/-- A row that is to be changed, and how. -/
structure Write where
  location : Location
  id : TaskId
  change : Rewrite

/-- A row becomes a transaction's own. -/
def hold (s : Store) (tx : TransactionId) (id : TaskId) : Store :=
  { s with rows := s.rows.modify id fun row => { row with holder := some tx } }

/-- A row is changed; if it is not there, nothing happens. -/
def apply (s : Store) (tx : TransactionId) (w : Write) : Store :=
  match s.rows.get? w.id with
  | none => s
  | some row =>
    match w.change with
    | .delete =>
      note { s with rows := s.rows.erase w.id } tx (.deleted row.location row.record)
    | .reschedule processTime fresh =>
      let record := { row.record with
        processTime := processTime
        attempts := if fresh then 0 else row.record.attempts }
      note { s with rows := s.rows.insert w.id { row with record := record } } tx
        (.updated row.record)

/-- The changes of a transaction are taken back, and it has none any more; its rows are not free
yet. -/
def drained (s : Store) (tx : TransactionId) : Store :=
  { s.undoAll tx with journals := s.journals.insert tx [] }

/-- A transaction holds a row. -/
def Holds (s : Store) (tx : TransactionId) (id : TaskId) : Prop :=
  ∃ row, s.rows.get? id = some row ∧ row.holder = some tx

end Store

open Store (Write)

/-- How far a transaction is.  A call remembers how many signals had been given when it began to
listen. -/
inductive Phase
  | resting
  /-- The call listens, and has not looked at the row yet. -/
  | listening (w : Write) (heard : Nat)
  /-- The call has found that another transaction holds the row. -/
  | refused (w : Write) (heard : Nat)
  | parked (w : Write) (heard : Nat)
  /-- The row is the transaction's own, and has not been changed yet. -/
  | granted (w : Write)
  /-- The changes have been taken back, the rows are not free yet. -/
  | undone
  /-- The transaction has ended, the others have not been told yet. -/
  | freed

namespace Phase

/-- What a call wants, and how many signals had been given when it began to listen. -/
def call? : Phase → Option (Write × Nat)
  | listening w heard => some (w, heard)
  | refused w heard => some (w, heard)
  | parked w heard => some (w, heard)
  | _ => none

/-- A call that has been refused, parked or about to be. -/
def waits? : Phase → Option (Write × Nat)
  | refused w heard => some (w, heard)
  | parked w heard => some (w, heard)
  | _ => none

/-- The transaction is about to end. -/
def ending : Phase → Prop
  | undone => True
  | freed => True
  | _ => False

/-- A call that waits is under way. -/
theorem call?_of_waits? {phase : Phase} {w : Write} {heard : Nat}
    (h : phase.waits? = some (w, heard)) : phase.call? = some (w, heard) := by
  cases phase <;> first | exact h | cases h

end Phase

/-- A store with its transactions, and the number of signals given so far. -/
structure Traffic where
  store : Store
  phase : TransactionId → Phase
  signals : Nat

/-- The steps of the transactions, and of the world around the store. -/
inductive Move
  | begin
  | outage (on : Bool)
  | setProcessTime (id : TaskId) (t : Instant)
  | enqueue (tx : TransactionId) (now : Instant) (location : Location) (task : NewTask)
  | pick (tx : TransactionId) (now : Instant) (location : Location) (lease : LeaseSchedule)
  /-- A deletion or a reenqueueing is called, and begins to listen. -/
  | call (tx : TransactionId) (w : Write)
  | look (tx : TransactionId)
  | park (tx : TransactionId)
  | wake (tx : TransactionId)
  | write (tx : TransactionId)
  /-- A parked call is given up. -/
  | giveUp (tx : TransactionId)
  | commit (tx : TransactionId)
  /-- The transaction is rolled back or dropped. -/
  | takeBack (tx : TransactionId)
  /-- A transaction whose changes have been taken back frees its rows. -/
  | free (tx : TransactionId)
  | signal (tx : TransactionId)

namespace Traffic

/-- No transaction has begun. -/
def start : Traffic := ⟨.empty, fun _ => .resting, 0⟩

/-- A transaction goes on to another phase, and leaves another store behind. -/
def become (t : Traffic) (tx : TransactionId) (s : Store) (phase : Phase) : Traffic :=
  ⟨s, Function.update t.phase tx phase, t.signals⟩

/-- An operation of a transaction that does nothing else. -/
def whenResting (t : Traffic) (tx : TransactionId) (next : Traffic) : Traffic :=
  match t.phase tx with
  | .resting => if t.store.isOpen tx then next else t
  | _ => t

/-- One step; a step that is not the transaction's next one does nothing. -/
def step (t : Traffic) : Move → Traffic
  | .begin => { t with store := t.store.begin.1 }
  | .outage on => { t with store := { t.store with unavailable := on } }
  | .setProcessTime id time => { t with store := (t.store.setProcessTime id time).1 }
  | .enqueue tx now location task =>
    t.whenResting tx { t with store := (t.store.enqueue tx now location task).1 }
  | .pick tx now location lease =>
    t.whenResting tx { t with store := (t.store.pick tx now location lease).1 }
  | .call tx w => t.whenResting tx (t.become tx t.store (.listening w t.signals))
  | .look tx =>
    match t.phase tx with
    | .listening w heard =>
      match t.store.access tx w.location w.id with
      | .granted _ => t.become tx (t.store.hold tx w.id) (.granted w)
      | .missing => t.become tx t.store .resting
      | .heldElsewhere => t.become tx t.store (.refused w heard)
    | _ => t
  | .park tx =>
    match t.phase tx with
    | .refused w heard => t.become tx t.store (.parked w heard)
    | _ => t
  | .wake tx =>
    match t.phase tx with
    | .parked w _ => t.become tx t.store (.listening w t.signals)
    | _ => t
  | .write tx =>
    match t.phase tx with
    | .granted w => t.become tx (t.store.apply tx w) .resting
    | _ => t
  | .giveUp tx =>
    match t.phase tx with
    | .parked .. => t.become tx t.store .resting
    | _ => t
  | .commit tx => t.whenResting tx (t.become tx (t.store.release tx) .freed)
  | .takeBack tx => t.whenResting tx (t.become tx (t.store.drained tx) .undone)
  | .free tx =>
    match t.phase tx with
    | .undone => t.become tx (t.store.release tx) .freed
    | _ => t
  | .signal tx =>
    match t.phase tx with
    | .freed => { t.become tx t.store .resting with signals := t.signals + 1 }
    | _ => t

/-- The transactions take their steps in the order of a list. -/
def run (t : Traffic) : List Move → Traffic
  | [] => t
  | m :: rest => (t.step m).run rest

/-- Moves in two stretches are the moves in one. -/
theorem run_append (t : Traffic) (xs ys : List Move) : t.run (xs ++ ys) = (t.run xs).run ys := by
  induction xs generalizing t with
  | nil => rfl
  | cons m rest ih => exact ih _

/-- A transaction has still to give its signal. -/
def Pending (t : Traffic) (tx : TransactionId) : Prop :=
  t.store.isOpen tx = true ∨ t.phase tx = .freed

/-! ## The operations of the store as uninterrupted steps -/

/-- A new phase of one transaction leaves the others in theirs. -/
@[simp]
theorem phase_become (t : Traffic) (tx : TransactionId) (s : Store) (phase : Phase)
    (other : TransactionId) :
    (t.become tx s phase).phase other = if other = tx then phase else t.phase other :=
  Function.update_apply _ _ _ _

/-- A new phase comes with its store. -/
@[simp]
theorem store_become (t : Traffic) (tx : TransactionId) (s : Store) (phase : Phase) :
    (t.become tx s phase).store = s := rfl

/-- An open transaction that rests makes its move. -/
theorem whenResting_open {t next : Traffic} {tx : TransactionId} (hresting : t.phase tx = .resting)
    (isOpen : t.store.isOpen tx = true) : t.whenResting tx next = next := by
  simp only [whenResting, hresting, isOpen, if_true]

/-- Where a call is that nobody has interrupted: it is over if it has an answer. -/
def after (w : Write) (heard : Nat) : Option (Except StoreError Bool) → Phase
  | none => .refused w heard
  | some _ => .resting

/-- A look that is granted access holds the row. -/
theorem look_granted {t : Traffic} {tx : TransactionId} {w : Write} {heard : Nat} {row : Row}
    (hphase : t.phase tx = .listening w heard)
    (h : t.store.access tx w.location w.id = .granted row) :
    t.step (.look tx) = t.become tx (t.store.hold tx w.id) (.granted w) := by
  simp only [step, hphase, h]

/-- A look at a missing row ends the call. -/
theorem look_missing {t : Traffic} {tx : TransactionId} {w : Write} {heard : Nat}
    (hphase : t.phase tx = .listening w heard) (h : t.store.access tx w.location w.id = .missing) :
    t.step (.look tx) = t.become tx t.store .resting := by
  simp only [step, hphase, h]

/-- A look at a row that is held elsewhere is refused. -/
theorem look_refused {t : Traffic} {tx : TransactionId} {w : Write} {heard : Nat}
    (hphase : t.phase tx = .listening w heard)
    (h : t.store.access tx w.location w.id = .heldElsewhere) :
    t.step (.look tx) = t.become tx t.store (.refused w heard) := by
  simp only [step, hphase, h]

/-- A write that was granted is made. -/
theorem step_write {t : Traffic} {tx : TransactionId} {w : Write}
    (hphase : t.phase tx = .granted w) :
    t.step (.write tx) = t.become tx (t.store.apply tx w) .resting := by
  simp only [step, hphase]

/-- Nothing is written that was not granted. -/
theorem write_idle {t : Traffic} {tx : TransactionId} (h : ∀ w, t.phase tx ≠ .granted w) :
    t.step (.write tx) = t := by
  simp only [step]

/-- A call with its uninterrupted steps, by what it finds. -/
theorem run_call {t : Traffic} {tx : TransactionId} (hresting : t.phase tx = .resting)
    (isOpen : t.store.isOpen tx = true) (w : Write) :
    let t' := t.run [.call tx w, .look tx, .write tx]
    match t.store.access tx w.location w.id with
    | .granted _ => t'.store = (t.store.hold tx w.id).apply tx w ∧ t'.phase tx = .resting
    | .missing => t'.store = t.store ∧ t'.phase tx = .resting
    | .heldElsewhere => t'.store = t.store ∧ t'.phase tx = .refused w t.signals := by
  have hcall : t.step (.call tx w) = t.become tx t.store (.listening w t.signals) :=
    whenResting_open hresting isOpen
  have hphase : (t.step (.call tx w)).phase tx = .listening w t.signals := by
    rw [hcall, phase_become, if_pos rfl]
  have hstore : (t.step (.call tx w)).store = t.store := by rw [hcall, store_become]
  simp only [run]
  split
  · next row haccess =>
    rw [← hstore] at haccess
    rw [look_granted hphase haccess, step_write (w := w) (by simp), hstore]
    simp
  · next haccess =>
    rw [← hstore] at haccess
    rw [look_missing hphase haccess, write_idle (by simp), hstore]
    simp
  · next haccess =>
    rw [← hstore] at haccess
    rw [look_refused hphase haccess, write_idle (by simp), hstore]
    simp

/-- A deletion is its steps without interruption. -/
theorem delete_alone {t : Traffic} {tx : TransactionId} (hresting : t.phase tx = .resting)
    (isOpen : t.store.isOpen tx = true) (location : Location) (id : TaskId) :
    let t' := t.run [.call tx ⟨location, id, .delete⟩, .look tx, .write tx]
    t'.store = (t.store.delete tx location id).1 ∧
      t'.phase tx = after ⟨location, id, .delete⟩ t.signals (t.store.delete tx location id).2 := by
  have h := run_call hresting isOpen ⟨location, id, .delete⟩
  simp only [Store.delete, isOpen, if_true] at h ⊢
  cases haccess : t.store.access tx location id with
  | missing =>
    simp only [haccess] at h
    exact h
  | heldElsewhere =>
    simp only [haccess] at h
    exact h
  | granted row =>
    simp only [haccess] at h ⊢
    refine ⟨h.1.trans ?_, h.2⟩
    obtain ⟨hrow, -⟩ := Store.of_access_granted haccess
    simp only [Store.apply, Store.hold, OrderedMap.get?_modify, if_pos, hrow, Option.map_some]
    congr 2
    refine OrderedMap.ext_get? fun k => ?_
    simp only [OrderedMap.get?_erase, OrderedMap.get?_modify]
    split <;> rfl

/-- A reenqueueing whose delay fits the calendar is its steps without interruption. -/
theorem reenqueue_alone {t : Traffic} {tx : TransactionId} (hresting : t.phase tx = .resting)
    (isOpen : t.store.isOpen tx = true) {asOf processTime : Instant} {delay : Duration}
    (hdeadline : Store.deadline asOf delay = .ok processTime) (location : Location) (id : TaskId)
    (fresh : Bool) :
    let w : Write := ⟨location, id, .reschedule processTime fresh⟩
    let t' := t.run [.call tx w, .look tx, .write tx]
    t'.store = (t.store.reenqueue tx asOf location id delay fresh).1 ∧
      t'.phase tx = after w t.signals (t.store.reenqueue tx asOf location id delay fresh).2 := by
  have h := run_call hresting isOpen ⟨location, id, .reschedule processTime fresh⟩
  simp only [Store.reenqueue, isOpen, if_true, hdeadline] at h ⊢
  cases haccess : t.store.access tx location id with
  | missing =>
    simp only [haccess] at h
    exact h
  | heldElsewhere =>
    simp only [haccess] at h
    exact h
  | granted row =>
    simp only [haccess] at h ⊢
    refine ⟨h.1.trans ?_, h.2⟩
    obtain ⟨hrow, -⟩ := Store.of_access_granted haccess
    simp only [Store.apply, Store.hold, OrderedMap.get?_modify, if_pos, hrow, Option.map_some]
    congr 2
    refine OrderedMap.ext_get? fun k => ?_
    simp only [OrderedMap.get?_insert, OrderedMap.get?_modify]
    split <;> rfl

/-- A commit is its steps without interruption. -/
theorem commit_alone {t : Traffic} {tx : TransactionId} (hresting : t.phase tx = .resting)
    (isOpen : t.store.isOpen tx = true) :
    (t.run [.commit tx, .signal tx]).store = (t.store.commit tx).1 := by
  have hcommit : t.step (.commit tx) = t.become tx (t.store.release tx) .freed :=
    whenResting_open hresting isOpen
  simp only [run]
  rw [hcommit]
  simp only [step, phase_become, if_pos, store_become, Store.commit, Store.whenOpen, isOpen]

/-- A rollback, and so the drop of an open transaction, is its steps without interruption. -/
theorem abandon_alone {t : Traffic} {tx : TransactionId} (hresting : t.phase tx = .resting)
    (isOpen : t.store.isOpen tx = true) :
    (t.run [.takeBack tx, .free tx, .signal tx]).store = t.store.abandon tx ∧
      t.store.abandon tx = (t.store.rollback tx).1 := by
  have htakeBack : t.step (.takeBack tx) = t.become tx (t.store.drained tx) .undone :=
    whenResting_open hresting isOpen
  have hrelease : (t.store.drained tx).release tx = (t.store.undoAll tx).release tx := by
    unfold Store.release Store.drained
    congr 1
    refine OrderedMap.ext_get? fun k => ?_
    simp only [OrderedMap.get?_erase, OrderedMap.get?_insert]
    split <;> rfl
  refine ⟨?_, ?_⟩
  · simp only [run]
    rw [htakeBack]
    simp only [step, phase_become, if_pos, store_become, Store.abandon, isOpen]
    exact hrelease
  · simp only [Store.abandon, Store.rollback, Store.whenOpen, isOpen, if_true]

end Traffic

end LeaseQueue
