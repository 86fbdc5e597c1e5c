import LeaseQueue.Store

/-!
# Runs of a store

A run of a store is a list of actions of any number of transactions, in the order in which they
take effect: every interleaving of the transactions is such a list.  An action carries all that its
effect depends on besides the store, the reading of the clock in particular, so the clock of a run
may stand still or go back.  A deletion or a reenqueueing that has to wait leaves the store as it
is; that it is tried again is one more action.

`perform_step` says everything that one action can do; what a run keeps is proved from it.
-/

set_option autoImplicit false

namespace LeaseQueue.Store

/-- What a transaction, or the world around the store, can do. -/
inductive Action
  | begin
  | enqueue (tx : TransactionId) (now : Instant) (location : Location) (task : NewTask)
  | pick (tx : TransactionId) (now : Instant) (location : Location) (lease : LeaseSchedule)
  | delete (tx : TransactionId) (location : Location) (id : TaskId)
  | reenqueue (tx : TransactionId) (asOf : Instant) (location : Location) (id : TaskId)
      (delay : Duration) (fresh : Bool)
  | commit (tx : TransactionId)
  | rollback (tx : TransactionId)
  | abandon (tx : TransactionId)
  /-- Cuts the store off, or brings it back. -/
  | outage (on : Bool)

/-- What the one who acts gets to know. -/
inductive Answer
  | begun (result : Except StoreError TransactionId)
  | enqueued (result : Except StoreError TaskId)
  | picked (result : Except StoreError (Option TaskRecord))
  /-- The answer of a deletion or a reenqueueing; there is none while it has to wait. -/
  | written (result : Option (Except StoreError Bool))
  | ended (result : Except StoreError Unit)
  /-- Whether the abandoned transaction was open, so that its changes were taken back. -/
  | abandoned (wasOpen : Bool)
  | silent

/-- The transaction that acts. -/
def Action.transaction? : Action → Option TransactionId
  | .begin => none
  | .enqueue tx .. => some tx
  | .pick tx .. => some tx
  | .delete tx .. => some tx
  | .reenqueue tx .. => some tx
  | .commit tx => some tx
  | .rollback tx => some tx
  | .abandon tx => some tx
  | .outage _ => none

/-- Whether the answer is an error. -/
def Answer.failed : Answer → Bool
  | .begun (.error _) => true
  | .enqueued (.error _) => true
  | .picked (.error _) => true
  | .written (some (.error _)) => true
  | .ended (.error _) => true
  | _ => false

/-- Whether the answer is that of a pick whose lease would end beyond the calendar. -/
def Answer.overflowsLease : Answer → Bool
  | .picked (.error (.delayOutOfRange _)) => true
  | _ => false

/-- Whether the answer tells of a change of the store. -/
def Answer.tellsChange : Answer → Bool
  | .begun (.ok _) => true
  | .enqueued (.ok _) => true
  | .picked (.ok (some _)) => true
  | .written (some (.ok true)) => true
  | .ended (.ok _) => true
  | .abandoned true => true
  | .silent => true
  | _ => false

/-- A transaction is rolled back, or dropped while it is open. -/
def TakesBack (tx : TransactionId) (a : Action) (answer : Answer) : Prop :=
  (a = .rollback tx ∧ answer = .ended (.ok ())) ∨ (a = .abandon tx ∧ answer = .abandoned true)

/-- A transaction is committed. -/
def Commits (tx : TransactionId) (a : Action) (answer : Answer) : Prop :=
  a = .commit tx ∧ answer = .ended (.ok ())

/-- A row gets another time by a reenqueueing. -/
def Reschedules (id : TaskId) (a : Action) (answer : Answer) : Prop :=
  ∃ tx asOf location delay fresh, a = .reenqueue tx asOf location id delay fresh ∧
    answer = .written (some (.ok true))

/-- One action on a store. -/
def perform (s : Store) : Action → Store × Answer
  | .begin => s.begin.map id .begun
  | .enqueue tx now location task => (s.enqueue tx now location task).map id .enqueued
  | .pick tx now location lease => (s.pick tx now location lease).map id .picked
  | .delete tx location task => (s.delete tx location task).map id .written
  | .reenqueue tx asOf location task delay fresh =>
    (s.reenqueue tx asOf location task delay fresh).map id .written
  | .commit tx => (s.commit tx).map id .ended
  | .rollback tx => (s.rollback tx).map id .ended
  | .abandon tx => (s.abandon tx, .abandoned (s.isOpen tx))
  | .outage on => ({ s with unavailable := on }, .silent)

/-- The store after a list of actions. -/
def run (s : Store) : List Action → Store
  | [] => s
  | a :: rest => (s.perform a).1.run rest

/-- One action of a run with the store that it found, its answer and the store that it left. -/
structure Call where
  before : Store
  action : Action
  answer : Answer
  after : Store

/-- The calls of a list of actions. -/
def calls (s : Store) : List Action → List Call
  | [] => []
  | a :: rest => ⟨s, a, (s.perform a).2, (s.perform a).1⟩ :: (s.perform a).1.calls rest

/-- Actions in two stretches are the actions in one. -/
theorem run_append (s : Store) (xs ys : List Action) : s.run (xs ++ ys) = (s.run xs).run ys := by
  induction xs generalizing s with
  | nil => rfl
  | cons a rest ih => exact ih _

/-! ## What one action can do -/

/-- The row of a task that is put in. -/
def added (tx : TransactionId) (id : TaskId) (now processTime : Instant) (location : Location)
    (task : NewTask) : Row where
  location := location
  record := {
    id := id
    payload := task.payload
    attempts := 0
    created := now
    processTime := processTime
    correlationId := task.correlationId
    actor := task.actor }
  holder := some tx

/-- A row with one more attempt counted. -/
def counted (tx : TransactionId) (row : Row) : Row :=
  { row with
    record := { row.record with attempts := nextAttempts row.record.attempts }
    holder := some tx }

/-- A row that is hidden until a time, with one more attempt counted. -/
def leased (tx : TransactionId) (processTime : Instant) (row : Row) : Row :=
  { row with
    record := { row.record with
      attempts := nextAttempts row.record.attempts
      processTime := processTime }
    holder := some tx }

/-- A row that is to run again at a time. -/
def rescheduled (tx : TransactionId) (processTime : Instant) (fresh : Bool) (row : Row) : Row :=
  { row with
    record := { row.record with
      processTime := processTime
      attempts := if fresh then 0 else row.record.attempts }
    holder := some tx }

/-- A deadline fails only for a delay that is out of range. -/
theorem eq_of_deadline_error {now : Instant} {delay : Duration} {e : StoreError}
    (h : deadline now delay = .error e) : e = .delayOutOfRange delay := by
  unfold deadline at h
  split at h
  · cases h
  · cases h
    rfl

/-- A deadline is as far from now as the delay. -/
theorem le_of_deadline {now t : Instant} {d : Duration} (h : deadline now d = .ok t) :
    t.nanos = now.nanos + d.nanos := by
  unfold deadline at h
  split at h
  · next hafter =>
    cases h
    exact Instant.after?_eq_some.1 hafter
  · cases h

/-- A time on the calendar is the deadline of its distance. -/
theorem deadline_eq_ok {now t : Instant} {d : Duration} (h : t.nanos = now.nanos + d.nanos) :
    deadline now d = .ok t := by
  unfold deadline
  rw [Instant.after?_eq_some.2 h]

/-- There is no deadline past the end of the calendar. -/
theorem deadline_eq_error {now : Instant} {d : Duration} (h : calendarEnd < now.nanos + d.nanos) :
    deadline now d = .error (.delayOutOfRange d) := by
  unfold deadline
  rw [Instant.after?_eq_none.2 h]

/-- Everything that one action can do to a store, and its answer. -/
inductive Step (s : Store) : Action → Answer → Store → Prop
  /-- Nothing happens: an operation fails, finds nothing or has to wait. -/
  | idle {a : Action} {answer : Answer} (h : answer.tellsChange = false) : Step s a answer s
  | outage (on : Bool) : Step s (.outage on) .silent { s with unavailable := on }
  | begun (h : s.unavailable = false) :
    Step s .begin (.begun (.ok (s.opened + 1)))
      { s with opened := s.opened + 1, journals := s.journals.insert (s.opened + 1) [] }
  | enqueued {tx : TransactionId} {now processTime : Instant} {location : Location}
    {task : NewTask} (isOpen : s.isOpen tx = true)
    (hdeadline : deadline now task.delay = .ok processTime) :
    Step s (.enqueue tx now location task) (.enqueued (.ok s.nextId))
      (note { s with
        nextId := s.nextId + 1
        rows := s.rows.insert s.nextId (added tx s.nextId now processTime location task) }
        tx (.inserted s.nextId))
  | picked {tx : TransactionId} {now processTime : Instant} {location : Location}
    {lease : LeaseSchedule} {row : Row} (isOpen : s.isOpen tx = true)
    (hcandidate : s.candidate tx now location = some row)
    (hdeadline : deadline now (lease.delay (nextAttempts row.record.attempts)) = .ok processTime) :
    Step s (.pick tx now location lease) (.picked (.ok (some (leased tx processTime row).record)))
      (note { s with rows := s.rows.insert row.record.id (leased tx processTime row) }
        tx (.updated row.record))
  /-- The end of the lease does not exist, but the attempt is counted and the row is held. -/
  | counted {tx : TransactionId} {now : Instant} {location : Location} {lease : LeaseSchedule}
    {row : Row} {e : StoreError} (isOpen : s.isOpen tx = true)
    (hcandidate : s.candidate tx now location = some row)
    (hdeadline : deadline now (lease.delay (nextAttempts row.record.attempts)) = .error e) :
    Step s (.pick tx now location lease) (.picked (.error e))
      { s with rows := s.rows.insert row.record.id (counted tx row) }
  | deleted {tx : TransactionId} {location : Location} {id : TaskId} {row : Row}
    (isOpen : s.isOpen tx = true) (haccess : s.access tx location id = .granted row) :
    Step s (.delete tx location id) (.written (some (.ok true)))
      (note { s with rows := s.rows.erase id } tx (.deleted row.location row.record))
  | reenqueued {tx : TransactionId} {asOf processTime : Instant} {location : Location}
    {id : TaskId} {delay : Duration} {fresh : Bool} {row : Row} (isOpen : s.isOpen tx = true)
    (hdeadline : deadline asOf delay = .ok processTime)
    (haccess : s.access tx location id = .granted row) :
    Step s (.reenqueue tx asOf location id delay fresh) (.written (some (.ok true)))
      (note { s with rows := s.rows.insert id (rescheduled tx processTime fresh row) }
        tx (.updated row.record))
  | committed {tx : TransactionId} (isOpen : s.isOpen tx = true) :
    Step s (.commit tx) (.ended (.ok ())) (s.release tx)
  | rolledBack {tx : TransactionId} (isOpen : s.isOpen tx = true) :
    Step s (.rollback tx) (.ended (.ok ())) ((s.undoAll tx).release tx)
  | abandoned {tx : TransactionId} (isOpen : s.isOpen tx = true) :
    Step s (.abandon tx) (.abandoned true) ((s.undoAll tx).release tx)

/-- Every action does one of the things that an action can do. -/
theorem perform_step (s : Store) (a : Action) : Step s a (s.perform a).2 (s.perform a).1 := by
  cases a with
  | begin =>
    simp only [perform, begin]
    split
    · exact .idle rfl
    · next h => exact .begun (by simpa using h)
  | enqueue tx now location task =>
    simp only [perform, enqueue, whenOpen]
    split
    · next hopen =>
      split
      · exact .idle rfl
      · next hdeadline => exact .enqueued hopen hdeadline
    · exact .idle rfl
  | pick tx now location lease =>
    simp only [perform, pick, whenOpen]
    split
    · next hopen =>
      split
      · exact .idle rfl
      · next row hcandidate =>
        split
        · next hdeadline => exact .counted hopen hcandidate hdeadline
        · next hdeadline => exact .picked hopen hcandidate hdeadline
    · exact .idle rfl
  | delete tx location id =>
    simp only [perform, delete]
    split
    · next hopen =>
      split
      · exact .idle rfl
      · exact .idle rfl
      · next haccess => exact .deleted hopen haccess
    · exact .idle rfl
  | reenqueue tx asOf location id delay fresh =>
    simp only [perform, reenqueue]
    split
    · next hopen =>
      split
      · exact .idle rfl
      · next hdeadline =>
        split
        · exact .idle rfl
        · exact .idle rfl
        · next haccess => exact .reenqueued hopen hdeadline haccess
    · exact .idle rfl
  | commit tx =>
    simp only [perform, commit, whenOpen]
    split
    · next hopen => exact .committed hopen
    · exact .idle rfl
  | rollback tx =>
    simp only [perform, rollback, whenOpen]
    split
    · next hopen => exact .rolledBack hopen
    · exact .idle rfl
  | abandon tx =>
    simp only [perform, abandon]
    split
    · next hopen => rw [hopen]; exact .abandoned hopen
    · next hopen => exact .idle (by simp [hopen, Answer.tellsChange])
  | outage on => exact .outage on

/-- What is performed is a step of the store. -/
theorem step_of_perform {s s' : Store} {a : Action} {answer : Answer}
    (h : s.perform a = (s', answer)) : Step s a answer s' := by
  have hstep := perform_step s a
  rwa [h] at hstep

/-- What holds at the beginning of a run and is kept by every step holds at its end. -/
theorem run_induction {P : Store → Prop} (hstep : ∀ {s a answer s'}, P s → Step s a answer s' → P s')
    {s : Store} (h : P s) (actions : List Action) : P (s.run actions) := by
  induction actions generalizing s with
  | nil => exact h
  | cons a rest ih => exact ih (hstep h (perform_step s a))

/-! ## A store with one task -/

/-- A queue. -/
def someQueue : Location := ⟨"t", "q", by decide, by decide⟩

/-- The first transaction puts one task into the queue, as row 1; closed runs begin with this. -/
def stock (now : Instant) : List Action :=
  [.begin, .enqueue 1 now someQueue ⟨none, .zero, none, none⟩, .commit 1]

end LeaseQueue.Store
