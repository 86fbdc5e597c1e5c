import LeaseQueue.Failure

/-!
# The store of one shard

A store holds the rows of all queues of a shard.  Every change happens inside a transaction: the
rows that a transaction has touched are held by it, others pass them over when they pick and wait
when they want to change them, and what has to be done to take the changes back is kept in the
transaction's journal until it is committed.

Every operation is a function from a store to a store and an answer, so the state between two
operations can be inspected.  The answer of an operation that has to wait is `none`; the store is
then unchanged.  `releases` counts the ends of transactions, which are the only moments at which a
held row can become free.

The rows are kept in memory.  Of a store in a database nothing is defined here but the statements
that make its tables (`Location.schema`).
-/

set_option autoImplicit false

namespace LeaseQueue

/-- The number of a transaction within its store. -/
abbrev TransactionId := Nat

/-- A row with the queue that it belongs to and the open transaction that holds it. -/
structure Row where
  location : Location
  record : TaskRecord
  holder : Option TransactionId
deriving DecidableEq

/-- How one change is taken back. -/
inductive Undo
  | inserted (id : TaskId)
  | updated (before : TaskRecord)
  | deleted (location : Location) (before : TaskRecord)
deriving DecidableEq

/-- The rows and the open transactions of one shard. -/
structure Store where
  /-- The identifier of the next row. -/
  nextId : TaskId
  /-- The number of transactions opened so far. -/
  opened : Nat
  rows : OrderedMap TaskId Row
  /-- For every open transaction how its changes are taken back, the latest first. -/
  journals : OrderedMap TransactionId (List Undo)
  /-- The number of transactions that have ended. -/
  releases : Nat
  unavailable : Bool
deriving DecidableEq

namespace Store

/-- The store without rows and transactions. -/
def empty : Store where
  nextId := 1
  opened := 0
  rows := .empty
  journals := .empty
  releases := 0
  unavailable := false

instance : Inhabited Store := ⟨empty⟩

/-- Whether a transaction has begun and not ended. -/
def isOpen (s : Store) (tx : TransactionId) : Bool := s.journals.contains tx

/-- An answer of an open transaction; one that has ended has no other answer. -/
def whenOpen {α : Type} (s : Store) (tx : TransactionId)
    (act : Store × Except StoreError α) : Store × Except StoreError α :=
  if s.isOpen tx then act else (s, .error .transactionFinished)

/-- One more entry in the journal of a transaction. -/
def note (s : Store) (tx : TransactionId) (entry : Undo) : Store :=
  { s with journals := s.journals.modify tx (entry :: ·) }

/-- The time at which a delay from now ends. -/
def deadline (now : Instant) (delay : Duration) : Except StoreError Instant :=
  match now.after? delay with
  | some t => .ok t
  | none => .error (.delayOutOfRange delay)

/-! ## Transactions -/

/-- Opens a transaction. -/
def begin (s : Store) : Store × Except StoreError TransactionId :=
  if s.unavailable then (s, .error (.database .unavailable))
  else
    let tx := s.opened + 1
    ({ s with opened := tx, journals := s.journals.insert tx [] }, .ok tx)

/-- Ends a transaction: its rows are free and its journal is gone. -/
def release (s : Store) (tx : TransactionId) : Store :=
  { s with
    rows := s.rows.mapValues fun row =>
      if row.holder = some tx then { row with holder := none } else row
    journals := s.journals.erase tx
    releases := s.releases + 1 }

/-- Takes one change back. -/
def undo (rows : OrderedMap TaskId Row) : Undo → OrderedMap TaskId Row
  | .inserted id => rows.erase id
  | .updated before => rows.modify before.id fun row => { row with record := before }
  | .deleted location before => rows.insert before.id ⟨location, before, none⟩

/-- Takes all changes of a transaction back, the latest first. -/
def undoAll (s : Store) (tx : TransactionId) : Store :=
  { s with rows := ((s.journals.get? tx).getD []).foldl undo s.rows }

/-- Ends a transaction and keeps its changes. -/
def commit (s : Store) (tx : TransactionId) : Store × Except StoreError Unit :=
  s.whenOpen tx (s.release tx, .ok ())

/-- Ends a transaction and takes its changes back. -/
def rollback (s : Store) (tx : TransactionId) : Store × Except StoreError Unit :=
  s.whenOpen tx ((s.undoAll tx).release tx, .ok ())

/-- Abandons a transaction, which takes its changes back unless it has ended. -/
def abandon (s : Store) (tx : TransactionId) : Store :=
  if s.isOpen tx then (s.undoAll tx).release tx else s

/-! ## Putting in and picking -/

/-- Puts in a task that can be picked once its delay is over. -/
def enqueue (s : Store) (tx : TransactionId) (now : Instant) (location : Location)
    (task : NewTask) : Store × Except StoreError TaskId :=
  s.whenOpen tx <|
    match deadline now task.delay with
    | .error e => (s, .error e)
    | .ok processTime =>
      let record : TaskRecord := {
        id := s.nextId
        payload := task.payload
        attempts := 0
        created := now
        processTime := processTime
        correlationId := task.correlationId
        actor := task.actor }
      let s := { s with
        nextId := s.nextId + 1
        rows := s.rows.insert record.id ⟨location, record, some tx⟩ }
      (s.note tx (.inserted record.id), .ok record.id)

/-- Whether a transaction may pick a row now: it belongs to the queue, no other transaction holds
it, and its time has come. -/
def Row.eligible (row : Row) (tx : TransactionId) (now : Instant) (location : Location) : Bool :=
  row.location = location && (row.holder.all (· == tx)) && row.record.processTime.nanos ≤ now.nanos

/-- The earlier of two rows; of two with one process time the first. -/
def earlier (a b : Row) : Row :=
  if b.record.processTime.nanos < a.record.processTime.nanos then b else a

/-- The row with the least process time, and of several the one with the least identifier. -/
def candidate (s : Store) (tx : TransactionId) (now : Instant) (location : Location) :
    Option Row :=
  match s.rows.values.filter fun row => Row.eligible row tx now location with
  | [] => none
  | row :: rows => some (rows.foldl earlier row)

/-- Picks the task whose time came first and hides it for its lease.  The attempt is counted and the
row held before the end of the lease is known; if that does not exist, both stay. -/
def pick (s : Store) (tx : TransactionId) (now : Instant) (location : Location)
    (lease : LeaseSchedule) : Store × Except StoreError (Option TaskRecord) :=
  s.whenOpen tx <|
    match s.candidate tx now location with
    | none => (s, .ok none)
    | some row =>
      let before := row.record
      let counted := { before with attempts := nextAttempts before.attempts }
      let put (record : TaskRecord) : Store :=
        { s with rows := s.rows.insert before.id ⟨row.location, record, some tx⟩ }
      match deadline now (lease.delay counted.attempts) with
      | .error e => (put counted, .error e)
      | .ok processTime =>
        let picked := { counted with processTime := processTime }
        ((put picked).note tx (.updated before), .ok (some picked))

/-! ## Recording an outcome -/

/-- What a transaction that wants to change a row finds. -/
inductive Access
  /-- The row, which the transaction may hold. -/
  | granted (row : Row)
  /-- There is no such row in the queue. -/
  | missing
  /-- Another transaction holds the row. -/
  | heldElsewhere
deriving DecidableEq

/-- What a transaction finds that wants to change a row. -/
def access (s : Store) (tx : TransactionId) (location : Location) (id : TaskId) : Access :=
  match s.rows.get? id with
  | none => .missing
  | some row =>
    if row.location = location then
      if row.holder.all (· == tx) then .granted row else .heldElsewhere
    else .missing

/-- Deletes a task; false if there is none. -/
def delete (s : Store) (tx : TransactionId) (location : Location) (id : TaskId) :
    Store × Option (Except StoreError Bool) :=
  if s.isOpen tx then
    match s.access tx location id with
    | .missing => (s, some (.ok false))
    | .heldElsewhere => (s, none)
    | .granted row =>
      let s := { s with rows := s.rows.erase id }
      (s.note tx (.deleted row.location row.record), some (.ok true))
  else (s, some (.error .transactionFinished))

/-- Lets a task run again after a delay from a given time, as a fresh one or with its attempts kept;
false if there is none. -/
def reenqueue (s : Store) (tx : TransactionId) (asOf : Instant) (location : Location)
    (id : TaskId) (delay : Duration) (fresh : Bool) : Store × Option (Except StoreError Bool) :=
  if s.isOpen tx then
    match deadline asOf delay with
    | .error e => (s, some (.error e))
    | .ok processTime =>
      match s.access tx location id with
      | .missing => (s, some (.ok false))
      | .heldElsewhere => (s, none)
      | .granted row =>
        let record := { row.record with
          processTime := processTime
          attempts := if fresh then 0 else row.record.attempts }
        let s := { s with rows := s.rows.insert id ⟨row.location, record, some tx⟩ }
        (s.note tx (.updated row.record), some (.ok true))
  else (s, some (.error .transactionFinished))

/-! ## Looking and tampering -/

/-- A row as it is, with changes that are not committed. -/
def find (s : Store) (id : TaskId) : Option TaskRecord := (s.rows.get? id).map Row.record

/-- The number of tasks of a queue. -/
def count (s : Store) (location : Location) : Nat :=
  (s.rows.values.filter fun row => row.location = location).length

/-- All rows in the order of their identifiers. -/
def records (s : Store) : List TaskRecord := s.rows.values.map Row.record

/-- Sets the process time of a row outside of any transaction; false if there is none. -/
def setProcessTime (s : Store) (id : TaskId) (t : Instant) : Store × Bool :=
  ({ s with rows := s.rows.modify id fun row =>
      { row with record := { row.record with processTime := t } } },
    s.rows.contains id)

end Store

end LeaseQueue
