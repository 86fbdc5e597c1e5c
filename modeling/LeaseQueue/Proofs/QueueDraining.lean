import Mathlib.Algebra.BigOperators.Fin
import Mathlib.Data.List.Sort
import LeaseQueue.Proofs.StoreChanges

/-!
# Draining a queue

Any number of pickers take tasks from one queue at the same time, each with leases of its own: a
picker opens a transaction, picks, and commits if it got a task; when it gets none it drops its
transaction and stops.  The clock stands still.  A pick hides its row for longer than that, so a row
is due until some picker takes it and never again; and a row that is due is held by nobody.  Every
pick therefore takes the first of the rows that are still due, whichever transactions are open
meanwhile (`Draining`).

Main statement: under every interleaving the pickers get exactly the due rows, each once and in the
order of their process times, and one is sent away only after all of them have been taken.
-/

set_option autoImplicit false

namespace LeaseQueue

/-- The order in which rows are picked: by process time, and those of one time by identifier. -/
def Row.precedes (a b : Row) : Prop :=
  a.record.processTime.nanos < b.record.processTime.nanos ∨
    (a.record.processTime.nanos = b.record.processTime.nanos ∧ a.record.id < b.record.id)

/-- Whether a row belongs to a queue and its time has come. -/
def Row.isDue (row : Row) (now : Instant) (location : Location) : Bool :=
  row.location = location && row.record.processTime.nanos ≤ now.nanos

/-- Whether a row may stand before another one in the order of picks. -/
def Row.notAfter (a b : Row) : Bool :=
  a.record.processTime.nanos < b.record.processTime.nanos ||
    (a.record.processTime.nanos = b.record.processTime.nanos && a.record.id ≤ b.record.id)

/-- The order in which rows are picked is transitive. -/
theorem Row.precedes_trans {a b c : Row} (hab : a.precedes b) (hbc : b.precedes c) :
    a.precedes c := by
  unfold precedes TaskId at *
  omega

/-- No row is picked before itself. -/
theorem Row.not_precedes_self (a : Row) : ¬ a.precedes a := by
  unfold precedes TaskId
  omega

instance : Std.Irrefl Row.precedes := ⟨Row.not_precedes_self⟩

instance : Std.Antisymm Row.precedes where
  antisymm a _ hab hba := absurd (Row.precedes_trans hab hba) a.not_precedes_self

/-- The record that a picker of a row gets. -/
def Row.pickedAt (row : Row) (now : Instant) (lease : LeaseSchedule) : TaskRecord :=
  { row.record with
    attempts := nextAttempts row.record.attempts
    processTime := now.advance (lease.delay (nextAttempts row.record.attempts)) }

namespace Store

/-- The rows of a queue whose time has come, in the order in which they are picked. -/
def due (s : Store) (now : Instant) (location : Location) : List Row :=
  (s.rows.values.filter fun row => row.isDue now location).mergeSort Row.notAfter

/-! ## The due rows and the next pick -/

/-- The due rows are those of the queue whose time has come. -/
theorem mem_due {s : Store} {now : Instant} {location : Location} {row : Row} :
    row ∈ s.due now location ↔
      (∃ id, s.rows.get? id = some row) ∧ row.location = location ∧
        row.record.processTime.nanos ≤ now.nanos := by
  unfold due
  rw [(List.mergeSort_perm _ _).mem_iff, List.mem_filter, OrderedMap.mem_values]
  simp [Row.isDue]

/-- The rows of a store stand in the order of their numbers. -/
theorem WellFormed.values_pairwise {s : Store} (hs : s.WellFormed) :
    s.rows.values.Pairwise fun a b => a.record.id < b.record.id := by
  have hkey : ∀ e ∈ s.rows.entries, e.2.record.id = e.1 := by
    intro e he
    exact hs.record_id (OrderedMap.mem_entries.1 he)
  refine List.pairwise_map.2 (s.rows.increasing.imp_of_mem ?_)
  intro a b ha hb hlt
  rw [hkey a ha, hkey b hb]
  exact compare_lt_iff_lt.1 hlt

/-- The due rows of a queue stand in the order in which they are picked. -/
theorem WellFormed.pairwise_due {s : Store} (hs : s.WellFormed) (now : Instant)
    (location : Location) : (s.due now location).Pairwise Row.precedes := by
  have htrans : ∀ a b c : Row, a.notAfter b = true → b.notAfter c = true →
      a.notAfter c = true := by
    intro a b c hab hbc
    simp only [Row.notAfter, Bool.or_eq_true, Bool.and_eq_true, decide_eq_true_eq, TaskId] at *
    omega
  have htotal : ∀ a b : Row, (a.notAfter b || b.notAfter a) = true := by
    intro a b
    simp only [Row.notAfter, Bool.or_eq_true, Bool.and_eq_true, decide_eq_true_eq, TaskId]
    omega
  have hsorted := List.pairwise_mergeSort htrans htotal
    (s.rows.values.filter fun row => row.isDue now location)
  have hids : (s.due now location).Pairwise fun a b => a.record.id ≠ b.record.id := by
    have hfilter := hs.values_pairwise.filter fun row => row.isDue now location
    refine ((List.mergeSort_perm _ _).pairwise_iff ?_).2 (hfilter.imp Int.ne_of_lt)
    exact fun hne => hne.symm
  refine (hsorted.and hids).imp ?_
  rintro a b ⟨hle, hne⟩
  simp only [Row.notAfter, Bool.or_eq_true, Bool.and_eq_true, decide_eq_true_eq] at hle
  unfold Row.precedes TaskId at *
  omega

/-- The due rows are told by their order and their elements. -/
theorem WellFormed.due_eq {s : Store} (hs : s.WellFormed) {now : Instant} {location : Location}
    {rows : List Row} (hsorted : rows.Pairwise Row.precedes)
    (hmem : ∀ row, row ∈ s.due now location ↔ row ∈ rows) : s.due now location = rows :=
  (hs.pairwise_due now location).eq_of_mem_iff hsorted hmem

/-- Of rows in the order of their identifiers the earliest one is found. -/
theorem foldl_earlier_precedes {row : Row} {rows : List Row}
    (h : (row :: rows).Pairwise fun a b => a.record.id < b.record.id) :
    ∀ r ∈ row :: rows, r = rows.foldl earlier row ∨ (rows.foldl earlier row).precedes r := by
  induction rows generalizing row with
  | nil =>
    intro r hr
    exact .inl (List.mem_singleton.1 hr)
  | cons first rest ih =>
    obtain ⟨hrow, hrest⟩ := List.pairwise_cons.1 h
    obtain ⟨hfirst, htail⟩ := List.pairwise_cons.1 hrest
    have hid : row.record.id < first.record.id := hrow first List.mem_cons_self
    have hnext : (earlier row first :: rest).Pairwise fun a b => a.record.id < b.record.id := by
      refine List.pairwise_cons.2 ⟨fun r hr => ?_, htail⟩
      unfold earlier
      split
      · exact hfirst r hr
      · exact hrow r (List.mem_cons_of_mem _ hr)
    have ih := ih hnext
    rw [List.foldl_cons]
    -- the one of the two that is passed over comes after the other
    have hover : ∀ r, r = row ∨ r = first →
        r = earlier row first ∨ (earlier row first).precedes r := by
      intro r hr
      unfold earlier
      split
      · next hlt =>
        rcases hr with rfl | rfl
        · exact .inr (.inl hlt)
        · exact .inl rfl
      · next hle =>
        rcases hr with rfl | rfl
        · exact .inl rfl
        · refine .inr ?_
          unfold Row.precedes TaskId at *
          omega
    have hhead := ih _ List.mem_cons_self
    have hboth : ∀ r, r = row ∨ r = first → r = rest.foldl earlier (earlier row first) ∨
        (rest.foldl earlier (earlier row first)).precedes r := by
      intro r hr
      rcases hover r hr with heq | hlt
      · rw [heq]
        exact hhead
      · rcases hhead with heq | hlt'
        · exact .inr (heq ▸ hlt)
        · exact .inr (Row.precedes_trans hlt' hlt)
    intro r hr
    rcases List.mem_cons.1 hr with rfl | hr
    · exact hboth r (.inl rfl)
    · rcases List.mem_cons.1 hr with rfl | hr
      · exact hboth r (.inr rfl)
      · exact ih r (List.mem_cons_of_mem _ hr)

/-- While nobody holds a due row, every transaction picks the first of them. -/
theorem WellFormed.candidate_eq_head? {s : Store} (hs : s.WellFormed) {now : Instant}
    {location : Location} (hfree : ∀ row ∈ s.due now location, row.holder = none)
    (tx : TransactionId) : s.candidate tx now location = (s.due now location).head? := by
  have hperm : (s.due now location).Perm (s.rows.values.filter fun row => row.isDue now location) :=
    List.mergeSort_perm _ _
  have hfilter : (s.rows.values.filter fun row => Row.eligible row tx now location) =
      s.rows.values.filter fun row => row.isDue now location := by
    refine List.filter_congr fun row hrow => ?_
    by_cases hdue : row.isDue now location = true
    · have hmem : row ∈ s.due now location := hperm.mem_iff.2 (List.mem_filter.2 ⟨hrow, hdue⟩)
      rw [Row.isDue] at hdue
      simp only [Row.eligible, Row.isDue, hfree row hmem, Option.all_none, Bool.and_true]
    · rw [Bool.not_eq_true] at hdue
      rw [hdue]
      simp only [Row.isDue, Bool.and_eq_false_iff] at hdue
      unfold Row.eligible
      rcases hdue with hdue | hdue <;> simp [hdue]
  unfold candidate
  rw [hfilter]
  have hpairwise := hs.values_pairwise.filter fun row => row.isDue now location
  have hsorted := hs.pairwise_due now location
  generalize (s.rows.values.filter fun row => row.isDue now location) = rows at hperm hpairwise
  cases rows with
  | nil =>
    rw [hperm.eq_nil]
    rfl
  | cons row rest =>
    have hleast := foldl_earlier_precedes hpairwise
    have hfound := hperm.mem_iff.2 (earlier_fold_mem row rest)
    cases hdue : s.due now location with
    | nil =>
      rw [hdue] at hfound
      cases hfound
    | cons first others =>
      rw [hdue] at hfound hsorted hperm
      have hfirst := (List.pairwise_cons.1 hsorted).1
      simp only [List.head?_cons, Option.some.injEq]
      rcases hleast first (hperm.mem_iff.1 List.mem_cons_self) with heq | hlt
      · exact heq.symm
      · rcases List.mem_cons.1 hfound with heq | hmem
        · exact heq
        · exact absurd (Row.precedes_trans hlt (hfirst _ hmem)) (Row.not_precedes_self _)

/-! ## What the steps of a picker do to the due rows -/

/-- A store that is not to be reached opens no transaction. -/
theorem begin_of_unavailable {s : Store} (h : s.unavailable = true) :
    s.begin = (s, .error (.database .unavailable)) :=
  if_pos h

/-- Without a candidate a pick takes no row and changes nothing. -/
theorem pick_of_none {s : Store} {tx : TransactionId} {now : Instant} {location : Location}
    (isOpen : s.isOpen tx = true) (h : s.candidate tx now location = none)
    (lease : LeaseSchedule) : s.pick tx now location lease = (s, .ok none) := by
  simp only [pick, whenOpen, isOpen, if_true, h]

/-- A pick leases its candidate until the end of the lease, and notes the lock. -/
theorem pick_of_some {s : Store} {tx : TransactionId} {now processTime : Instant}
    {location : Location} {lease : LeaseSchedule} {row : Row} (isOpen : s.isOpen tx = true)
    (h : s.candidate tx now location = some row)
    (hdeadline : deadline now (lease.delay (nextAttempts row.record.attempts)) = .ok processTime) :
    s.pick tx now location lease =
      (note { s with rows := s.rows.insert row.record.id (leased tx processTime row) }
        tx (.updated row.record), .ok (some (leased tx processTime row).record)) := by
  simp only [pick, whenOpen, isOpen, if_true, h, hdeadline]
  rfl

/-- A leased row has the record that its pick answers. -/
theorem pickedAt_eq {row : Row} {now processTime : Instant} {lease : LeaseSchedule}
    (h : deadline now (lease.delay (nextAttempts row.record.attempts)) = .ok processTime)
    (tx : TransactionId) : (leased tx processTime row).record = row.pickedAt now lease := by
  have hafter : now.after? (lease.delay (nextAttempts row.record.attempts)) = some processTime :=
    Instant.after?_eq_some.2 (le_of_deadline h)
  simp only [leased, Row.pickedAt, Instant.advance, hafter, Option.getD_some]

/-- The end of a transaction leaves the due rows alone, if they were free before. -/
theorem WellFormed.due_release {s : Store} (hs : s.WellFormed) {tx : TransactionId}
    (isOpen : s.isOpen tx = true) {now : Instant} {location : Location}
    (hfree : ∀ row ∈ s.due now location, row.holder = none) :
    (s.release tx).due now location = s.due now location := by
  refine (hs.ended (ended_release hs isOpen)).due_eq (hs.pairwise_due now location) fun row => ?_
  constructor
  · intro hrow
    obtain ⟨⟨id, hid⟩, hlocation, htime⟩ := mem_due.1 hrow
    rw [get?_release, Option.map_eq_some_iff] at hid
    obtain ⟨before, hbefore, hafter⟩ := hid
    split at hafter
    · next hheld =>
      -- a row that the transaction held was not due
      have hdue : before ∈ s.due now location := by
        refine mem_due.2 ⟨⟨id, hbefore⟩, ?_, ?_⟩
        · rw [← hlocation, ← hafter]
        · rw [← hafter] at htime
          exact htime
      rw [hfree before hdue] at hheld
      cases hheld
    · rw [← hafter] at hlocation htime ⊢
      exact mem_due.2 ⟨⟨id, hbefore⟩, hlocation, htime⟩
  · intro hrow
    obtain ⟨⟨id, hid⟩, hlocation, htime⟩ := mem_due.1 hrow
    refine mem_due.2 ⟨⟨id, ?_⟩, hlocation, htime⟩
    rw [get?_release, hid, Option.map_some, hfree row hrow, if_neg (by simp)]

/-- A pick for a time that is not over takes its row out of the due rows. -/
theorem WellFormed.due_leased {s : Store} (hs : s.WellFormed) {tx : TransactionId}
    (isOpen : s.isOpen tx = true) {now processTime : Instant} {location : Location} {row : Row}
    {rest : List Row} (hdue : s.due now location = row :: rest)
    (hfree : row.holder = none) (hlater : now.nanos < processTime.nanos) :
    Touch s tx row.record.id (some (.updated row.record))
        (note { s with rows := s.rows.insert row.record.id (leased tx processTime row) }
          tx (.updated row.record)) ∧
      (note { s with rows := s.rows.insert row.record.id (leased tx processTime row) }
        tx (.updated row.record)).due now location = rest := by
  obtain ⟨⟨id, hid⟩, -⟩ := mem_due.1 (hdue ▸ List.mem_cons_self : row ∈ s.due now location)
  have hrow : s.rows.get? row.record.id = some row := by
    rw [hs.record_id hid]
    exact hid
  have htouch : Touch s tx row.record.id (some (.updated row.record))
      (note { s with rows := s.rows.insert row.record.id (leased tx processTime row) }
        tx (.updated row.record)) :=
    touch_rewritten hs isOpen hrow (by rw [hfree]; rfl) rfl rfl rfl
  have hsorted := hs.pairwise_due now location
  rw [hdue] at hsorted
  obtain ⟨hfirst, hrest⟩ := List.pairwise_cons.1 hsorted
  refine ⟨htouch, (hs.touch htouch).due_eq hrest fun r => ?_⟩
  constructor
  · intro hr
    obtain ⟨⟨k, hk⟩, hlocation, htime⟩ := mem_due.1 hr
    by_cases heq : k = row.record.id
    · have hk' : (s.rows.insert row.record.id (leased tx processTime row)).get? k = some r := hk
      rw [OrderedMap.get?_insert, if_pos heq] at hk'
      cases hk'
      exact absurd htime (Int.not_le_of_gt hlater)
    · rw [htouch.others heq] at hk
      have hmem : r ∈ s.due now location := mem_due.2 ⟨⟨k, hk⟩, hlocation, htime⟩
      rw [hdue] at hmem
      rcases List.mem_cons.1 hmem with rfl | hmem
      · exact absurd (hs.record_id hk).symm heq
      · exact hmem
  · intro hr
    obtain ⟨⟨k, hk⟩, hlocation, htime⟩ :=
      mem_due.1 (hdue ▸ List.mem_cons_of_mem _ hr : r ∈ s.due now location)
    have hne : k ≠ row.record.id := by
      rintro rfl
      rw [hrow] at hk
      cases hk
      exact absurd (hfirst _ hr) (Row.not_precedes_self _)
    exact mem_due.2 ⟨⟨k, (htouch.others hne).trans hk⟩, hlocation, htime⟩

/-! ## Pickers -/

/-- How far a picker is. -/
inductive Picker
  | ready
  | begun (tx : TransactionId)
  /-- It got a task, and has to commit. -/
  | holding (tx : TransactionId)
  /-- It got none, and has to drop its transaction. -/
  | leaving (tx : TransactionId)
  | stopped
deriving DecidableEq

namespace Picker

/-- The transaction that a picker has opened and not ended. -/
def transaction? : Picker → Option TransactionId
  | begun tx => some tx
  | holding tx => some tx
  | leaving tx => some tx
  | _ => none

/-- How many steps a picker can take before it stops, if it gets no more tasks. -/
def remaining : Picker → Nat
  | holding _ => 4
  | ready => 3
  | begun _ => 2
  | leaving _ => 1
  | stopped => 0

end Picker

/-- A store with pickers, and what each of their picks answered so far. -/
structure Drain (n : Nat) where
  store : Store
  pickers : Fin n → Picker
  answers : List (Fin n × Option TaskRecord)

namespace Drain

variable {n : Nat}

/-- All pickers are about to begin. -/
def start (s : Store) : Drain n := ⟨s, fun _ => .ready, []⟩

/-- The pickers with another state of one of them. -/
def become (d : Drain n) (p : Fin n) (state : Picker) : Fin n → Picker :=
  Function.update d.pickers p state

/-- The next step of a picker.  One that cannot open a transaction tries again. -/
def step (now : Instant) (location : Location) (lease : Fin n → LeaseSchedule) (d : Drain n)
    (p : Fin n) : Drain n :=
  match d.pickers p with
  | .ready =>
    match d.store.begin with
    | (s, .ok tx) => { d with store := s, pickers := d.become p (.begun tx) }
    | (s, .error _) => { d with store := s }
  | .begun tx =>
    match d.store.pick tx now location (lease p) with
    | (s, .ok (some r)) => ⟨s, d.become p (.holding tx), d.answers ++ [(p, some r)]⟩
    | (s, .ok none) => ⟨s, d.become p (.leaving tx), d.answers ++ [(p, none)]⟩
    | (s, .error _) => { d with store := s, pickers := d.become p (.leaving tx) }
  | .holding tx => { d with store := (d.store.commit tx).1, pickers := d.become p .ready }
  | .leaving tx => { d with store := d.store.abandon tx, pickers := d.become p .stopped }
  | .stopped => d

/-- The pickers take their steps in the order of a schedule. -/
def run (now : Instant) (location : Location) (lease : Fin n → LeaseSchedule) (d : Drain n) :
    List (Fin n) → Drain n
  | [] => d
  | p :: rest => (d.step now location lease p).run now location lease rest

/-- Every step of a schedule is one of a picker that has not stopped. -/
def Busy (now : Instant) (location : Location) (lease : Fin n → LeaseSchedule) (d : Drain n) :
    List (Fin n) → Prop
  | [] => True
  | p :: rest => d.pickers p ≠ .stopped ∧ (d.step now location lease p).Busy now location lease rest

/-- An upper bound for the number of steps that are left. -/
def toDo (d : Drain n) (now : Instant) (location : Location) : Nat :=
  3 * (d.store.due now location).length + ∑ p, (d.pickers p).remaining

end Drain

/-- The answers when these pickers, in this order, have taken the first of the rows, and these have
been sent away after them. -/
def answersWhen {n : Nat} (rows : List Row) (now : Instant) (lease : Fin n → LeaseSchedule)
    (takers refused : List (Fin n)) : List (Fin n × Option TaskRecord) :=
  takers.zipWith (fun p row => (p, some (row.pickedAt now (lease p)))) rows ++
    refused.map fun p => (p, none)

/-- What the pickers of a queue have done: who has taken a task, and who was sent away. -/
structure Draining {n : Nat} (s : Store) (now : Instant) (location : Location)
    (lease : Fin n → LeaseSchedule) (d : Drain n) (takers refused : List (Fin n)) : Prop where
  wellFormed : d.store.WellFormed
  unavailable : d.store.unavailable = s.unavailable
  due : d.store.due now location = (s.due now location).drop takers.length
  free : ∀ row ∈ d.store.due now location, row.holder = none
  takers_le : takers.length ≤ (s.due now location).length
  answers : d.answers = answersWhen (s.due now location) now lease takers refused
  complete : refused ≠ [] → (s.due now location).length ≤ takers.length
  isOpen : ∀ {p tx}, (d.pickers p).transaction? = some tx → d.store.isOpen tx = true
  distinct : ∀ {p q tx}, (d.pickers p).transaction? = some tx →
    (d.pickers q).transaction? = some tx → p = q
  /-- Whoever has got nothing has changed nothing. -/
  clean : ∀ {p tx}, d.pickers p = .begun tx ∨ d.pickers p = .leaving tx →
    d.store.journal tx = []
  refused_ne : ∀ {p}, (∃ tx, d.pickers p = .leaving tx) ∨ d.pickers p = .stopped → refused ≠ []

/-- The next row goes to the next taker. -/
theorem answersWhen_take {n : Nat} {rows rest : List Row} {row : Row} {takers : List (Fin n)}
    (h : rows.drop takers.length = row :: rest) (now : Instant) (lease : Fin n → LeaseSchedule)
    (p : Fin n) : answersWhen rows now lease (takers ++ [p]) [] =
      answersWhen rows now lease takers [] ++ [(p, some (row.pickedAt now (lease p)))] := by
  unfold answersWhen
  rw [List.map_nil, List.append_nil, List.append_nil]
  induction takers generalizing rows with
  | nil =>
    rw [List.length_nil, List.drop_zero] at h
    rw [h]
    rfl
  | cons q others ih =>
    cases rows with
    | nil => cases h
    | cons first rows =>
      rw [List.length_cons, List.drop_succ_cons] at h
      rw [List.cons_append, List.zipWith_cons_cons, List.zipWith_cons_cons, ih h, List.cons_append]

/-! ## What a step keeps -/

section Steps

variable {n : Nat} {s : Store} {now : Instant} {location : Location}
  {lease : Fin n → LeaseSchedule} {d : Drain n} {p : Fin n} {takers refused : List (Fin n)}

/-- One picker moves on, and the transactions of the others are left alone. -/
theorem Draining.move (h : Draining s now location lease d takers refused) {t : Store}
    {state : Picker} {answers : List (Fin n × Option TaskRecord)}
    {takers' refused' : List (Fin n)}
    (wellFormed : t.WellFormed) (unavailable : t.unavailable = s.unavailable)
    (due : t.due now location = (s.due now location).drop takers'.length)
    (free : ∀ row ∈ t.due now location, row.holder = none)
    (takers_le : takers'.length ≤ (s.due now location).length)
    (hanswers : answers = answersWhen (s.due now location) now lease takers' refused')
    (complete : refused' ≠ [] → (s.due now location).length ≤ takers'.length)
    (hothers : ∀ {q tx}, q ≠ p → (d.pickers q).transaction? = some tx →
      t.isOpen tx = true ∧ t.journal tx = d.store.journal tx)
    (hself : ∀ {tx}, state.transaction? = some tx → t.isOpen tx = true ∧
      ∀ {q}, q ≠ p → (d.pickers q).transaction? ≠ some tx)
    (hclean : ∀ {tx}, state = .begun tx ∨ state = .leaving tx → t.journal tx = [])
    (hrefused : refused ≠ [] → refused' ≠ [])
    (hstops : (∃ tx, state = .leaving tx) ∨ state = .stopped → refused' ≠ []) :
    Draining s now location lease ⟨t, d.become p state, answers⟩ takers' refused' := by
  have hbecome : ∀ q, d.become p state q = if q = p then state else d.pickers q :=
    fun q => Function.update_apply _ _ _ _
  refine ⟨wellFormed, unavailable, due, free, takers_le, hanswers, complete, ?_, ?_, ?_, ?_⟩
  · intro q tx hq
    simp only [hbecome] at hq
    split at hq
    · exact (hself hq).1
    · next hne => exact (hothers hne hq).1
  · intro q r tx hq hr
    simp only [hbecome] at hq hr
    split at hq
    · next heq =>
      split at hr
      · next heq' => rw [heq, heq']
      · next hne => exact absurd hr ((hself hq).2 hne)
    · next hne =>
      split at hr
      · exact absurd hq ((hself hr).2 hne)
      · exact h.distinct hq hr
  · intro q tx hq
    simp only [hbecome] at hq
    split at hq
    · exact hclean hq
    · next hne =>
      have htx : (d.pickers q).transaction? = some tx := by
        rcases hq with hq | hq <;> rw [hq] <;> rfl
      rw [(hothers hne htx).2]
      exact h.clean hq
  · intro q hq
    simp only [hbecome] at hq
    split at hq
    · exact hstops hq
    · exact hrefused (h.refused_ne hq)

/-- The transaction of a picker is nobody else's. -/
theorem Draining.other_ne (h : Draining s now location lease d takers refused) {tx : TransactionId}
    (hp : (d.pickers p).transaction? = some tx) {q : Fin n} (hq : q ≠ p) :
    (d.pickers q).transaction? ≠ some tx :=
  fun hq' => hq (h.distinct hq' hp)

/-- A taker that opens its transaction leaves the draining as it is. -/
theorem Draining.begin (h : Draining s now location lease d takers refused) :
    Draining s now location lease
      ⟨d.store.opening, d.become p (.begun (d.store.opened + 1)), d.answers⟩ takers refused := by
  have hclosed : ¬ d.store.isOpen (d.store.opened + 1) = true := fun hopen =>
    absurd (h.wellFormed.open_le hopen) (Nat.not_succ_le_self _)
  refine h.move h.wellFormed.opening h.unavailable h.due h.free h.takers_le h.answers h.complete
    ?_ ?_ ?_ id ?_
  · intro q tx _ hq
    refine ⟨?_, h.wellFormed.journal_opening tx⟩
    rw [isOpen_opening, h.isOpen hq, Bool.or_true]
  · intro tx htx
    cases htx
    refine ⟨by simp [isOpen_opening], fun {q} _ hq => ?_⟩
    exact hclosed (h.isOpen hq)
  · intro tx htx
    rcases htx with htx | htx
    · cases htx
      rw [h.wellFormed.journal_opening]
      exact journal_of_not_isOpen hclosed
    · cases htx
  · rintro (⟨tx, htx⟩ | htx) <;> cases htx

/-- A picker that gets a task takes the first one that is left. -/
theorem Draining.pick (h : Draining s now location lease d takers refused) {tx : TransactionId}
    (hp : d.pickers p = .begun tx) {row : Row} {rest : List Row}
    (hdue : d.store.due now location = row :: rest) {processTime : Instant}
    (hlater : now.nanos < processTime.nanos)
    (hdeadline : deadline now ((lease p).delay (nextAttempts row.record.attempts)) =
      .ok processTime) :
    Draining s now location lease
      ⟨note { d.store with rows :=
          d.store.rows.insert row.record.id (leased tx processTime row) } tx (.updated row.record),
        d.become p (.holding tx), d.answers ++ [(p, some (leased tx processTime row).record)]⟩
      (takers ++ [p]) refused := by
  have htx : (d.pickers p).transaction? = some tx := by rw [hp]; rfl
  have hfree : row.holder = none := h.free row (hdue ▸ List.mem_cons_self)
  obtain ⟨htouch, hrest⟩ := h.wellFormed.due_leased (h.isOpen htx) hdue hfree hlater
  have hdrop : (s.due now location).drop takers.length = row :: rest := h.due.symm.trans hdue
  have htail : (s.due now location).drop (takers ++ [p]).length = rest := by
    rw [List.length_append, List.length_singleton, ← List.drop_drop, hdrop, List.drop_one,
      List.tail_cons]
  have hlt : takers.length < (s.due now location).length := by
    by_contra hle
    rw [List.drop_eq_nil_of_le (Nat.le_of_not_lt hle)] at hdrop
    cases hdrop
  -- there was still a row to take, so nobody had been sent away
  have hnone : refused = [] := by
    by_contra hsome
    exact absurd (h.complete hsome) (Nat.not_le_of_lt hlt)
  subst hnone
  refine h.move (h.wellFormed.touch htouch) h.unavailable (hrest.trans htail.symm) ?_ ?_ ?_ ?_ ?_
    ?_ ?_ id ?_
  · intro r hr
    rw [hrest] at hr
    exact h.free r (hdue ▸ List.mem_cons_of_mem _ hr)
  · rw [List.length_append, List.length_singleton]
    exact hlt
  · rw [h.answers, answersWhen_take hdrop, pickedAt_eq hdeadline]
  · exact fun hsome => absurd rfl hsome
  · intro q t hne hq
    refine ⟨(htouch.isOpen_eq t).trans (h.isOpen hq), ?_⟩
    have hother : t ≠ tx := by
      rintro rfl
      exact h.other_ne htx hne hq
    rw [htouch.journal, if_neg hother]
  · intro t ht
    cases ht
    exact ⟨(htouch.isOpen_eq tx).trans (h.isOpen htx), fun hne => h.other_ne htx hne⟩
  · rintro t (ht | ht) <;> cases ht
  · rintro (⟨t, ht⟩ | ht) <;> cases ht

/-- A picker is sent away when nothing is left. -/
theorem Draining.sendAway (h : Draining s now location lease d takers refused)
    {tx : TransactionId} (hp : d.pickers p = .begun tx)
    (hdue : d.store.due now location = []) :
    Draining s now location lease
      ⟨d.store, d.become p (.leaving tx), d.answers ++ [(p, none)]⟩ takers (refused ++ [p]) := by
  have htx : (d.pickers p).transaction? = some tx := by rw [hp]; rfl
  have hsome : refused ++ [p] ≠ [] := List.append_ne_nil_of_right_ne_nil _ (List.cons_ne_nil p [])
  refine h.move h.wellFormed h.unavailable h.due h.free h.takers_le ?_ ?_ ?_ ?_ ?_ (fun _ => hsome)
    fun _ => hsome
  · rw [h.answers, answersWhen, answersWhen, List.map_append, List.append_assoc]
    rfl
  · intro _
    have hdrop := h.due
    rw [hdue] at hdrop
    exact List.drop_eq_nil_iff.1 hdrop.symm
  · intro q t _ hq
    exact ⟨h.isOpen hq, rfl⟩
  · intro t ht
    cases ht
    exact ⟨h.isOpen htx, fun hne => h.other_ne htx hne⟩
  · rintro t (ht | ht)
    · cases ht
    · cases ht
      exact h.clean (.inl hp)

/-- A picker ends its transaction, with its task or without having changed anything. -/
theorem Draining.finish (h : Draining s now location lease d takers refused) {tx : TransactionId}
    (hp : (d.pickers p).transaction? = some tx) {state : Picker}
    (hstate : state.transaction? = none) (hstops : state = .stopped → refused ≠ []) :
    Draining s now location lease ⟨d.store.release tx, d.become p state, d.answers⟩ takers
      refused := by
  have hended := ended_release h.wellFormed (h.isOpen hp)
  have hdue := h.wellFormed.due_release (h.isOpen hp) h.free
  refine h.move (h.wellFormed.ended hended) h.unavailable (hdue.trans h.due) ?_ h.takers_le
    h.answers h.complete ?_ ?_ ?_ id ?_
  · rw [hdue]
    exact h.free
  · intro q t hne hq
    have hother : t ≠ tx := by
      rintro rfl
      exact h.other_ne hp hne hq
    refine ⟨?_, ?_⟩
    · rw [hended.isOpen_eq, h.isOpen hq]
      simpa using hother
    · rw [hended.journal, if_neg hother]
  · intro t ht
    rw [hstate] at ht
    cases ht
  · rintro t (ht | ht) <;> rw [ht] at hstate <;> cases hstate
  · rintro (⟨t, ht⟩ | ht)
    · rw [ht] at hstate
      cases hstate
    · exact hstops ht

/-- What the step of a picker can come to. -/
inductive Move (now : Instant) (location : Location) (lease : Fin n → LeaseSchedule)
    (d : Drain n) (p : Fin n) : Drain n → Prop
  | idle (h : d.pickers p = .stopped ∨ d.store.unavailable = true) : Move now location lease d p d
  | begun (hp : d.pickers p = .ready) : Move now location lease d p
      ⟨d.store.opening, d.become p (.begun (d.store.opened + 1)), d.answers⟩
  | picked {tx : TransactionId} {row : Row} {rest : List Row} {processTime : Instant}
    (hp : d.pickers p = .begun tx) (hdue : d.store.due now location = row :: rest)
    (hlater : now.nanos < processTime.nanos)
    (hdeadline : deadline now ((lease p).delay (nextAttempts row.record.attempts)) =
      .ok processTime) : Move now location lease d p
      ⟨note { d.store with rows :=
          d.store.rows.insert row.record.id (leased tx processTime row) } tx (.updated row.record),
        d.become p (.holding tx), d.answers ++ [(p, some (leased tx processTime row).record)]⟩
  | sentAway {tx : TransactionId} (hp : d.pickers p = .begun tx)
    (hdue : d.store.due now location = []) : Move now location lease d p
      ⟨d.store, d.become p (.leaving tx), d.answers ++ [(p, none)]⟩
  | committed {tx : TransactionId} (hp : d.pickers p = .holding tx) : Move now location lease d p
      ⟨d.store.release tx, d.become p .ready, d.answers⟩
  | left {tx : TransactionId} (hp : d.pickers p = .leaving tx) : Move now location lease d p
      ⟨d.store.release tx, d.become p .stopped, d.answers⟩

/-- Each step of a taker is a move of the draining. -/
theorem Draining.step_move (h : Draining s now location lease d takers refused)
    (hpositive : ∀ p k, 0 < ((lease p).delay k).nanos)
    (hfits : ∀ p, ∀ row ∈ s.due now location, ∃ t,
      deadline now ((lease p).delay (nextAttempts row.record.attempts)) = .ok t) (p : Fin n) :
    Move now location lease d p (d.step now location lease p) := by
  unfold Drain.step
  cases hp : d.pickers p with
  | ready =>
    cases havailable : d.store.unavailable with
    | true =>
      simp only [begin_of_unavailable havailable]
      exact .idle (.inr havailable)
    | false =>
      simp only [begin_of_available havailable]
      exact .begun hp
  | begun tx =>
    have htx : (d.pickers p).transaction? = some tx := by rw [hp]; rfl
    have hcandidate := h.wellFormed.candidate_eq_head? h.free tx
    cases hdue : d.store.due now location with
    | nil =>
      rw [hdue, List.head?_nil] at hcandidate
      simp only [pick_of_none (h.isOpen htx) hcandidate]
      exact .sentAway hp hdue
    | cons row rest =>
      rw [hdue, List.head?_cons] at hcandidate
      have hmem : row ∈ s.due now location := by
        refine List.mem_of_mem_drop (i := takers.length) ?_
        rw [← h.due, hdue]
        exact List.mem_cons_self
      obtain ⟨processTime, hdeadline⟩ := hfits p row hmem
      have htime := le_of_deadline hdeadline
      have hlater : now.nanos < processTime.nanos := by
        have := hpositive p (nextAttempts row.record.attempts)
        omega
      simp only [pick_of_some (h.isOpen htx) hcandidate hdeadline]
      exact .picked hp hdue hlater hdeadline
  | holding tx =>
    have htx : (d.pickers p).transaction? = some tx := by rw [hp]; rfl
    simp only [Store.commit, whenOpen, h.isOpen htx, if_true]
    exact .committed hp
  | leaving tx =>
    have htx : (d.pickers p).transaction? = some tx := by rw [hp]; rfl
    have hsame : d.store.undoAll tx = d.store := by
      have hclean := h.clean (.inr hp)
      unfold journal at hclean
      unfold undoAll
      rw [hclean, List.foldl_nil]
    simp only [Store.abandon, h.isOpen htx, if_true, hsame]
    exact .left hp
  | stopped => exact .idle (.inl hp)

/-- Each move leads from a draining to a draining. -/
theorem Draining.moved (h : Draining s now location lease d takers refused) {d' : Drain n}
    (hmove : Move now location lease d p d') :
    ∃ takers' refused', Draining s now location lease d' takers' refused' := by
  cases hmove with
  | idle => exact ⟨takers, refused, h⟩
  | begun hp => exact ⟨takers, refused, h.begin⟩
  | picked hp hdue hlater hdeadline =>
    exact ⟨takers ++ [p], refused, h.pick hp hdue hlater hdeadline⟩
  | sentAway hp hdue => exact ⟨takers, refused ++ [p], h.sendAway hp hdue⟩
  | committed hp =>
    exact ⟨takers, refused, h.finish (by rw [hp]; rfl) rfl (fun hstop => by cases hstop)⟩
  | left hp =>
    refine ⟨takers, refused, h.finish (by rw [hp]; rfl) rfl fun _ => ?_⟩
    exact h.refused_ne (.inl ⟨_, hp⟩)

/-- The steps that are left to the pickers after one of them has moved on. -/
theorem remaining_become (d : Drain n) (p : Fin n) (state : Picker) :
    ∑ q, (d.become p state q).remaining + (d.pickers p).remaining =
      ∑ q, (d.pickers q).remaining + state.remaining := by
  have hrest : ∑ q ∈ Finset.univ.erase p, (d.become p state q).remaining =
      ∑ q ∈ Finset.univ.erase p, (d.pickers q).remaining := by
    refine Finset.sum_congr rfl fun q hq => ?_
    rw [Drain.become, Function.update_of_ne (Finset.ne_of_mem_erase hq)]
  have hnew := Finset.add_sum_erase Finset.univ (fun q => (d.become p state q).remaining)
    (Finset.mem_univ p)
  have hold := Finset.add_sum_erase Finset.univ (fun q => (d.pickers q).remaining)
    (Finset.mem_univ p)
  have hself : d.become p state p = state := Function.update_self _ _ _
  simp only [hself] at hnew
  omega

/-- A picker that has not stopped leaves less to do. -/
theorem Draining.toDo_lt (h : Draining s now location lease d takers refused) {d' : Drain n}
    (hmove : Move now location lease d p d') (havailable : s.unavailable = false)
    (hbusy : d.pickers p ≠ .stopped) : d'.toDo now location < d.toDo now location := by
  unfold Drain.toDo
  cases hmove with
  | idle hidle =>
    rcases hidle with hidle | hidle
    · exact absurd hidle hbusy
    · rw [h.unavailable, havailable] at hidle
      cases hidle
  | begun hp =>
    have hsum := remaining_become d p (.begun (d.store.opened + 1))
    have hsame : d.store.opening.due now location = d.store.due now location := rfl
    rw [hp] at hsum
    simp only [Picker.remaining, hsame] at hsum ⊢
    omega
  | @picked tx row rest processTime hp hdue hlater hdeadline =>
    have hsum := remaining_become d p (.holding tx)
    have htx : (d.pickers p).transaction? = some tx := by rw [hp]; rfl
    have hfree : row.holder = none := h.free row (hdue ▸ List.mem_cons_self)
    obtain ⟨-, hrest⟩ := h.wellFormed.due_leased (h.isOpen htx) hdue hfree hlater
    rw [hp] at hsum
    simp only [Picker.remaining, hrest, hdue, List.length_cons] at hsum ⊢
    omega
  | @sentAway tx hp hdue =>
    have hsum := remaining_become d p (.leaving tx)
    rw [hp] at hsum
    simp only [Picker.remaining] at hsum ⊢
    omega
  | @committed tx hp =>
    have hsum := remaining_become d p .ready
    have htx : (d.pickers p).transaction? = some tx := by rw [hp]; rfl
    rw [hp] at hsum
    simp only [Picker.remaining, h.wellFormed.due_release (h.isOpen htx) h.free] at hsum ⊢
    omega
  | @left tx hp =>
    have hsum := remaining_become d p .stopped
    have htx : (d.pickers p).transaction? = some tx := by rw [hp]; rfl
    rw [hp] at hsum
    simp only [Picker.remaining, h.wellFormed.due_release (h.isOpen htx) h.free] at hsum ⊢
    omega

/-- A schedule leads from a draining to a draining, and uses up its steps. -/
theorem Draining.run (h : Draining s now location lease d takers refused)
    (hpositive : ∀ p k, 0 < ((lease p).delay k).nanos)
    (hfits : ∀ p, ∀ row ∈ s.due now location, ∃ t,
      deadline now ((lease p).delay (nextAttempts row.record.attempts)) = .ok t)
    (schedule : List (Fin n)) :
    (∃ takers' refused',
      Draining s now location lease (d.run now location lease schedule) takers' refused') ∧
    (s.unavailable = false → d.Busy now location lease schedule →
      schedule.length ≤ d.toDo now location) := by
  induction schedule generalizing d takers refused with
  | nil => exact ⟨⟨takers, refused, h⟩, fun _ _ => Nat.zero_le _⟩
  | cons p rest ih =>
    have hmove := h.step_move hpositive hfits p
    obtain ⟨takers', refused', hnext⟩ := h.moved hmove
    obtain ⟨hrun, hlength⟩ := ih hnext
    refine ⟨hrun, fun havailable hbusy => ?_⟩
    exact Nat.lt_of_le_of_lt (hlength havailable hbusy.2) (h.toDo_lt hmove havailable hbusy.1)

end Steps

/-! ## The pickers drain the queue -/

section Drained

variable {n : Nat} {s : Store} {now : Instant} {location : Location}
  {lease : Fin n → LeaseSchedule}

/-- A store without an open transaction is about to be drained. -/
theorem Draining.start (hs : s.WellFormed) (hclosed : ∀ tx, s.isOpen tx = false)
    (now : Instant) (location : Location) (lease : Fin n → LeaseSchedule) :
    Draining s now location lease (Drain.start s) [] [] where
  wellFormed := hs
  unavailable := rfl
  due := rfl
  free row hrow := by
    obtain ⟨⟨id, hid⟩, -⟩ := mem_due.1 hrow
    cases hholder : row.holder with
    | none => rfl
    | some tx =>
      have hopen := hs.holder_open hid hholder
      rw [hclosed tx] at hopen
      cases hopen
  takers_le := Nat.zero_le _
  answers := rfl
  complete h := absurd rfl h
  isOpen h := by cases h
  distinct h := by cases h
  clean h := by rcases h with h | h <;> cases h
  refused_ne h := by
    rcases h with ⟨_, h⟩ | h <;> cases h

/-- What the pickers of a queue have got: the due rows in their order, and nothing only after the
last of them. -/
structure DrainsInOrder (s : Store) (now : Instant) (location : Location)
    (lease : Fin n → LeaseSchedule) (d : Drain n) : Prop where
  mem_due : ∀ row, row ∈ s.due now location ↔ (∃ id, s.rows.get? id = some row) ∧
    row.location = location ∧ row.record.processTime.nanos ≤ now.nanos
  due_sorted : (s.due now location).Pairwise Row.precedes
  inOrder : ∃ takers refused : List (Fin n),
    d.answers = answersWhen (s.due now location) now lease takers refused ∧
    takers.length ≤ (s.due now location).length ∧
    (refused ≠ [] → takers.length = (s.due now location).length)
  /-- Once a picker has stopped, all due rows have been taken, each once. -/
  complete : (∃ p, d.pickers p = .stopped) →
    d.answers.filterMap (fun a => a.2.map TaskRecord.id) =
      (s.due now location).map fun row => row.record.id

/-- The identifiers of the tasks that have been taken. -/
theorem ids_answersWhen {rows : List Row} {now : Instant} {lease : Fin n → LeaseSchedule}
    {takers refused : List (Fin n)} (h : rows.length ≤ takers.length) :
    (answersWhen rows now lease takers refused).filterMap (fun a => a.2.map TaskRecord.id) =
      rows.map fun row => row.record.id := by
  have hrefused : (refused.map fun p => (p, (none : Option TaskRecord))).filterMap
      (fun a => a.2.map TaskRecord.id) = [] := by simp
  rw [answersWhen, List.filterMap_append, hrefused, List.append_nil]
  induction rows generalizing takers with
  | nil => rw [List.zipWith_nil_right, List.filterMap_nil, List.map_nil]
  | cons row rest ih =>
    cases takers with
    | nil => cases h
    | cons p others =>
      rw [List.zipWith_cons_cons, List.filterMap_cons, ih (Nat.le_of_succ_le_succ h)]
      rfl

/-- A draining hands the due rows out in their order, each once. -/
theorem Draining.drainsInOrder {d : Drain n} {takers refused : List (Fin n)}
    (h : Draining s now location lease d takers refused) (hs : s.WellFormed) :
    DrainsInOrder s now location lease d where
  mem_due _ := Store.mem_due
  due_sorted := hs.pairwise_due now location
  inOrder :=
    ⟨takers, refused, h.answers, h.takers_le, fun hsome => h.takers_le.antisymm (h.complete hsome)⟩
  complete := by
    rintro ⟨p, hp⟩
    rw [h.answers]
    exact ids_answersWhen (h.complete (h.refused_ne (.inr hp)))

/-- From any store without open transactions, and under every schedule of their steps, pickers of
one queue get the due rows in their order, and they stop after at most three steps for each row and
three for each picker. -/
theorem pickers_drain_queue (hs : Reachable s) (hclosed : ∀ tx, s.isOpen tx = false)
    (hpositive : ∀ p k, 0 < ((lease p).delay k).nanos)
    (hfits : ∀ p, ∀ row ∈ s.due now location, ∃ t,
      deadline now ((lease p).delay (nextAttempts row.record.attempts)) = .ok t)
    (schedule : List (Fin n)) :
    DrainsInOrder s now location lease ((Drain.start s).run now location lease schedule) ∧
    (s.unavailable = false → (Drain.start s).Busy now location lease schedule →
      schedule.length ≤ 3 * (s.due now location).length + 3 * n) := by
  have hstart := Draining.start hs.wellFormed hclosed now location lease
  obtain ⟨⟨takers, refused, hrun⟩, hlength⟩ := hstart.run hpositive hfits schedule
  refine ⟨hrun.drainsInOrder hs.wellFormed, fun havailable hbusy => ?_⟩
  have htoDo : (Drain.start (n := n) s).toDo now location =
      3 * (s.due now location).length + 3 * n := by
    simp [Drain.toDo, Drain.start, Picker.remaining, Nat.mul_comm]
  rw [← htoDo]
  exact hlength havailable hbusy

end Drained

/-- A store with two tasks that are due and one whose time has not come. -/
def threeTasks : Store :=
  empty.run [.begin, .enqueue 1 .epoch someQueue ⟨none, .zero, none, none⟩,
    .enqueue 1 .epoch someQueue ⟨none, .zero, none, none⟩,
    .enqueue 1 .epoch someQueue ⟨none, .ofSeconds 60, none, none⟩, .commit 1]

/-- A picker with leases of one minute and one with leases of ten seconds. -/
def twoLeases : Fin 2 → LeaseSchedule :=
  fun p => if p = 0 then .fixed (.ofSeconds 60) else .fixed (.ofSeconds 10)

/-- What `pickers_drain_queue` says of two pickers of this store that take turns. -/
theorem two_pickers_drain_three_tasks :
    DrainsInOrder threeTasks .epoch someQueue twoLeases
      ((Drain.start threeTasks).run .epoch someQueue twoLeases
        [0, 1, 1, 0, 1, 1, 1, 0, 1, 0, 0, 0]) ∧
    ((Drain.start threeTasks).run .epoch someQueue twoLeases
      [0, 1, 1, 0, 1, 1, 1, 0, 1, 0, 0, 0]).answers.map
        (fun a => (a.1, a.2.map TaskRecord.id)) =
      [(1, some 1), (0, some 2), (1, none), (0, none)] := by
  have hreachable : Reachable threeTasks := Reachable.run .empty _
  have hclosed : ∀ tx, threeTasks.isOpen tx = false := fun _ => rfl
  have hlong : 0 < (capped (.ofSeconds 60)).nanos ∧ 0 < (capped (.ofSeconds 10)).nanos := by decide
  have hpositive : ∀ p k, 0 < ((twoLeases p).delay k).nanos := by
    intro p k
    unfold twoLeases
    split
    · exact hlong.1
    · exact hlong.2
  have hfits : ∀ p, ∀ row ∈ threeTasks.due .epoch someQueue, ∃ t,
      deadline .epoch ((twoLeases p).delay (nextAttempts row.record.attempts)) = .ok t := by
    intro p row _
    unfold twoLeases
    split <;> exact ⟨_, rfl⟩
  exact ⟨(pickers_drain_queue hreachable hclosed hpositive hfits _).1, rfl⟩

end Store

end LeaseQueue
