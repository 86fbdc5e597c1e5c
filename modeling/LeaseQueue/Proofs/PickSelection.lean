import LeaseQueue.Proofs.DelayFormulas
import LeaseQueue.Proofs.QueueDraining

/-!
# What a pick takes

A pick of an open transaction takes the first row of its queue that no other transaction holds and
whose time has come, counts the attempt, hides the row for its lease and holds it.  If there is no
such row nothing happens.

A pick could fail only because its lease ends beyond the calendar.  No lease is longer than the
longest delay (`LeaseSchedule.nanos_delay_le`), so this needs a clock within ten years of the end of
the calendar.  That the count of attempts stops only at the largest number of 32 bits needs more
than one step: the attempts of all rows fit 32 bits, and so do those that a rollback brings back
(`CountsFit`).

Main statement: `pick_leases_first`, for every store that can be reached.
-/

set_option autoImplicit false

namespace LeaseQueue

open Text

/-! ## Leases have an end -/

/-- No lease is longer than the longest delay. -/
theorem LeaseSchedule.nanos_delay_le (schedule : LeaseSchedule) (attempts : Nat) :
    (schedule.delay attempts).nanos ≤ maxDelay.nanos := by
  cases schedule with
  | arithmetic initial step => exact nanos_capped_le _
  | geometric initial =>
    show (geometricDelay initial 2 (stepsBefore attempts)).nanos ≤ maxDelay.nanos
    rw [nanos_geometricDelay]
    split <;> omega
  | fixed delay => exact nanos_capped_le _

/-- A deadline inside the calendar exists. -/
theorem Store.exists_deadline {now : Instant} {d : Duration}
    (h : now.nanos + d.nanos ≤ calendarEnd) : ∃ t, deadline now d = .ok t := by
  unfold deadline
  cases hafter : now.after? d with
  | none => exact absurd h (Int.not_le.2 (Instant.after?_eq_none.1 hafter))
  | some t => exact ⟨t, rfl⟩

/-! ## The attempts of all rows fit 32 bits -/

/-- The attempts of a row, if there is one, fit 32 bits. -/
def CountFits (content : Option (Location × TaskRecord)) : Prop :=
  ∀ c, content = some c → c.2.attempts ≤ maxWord32

/-- There are no attempts where there is no row. -/
theorem CountFits.none : CountFits none := fun _ h => by cases h

/-- A row with attempts of 32 bits fits. -/
theorem CountFits.some {c : Location × TaskRecord} (h : c.2.attempts ≤ maxWord32) :
    CountFits (some c) := by
  intro c' heq
  cases heq
  exact h

/-- The count of attempts stays at the largest number of 32 bits. -/
theorem nextAttempts_le (attempts : Nat) : nextAttempts attempts ≤ maxWord32 :=
  Nat.min_le_right _ _

/-- An entry that tells of a change of a row whose attempts fit never brings back others. -/
theorem Undo.Explains.countFits_revert {u : Undo} {before after : Option (Location × TaskRecord)}
    (h : u.Explains before after) (hbefore : CountFits before)
    (content : Option (Location × TaskRecord)) : CountFits (u.revert content) := by
  cases h with
  | inserted => exact .none
  | @updated location before =>
    cases content with
    | none => exact .none
    | some c => exact .some (hbefore (location, before) rfl)
  | deleted => exact .some (hbefore _ rfl)

namespace Store

/-- The attempts of every row fit 32 bits, and so do those that a journal brings back. -/
structure CountsFit (s : Store) : Prop where
  row : ∀ id, CountFits (s.content id)
  entry : ∀ {tx u}, u ∈ s.journal tx → ∀ content, CountFits (u.revert content)

/-- Where all counts fit, those of a row do. -/
theorem CountsFit.attempts_le {s : Store} (h : s.CountsFit) {id : TaskId} {row : Row}
    (hrow : s.rows.get? id = some row) : row.record.attempts ≤ maxWord32 := by
  refine h.row id row.content ?_
  rw [content, hrow, Option.map_some]

/-- Where all counts fit, those of a row that is restored do. -/
theorem CountsFit.restored {s : Store} (h : s.CountsFit) (tx : TransactionId) (id : TaskId) :
    CountFits (s.restored tx id) := by
  have hentry : ∀ u ∈ s.entries tx id, ∀ content, CountFits (u.revert content) :=
    fun u hu => h.entry (List.mem_of_mem_filter hu)
  have hrow := h.row id
  unfold Store.restored
  generalize s.entries tx id = entries at hentry
  generalize s.content id = content at hrow
  induction entries generalizing content with
  | nil => exact hrow
  | cons u rest ih =>
    refine ih ?_ _ (hentry u List.mem_cons_self content)
    exact fun v hv => hentry v (List.mem_cons_of_mem _ hv)

/-- The counts fit after a change of a row whose count fits then. -/
theorem CountsFit.touch {s s' : Store} (h : s.CountsFit) {tx : TransactionId} {id : TaskId}
    {noted : Option Undo} (htouch : Touch s tx id noted s') (hnew : CountFits (s'.content id)) :
    s'.CountsFit where
  row k := by
    by_cases hk : k = id
    · rw [hk]
      exact hnew
    · rw [htouch.content_of_ne hk]
      exact h.row k
  entry {t u} hu := by
    rw [htouch.journal] at hu
    split at hu
    · rcases List.mem_append.1 hu with hu | hu
      · have hnoted : noted = some u := Option.mem_toList.1 hu
        exact (htouch.explains hnoted).countFits_revert (h.row id)
      · exact h.entry hu
    · exact h.entry hu

/-- The counts fit after the end of a transaction that leaves rows whose counts fit. -/
theorem CountsFit.ended {s s' : Store} (h : s.CountsFit) {tx : TransactionId}
    (hended : Ended s tx s') (hrow : ∀ id, CountFits (s'.content id)) : s'.CountsFit where
  row := hrow
  entry {t u} hu := by
    rw [hended.journal] at hu
    split at hu
    · cases hu
    · exact h.entry hu

/-- The counts fit after the begin of a transaction. -/
theorem CountsFit.opening {s : Store} (h : s.CountsFit) (hs : s.WellFormed) :
    s.opening.CountsFit where
  row := h.row
  entry {t u} hu := by
    rw [hs.journal_opening] at hu
    exact h.entry hu

/-- Every step keeps the attempts within 32 bits: a new row has none, a pick stops there, and a
reenqueueing keeps them or starts afresh. -/
theorem CountsFit.step {s s' : Store} {a : Action} {answer : Answer} (h : s.CountsFit)
    (hs : s.WellFormed) (hstep : Step s a answer s') : s'.CountsFit := by
  cases hstep with
  | idle => exact h
  | outage on => exact ⟨h.row, h.entry⟩
  | begun => exact h.opening hs
  | enqueued isOpen =>
    refine h.touch (touch_enqueued hs isOpen _ _ _) ?_
    rw [content_note, content_insert, if_pos rfl]
    exact .some (Nat.zero_le _)
  | picked isOpen hcandidate =>
    obtain ⟨hrow, -, hfree, -⟩ := hs.of_candidate hcandidate
    refine h.touch (touch_rewritten hs isOpen hrow hfree rfl rfl rfl) ?_
    rw [content_note, content_insert, if_pos rfl]
    exact .some (nextAttempts_le _)
  | counted isOpen hcandidate =>
    obtain ⟨hrow, -, hfree, -⟩ := hs.of_candidate hcandidate
    refine h.touch (touch_counted hs isOpen hrow hfree) ?_
    rw [content_insert, if_pos rfl]
    exact .some (nextAttempts_le _)
  | deleted isOpen haccess =>
    obtain ⟨hrow, -, hfree⟩ := of_access_granted haccess
    refine h.touch (touch_deleted hs isOpen hrow hfree) ?_
    rw [content_note, content, OrderedMap.get?_erase, if_pos rfl]
    exact .none
  | @reenqueued _ _ _ _ _ _ fresh row isOpen _ haccess =>
    obtain ⟨hrow, -, hfree⟩ := of_access_granted haccess
    refine h.touch (touch_rewritten hs isOpen hrow hfree rfl rfl rfl) ?_
    rw [content_note, content_insert, if_pos rfl]
    have hattempts := h.attempts_le hrow
    refine .some ?_
    show (if fresh = true then 0 else row.record.attempts) ≤ maxWord32
    split
    · exact Nat.zero_le _
    · exact hattempts
  | committed isOpen =>
    refine h.ended (ended_release hs isOpen) fun id => ?_
    rw [content_release]
    exact h.row id
  | rolledBack isOpen =>
    refine h.ended (ended_undoAll_release hs isOpen) fun id => ?_
    rw [content_undoAll_release]
    exact h.restored _ id
  | abandoned isOpen =>
    refine h.ended (ended_undoAll_release hs isOpen) fun id => ?_
    rw [content_undoAll_release]
    exact h.restored _ id

/-- Another process time leaves the counts as they are. -/
theorem CountsFit.setProcessTime {s : Store} (h : s.CountsFit) (id : TaskId) (t : Instant) :
    (s.setProcessTime id t).1.CountsFit where
  row k := by
    have hrow := h.row k
    unfold content at hrow ⊢
    simp only [Store.setProcessTime, OrderedMap.get?_modify]
    split
    · cases hk : s.rows.get? k with
      | none => exact .none
      | some row =>
        rw [hk] at hrow
        exact .some (hrow row.content rfl)
    · exact hrow
  entry := h.entry

/-- In every store that can be reached the counts fit. -/
theorem Reachable.countsFit {s : Store} (h : s.Reachable) : s.CountsFit := by
  induction h with
  | empty => exact ⟨fun _ => .none, fun hu => by cases hu⟩
  | action hs a ih => exact ih.step hs.wellFormed (perform_step _ a)
  | setProcessTime _ id t ih => exact ih.setProcessTime id t

end Store

/-! ## The row that is taken -/

/-- Whether a transaction has to leave a row alone for now: another one holds it, or its time has
not come. -/
def Row.OutOfReach (row : Row) (tx : TransactionId) (now : Instant) : Prop :=
  (∃ other, row.holder = some other ∧ other ≠ tx) ∨ now.nanos < row.record.processTime.nanos

namespace Store

variable {s : Store} {tx : TransactionId} {now : Instant} {location : Location}

/-- A row is eligible just if it is in the queue and within reach. -/
theorem eligible_iff {row : Row} :
    Row.eligible row tx now location = true ↔
      row.location = location ∧ ¬ row.OutOfReach tx now := by
  unfold Row.eligible Row.OutOfReach
  cases row.holder <;> simp [and_assoc]

/-- There is no candidate just if every row of the queue is out of reach. -/
theorem candidate_eq_none_iff :
    s.candidate tx now location = none ↔
      ∀ row ∈ s.rows.values, row.location = location → row.OutOfReach tx now := by
  have hfilter : s.candidate tx now location = none ↔
      (s.rows.values.filter fun row => Row.eligible row tx now location) = [] := by
    unfold candidate
    split
    · next heq => simp [heq]
    · next heq => simp [heq]
  rw [hfilter, List.filter_eq_nil_iff]
  simp only [eligible_iff, not_and, not_not]

/-- The row that is taken comes before all others within reach. -/
theorem WellFormed.candidate_precedes (hs : s.WellFormed) {row : Row}
    (h : s.candidate tx now location = some row) :
    ∀ other ∈ s.rows.values, other.location = location → ¬ other.OutOfReach tx now →
      other = row ∨ row.precedes other := by
  intro other hother hlocation hreach
  have hmem : other ∈ s.rows.values.filter fun row => Row.eligible row tx now location :=
    List.mem_filter.2 ⟨hother, eligible_iff.2 ⟨hlocation, hreach⟩⟩
  have hsorted := hs.values_pairwise.filter fun row => Row.eligible row tx now location
  unfold candidate at h
  split at h
  · cases h
  · next first rest heq =>
    rw [heq] at hmem hsorted
    cases h
    exact foldl_earlier_precedes hsorted other hmem

/-- A pick takes the row `before` and returns `record`. -/
structure TakesFirst (s s' : Store) (tx : TransactionId) (now : Instant) (location : Location)
    (lease : LeaseSchedule) (before : Row) (record : TaskRecord) : Prop where
  found : s.rows.get? record.id = some before
  location_eq : before.location = location
  within_reach : ¬ before.OutOfReach tx now
  first : ∀ row ∈ s.rows.values, row.location = location → ¬ row.OutOfReach tx now →
    row = before ∨ before.precedes row
  attempts : record.attempts =
    if before.record.attempts = maxWord32 then maxWord32 else before.record.attempts + 1
  processTime : record.processTime.nanos = now.nanos + (lease.delay record.attempts).nanos
  kept : record =
    { before.record with attempts := record.attempts, processTime := record.processTime }
  stored : s'.rows.get? record.id = some ⟨location, record, some tx⟩
  others : ∀ id, id ≠ record.id → s'.rows.get? id = s.rows.get? id

/-- The answer of a pick and the store that it leaves: nothing was within reach and nothing
happened, or the first row within reach was taken. -/
structure LeasesFirst (s s' : Store) (tx : TransactionId) (now : Instant) (location : Location)
    (lease : LeaseSchedule) (answer : Option TaskRecord) : Prop where
  none_iff : answer = none ↔
    ∀ row ∈ s.rows.values, row.location = location → row.OutOfReach tx now
  idle : answer = none → s' = s
  takes : ∀ record, answer = some record →
    ∃ before, TakesFirst s s' tx now location lease before record

/-- A pick adds one to the count of attempts, unless it is the largest number of 32 bits. -/
theorem nextAttempts_eq {attempts : Nat} (h : attempts ≤ maxWord32) :
    nextAttempts attempts = if attempts = maxWord32 then maxWord32 else attempts + 1 := by
  unfold nextAttempts
  split <;> omega

/-- What a pick makes of the row that it takes. -/
theorem takesFirst_of_candidate (hs : s.WellFormed) (hcounts : s.CountsFit)
    {lease : LeaseSchedule} {processTime : Instant} {row : Row}
    (hcandidate : s.candidate tx now location = some row)
    (hdeadline : deadline now (lease.delay (nextAttempts row.record.attempts)) = .ok processTime) :
    TakesFirst s
      (note { s with rows := s.rows.insert row.record.id (leased tx processTime row) }
        tx (.updated row.record))
      tx now location lease row (leased tx processTime row).record := by
  obtain ⟨hrow, hlocation, -⟩ := hs.of_candidate hcandidate
  have heligible := eligible_iff.1 (eligible_of_candidate hcandidate).2
  constructor
  case found => exact hrow
  case location_eq => exact hlocation
  case within_reach => exact heligible.2
  case first => exact hs.candidate_precedes hcandidate
  case attempts => exact nextAttempts_eq (hcounts.attempts_le hrow)
  case processTime => exact le_of_deadline hdeadline
  case kept => rfl
  case stored =>
    rw [← hlocation]
    exact (OrderedMap.get?_insert _ _ _ _).trans (if_pos rfl)
  case others =>
    intro id hid
    exact (OrderedMap.get?_insert _ _ _ _).trans (if_neg hid)

/-- Until ten years before the end of the calendar a pick of an open transaction never fails: it
takes the first row within reach, or does nothing if there is none. -/
theorem pick_leases_first (hs : s.Reachable) (isOpen : s.isOpen tx = true)
    (hnow : now.nanos + maxDelay.nanos ≤ calendarEnd) (location : Location)
    (lease : LeaseSchedule) :
    ∃ s' answer, s.pick tx now location lease = (s', .ok answer) ∧
      LeasesFirst s s' tx now location lease answer := by
  cases hcandidate : s.candidate tx now location with
  | none =>
    refine ⟨s, none, pick_of_none isOpen hcandidate lease, ?_, fun _ => rfl, ?_⟩
    · exact iff_of_true rfl (candidate_eq_none_iff.1 hcandidate)
    · intro record hrecord
      cases hrecord
  | some row =>
    have hlease := lease.nanos_delay_le (nextAttempts row.record.attempts)
    generalize hdelay : lease.delay (nextAttempts row.record.attempts) = delay at hlease
    have hend : now.nanos + delay.nanos ≤ calendarEnd := by omega
    obtain ⟨processTime, hdeadline⟩ := exists_deadline hend
    rw [← hdelay] at hdeadline
    refine ⟨_, _, pick_of_some isOpen hcandidate hdeadline, ?_, ?_, ?_⟩
    · have hsome : ¬ s.candidate tx now location = none := by simp [hcandidate]
      simpa [candidate_eq_none_iff] using hsome
    · intro h
      cases h
    · intro record hrecord
      cases hrecord
      exact ⟨row, takesFirst_of_candidate hs.wellFormed hs.countsFit hcandidate hdeadline⟩

/-- A time, in seconds from the start of 1970. -/
def atSecond (n : Nat) : Instant := Instant.epoch.advance (.ofSeconds n)

/-- A task that is due after so many seconds. -/
def dueAfter (seconds : Nat) : Action :=
  .enqueue 1 .epoch someQueue ⟨none, .ofSeconds seconds, none, none⟩

/-- Four tasks, of which the second transaction has picked the first one, and a third
transaction. -/
def fourToPick : Store :=
  empty.run [.begin, dueAfter 0, dueAfter 3, dueAfter 2, dueAfter 9, .commit 1,
    .begin, .pick 2 .epoch someQueue (.fixed .zero), .begin]

/-- A pick with the longest of all leases, when the task that is due next is not. -/
theorem longestLease_leases_first :
    fourToPick.Reachable ∧ fourToPick.isOpen 3 = true ∧
      (atSecond 5).nanos + maxDelay.nanos ≤ calendarEnd ∧
      ∃ s' answer, fourToPick.pick 3 (atSecond 5) someQueue (.geometric .longest) =
          (s', .ok answer) ∧
        LeasesFirst fourToPick s' 3 (atSecond 5) someQueue (.geometric .longest) answer := by
  have hreachable : fourToPick.Reachable := Reachable.empty.run _
  have hopen : fourToPick.isOpen 3 = true := by decide
  have hnow : (atSecond 5).nanos + maxDelay.nanos ≤ calendarEnd := by decide
  exact ⟨hreachable, hopen, hnow, pick_leases_first hreachable hopen hnow _ _⟩

/-- The first task is locked, the third one is due before the second, and the last is not due; the
one that is taken is hidden for ten years. -/
example : (fourToPick.rows.get? 1).bind Row.holder = some 2 ∧
    (fourToPick.pick 3 (atSecond 5) someQueue (.geometric .longest)).2 =
      .ok (some ⟨3, none, 1, .epoch, ⟨315360005000000000, by decide, by decide⟩, none, none⟩) := by
  decide

end Store

end LeaseQueue
