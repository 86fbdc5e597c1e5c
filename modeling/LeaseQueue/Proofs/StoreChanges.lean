import LeaseQueue.Proofs.RowOwnership

/-!
# What the actions on a store come to

For the rows and the journals of a well-formed store an action does one of few things: it leaves
them alone, opens a transaction, touches one row or ends a transaction.  `step_change` says so.
Each of them keeps the store well-formed, so every store that a run reaches is, and each of them
leaves an open transaction what it owns.
-/

set_option autoImplicit false

namespace LeaseQueue.Store

/-! ## The beginning and the end of a transaction -/

/-- A store with one more open transaction, which has done nothing yet. -/
def opening (s : Store) : Store :=
  { s with opened := s.opened + 1, journals := s.journals.insert (s.opened + 1) [] }

/-- A store that is to be reached opens the next transaction. -/
theorem begin_of_available {s : Store} (h : s.unavailable = false) :
    s.begin = (s.opening, .ok (s.opened + 1)) := by
  unfold begin
  rw [if_neg (by rw [h]; exact Bool.false_ne_true)]
  rfl

/-- A commit of an open transaction releases it. -/
theorem commit_of_isOpen {s : Store} {tx : TransactionId} (h : s.isOpen tx = true) :
    s.commit tx = (s.release tx, .ok ()) := by
  unfold commit whenOpen
  rw [if_pos h]

/-- To abandon a transaction that has ended has no effect. -/
theorem abandon_of_not_isOpen {s : Store} {tx : TransactionId} (h : ¬ s.isOpen tx = true) :
    s.abandon tx = s :=
  if_neg h

/-- Opening a transaction leaves the others open that are. -/
theorem isOpen_opening (s : Store) (t : TransactionId) :
    s.opening.isOpen t = (decide (t = s.opened + 1) || s.isOpen t) := by
  simp only [isOpen, OrderedMap.contains, opening, OrderedMap.get?_insert]
  split <;> simp_all

/-- The next transaction is not open yet. -/
theorem WellFormed.not_isOpen_next {s : Store} (hs : s.WellFormed) :
    s.isOpen (s.opened + 1) = false := by
  rw [← Bool.not_eq_true]
  intro hopen
  exact absurd (hs.open_le hopen) (Nat.not_succ_le_self _)

/-- An opened transaction is open. -/
theorem isOpen_opening_self (s : Store) : s.opening.isOpen (s.opened + 1) = true := by
  rw [isOpen_opening]
  simp

/-- Once it has ended, the same transactions are open as before it was opened. -/
theorem WellFormed.isOpen_opening_ended {s : Store} (hs : s.WellFormed) (t : TransactionId) :
    (decide (t ≠ s.opened + 1) && s.opening.isOpen t) = s.isOpen t := by
  rw [isOpen_opening]
  by_cases ht : t = s.opened + 1
  · simp [ht, hs.not_isOpen_next]
  · simp [ht]

/-- A transaction that is yet to be opened holds nothing. -/
theorem WellFormed.freed_opening {s : Store} (hs : s.WellFormed) (k : TaskId) :
    ((s.rows.get? k).map fun row =>
      if row.holder = some (s.opened + 1) then { row with holder := none } else row) =
      s.rows.get? k := by
  cases hrow : s.rows.get? k with
  | none => rfl
  | some row =>
    have hholder : row.holder ≠ some (s.opened + 1) := by
      intro hholder
      have hnew := hs.not_isOpen_next
      rw [hs.holder_open hrow hholder] at hnew
      cases hnew
    rw [Option.map_some, if_neg hholder]

/-- Opening a transaction leaves the journals as they are. -/
theorem WellFormed.journal_opening {s : Store} (hs : s.WellFormed) (t : TransactionId) :
    s.opening.journal t = s.journal t := by
  have hnew : s.journal (s.opened + 1) = [] := by
    apply journal_of_not_isOpen
    simp [hs.not_isOpen_next]
  by_cases ht : t = s.opened + 1
  · rw [ht, hnew]
    simp [journal, opening, OrderedMap.get?_insert]
  · simp [journal, opening, OrderedMap.get?_insert, ht]

/-- Opening a transaction touches no row. -/
theorem WellFormed.touched_opening {s : Store} (hs : s.WellFormed) (t : TransactionId) :
    s.opening.touched t = s.touched t := by
  unfold touched
  rw [hs.journal_opening]

/-- Opening a transaction leaves the store well formed. -/
theorem WellFormed.opening {s : Store} (hs : s.WellFormed) : s.opening.WellFormed := by
  have htouched := hs.touched_opening
  constructor
  case record_id => exact hs.record_id
  case row_lt => exact hs.row_lt
  case touched_lt => exact fun hid => hs.touched_lt (htouched _ ▸ hid)
  case open_le =>
    intro t ht
    rw [isOpen_opening, Bool.or_eq_true, decide_eq_true_eq] at ht
    rcases ht with rfl | ht
    · exact Nat.le_refl _
    · exact Nat.le_succ_of_le (hs.open_le ht)
  case holder_open =>
    intro id row t hrow ht
    rw [isOpen_opening, hs.holder_open hrow ht, Bool.or_true]
  case owned => exact fun hid hrow => hs.owned (htouched _ ▸ hid) hrow
  case disjoint => exact fun hid hid' => hs.disjoint (htouched _ ▸ hid) (htouched _ ▸ hid')
  case rewinds =>
    intro t id
    unfold entries
    rw [hs.journal_opening]
    exact hs.rewinds t id

/-- An outage or its end leaves the store well formed. -/
theorem WellFormed.outage {s : Store} (hs : s.WellFormed) (on : Bool) :
    WellFormed { s with unavailable := on } :=
  ⟨hs.record_id, hs.row_lt, hs.touched_lt, hs.open_le, hs.holder_open, hs.owned, hs.disjoint,
    hs.rewinds⟩

/-! ## Every action -/

/-- What an action of a transaction, or of the world around the store, comes to for the rows and the
journals. -/
inductive Change (s : Store) : Action → Answer → Store → Prop
  | idle {a : Action} {answer : Answer} : Change s a answer s
  | outage (on : Bool) : Change s (.outage on) .silent { s with unavailable := on }
  | begun {answer : Answer} : Change s .begin answer s.opening
  /-- A change that no journal tells of comes from a pick whose lease would be too long. -/
  | touched {a : Action} {answer : Answer} {tx : TransactionId} {id : TaskId}
    {noted : Option Undo} {s' : Store} (ha : a.transaction? = some tx)
    (h : Touch s tx id noted s') (hnoted : noted = none → answer.overflowsLease = true) :
    Change s a answer s'
  | kept {tx : TransactionId} {s' : Store} (h : Ended s tx s')
    (hcontent : ∀ id, s'.content id = s.content id) :
    Change s (.commit tx) (.ended (.ok ())) s'
  | takenBack {a : Action} {answer : Answer} {tx : TransactionId} {s' : Store}
    (ha : TakesBack tx a answer) (h : Ended s tx s')
    (hcontent : ∀ id, s'.content id = s.restored tx id) : Change s a answer s'

/-- Every step of a well-formed store leaves rows and journals alone, opens a transaction, touches
one row or ends a transaction. -/
theorem step_change {s s' : Store} {a : Action} {answer : Answer} (hs : s.WellFormed)
    (h : Step s a answer s') : Change s a answer s' := by
  cases h with
  | idle => exact .idle
  | outage on => exact .outage on
  | begun => exact .begun
  | enqueued isOpen =>
    exact .touched rfl (touch_enqueued hs isOpen _ _ _) (fun h => by cases h)
  | picked isOpen hcandidate =>
    obtain ⟨hrow, -, hfree, -⟩ := hs.of_candidate hcandidate
    exact .touched rfl (touch_rewritten hs isOpen hrow hfree rfl rfl rfl) (fun h => by cases h)
  | counted isOpen hcandidate hdeadline =>
    obtain ⟨hrow, -, hfree, -⟩ := hs.of_candidate hcandidate
    refine .touched rfl (touch_counted hs isOpen hrow hfree) fun _ => ?_
    rw [eq_of_deadline_error hdeadline]
    rfl
  | deleted isOpen haccess =>
    obtain ⟨hrow, -, hfree⟩ := of_access_granted haccess
    exact .touched rfl (touch_deleted hs isOpen hrow hfree) (fun h => by cases h)
  | reenqueued isOpen hdeadline haccess =>
    obtain ⟨hrow, -, hfree⟩ := of_access_granted haccess
    exact .touched rfl (touch_rewritten hs isOpen hrow hfree rfl rfl rfl) (fun h => by cases h)
  | committed isOpen => exact .kept (ended_release hs isOpen) (content_release s _)
  | rolledBack isOpen =>
    exact .takenBack (.inl ⟨rfl, rfl⟩) (ended_undoAll_release hs isOpen)
      (content_undoAll_release s _)
  | abandoned isOpen =>
    exact .takenBack (.inr ⟨rfl, rfl⟩) (ended_undoAll_release hs isOpen)
      (content_undoAll_release s _)

/-- Every change leaves the store well formed. -/
theorem WellFormed.change {s s' : Store} {a : Action} {answer : Answer} (hs : s.WellFormed)
    (h : Change s a answer s') : s'.WellFormed := by
  cases h with
  | idle => exact hs
  | outage on => exact hs.outage on
  | begun => exact hs.opening
  | touched _ h => exact hs.touch h
  | kept h => exact hs.ended h
  | takenBack _ h => exact hs.ended h

/-- Every step leaves the store well formed. -/
theorem WellFormed.step {s s' : Store} {a : Action} {answer : Answer} (hs : s.WellFormed)
    (h : Step s a answer s') : s'.WellFormed :=
  hs.change (step_change hs h)

/-- An empty store is well formed. -/
theorem wellFormed_empty : empty.WellFormed := by
  have htouched : ∀ tx, empty.touched tx = [] := fun _ => rfl
  constructor
  case touched_lt => exact fun hid => by simp [htouched] at hid
  case owned => exact fun hid => by simp [htouched] at hid
  case disjoint => exact fun hid => by simp [htouched] at hid
  case rewinds => exact fun tx id => .nil
  all_goals exact fun h => by cases h

/-- Every run leaves the store well formed. -/
theorem WellFormed.run {s : Store} (hs : s.WellFormed) (actions : List Action) :
    (s.run actions).WellFormed :=
  run_induction (fun hs h => hs.step h) hs actions

/-- Every store that any interleaving of transactions reaches is well-formed. -/
theorem wellFormed_run (actions : List Action) : (empty.run actions).WellFormed :=
  wellFormed_empty.run actions

/-- An action that does not end its transaction touches at most one row. -/
theorem Change.touch_or_same {s s' : Store} {a : Action} {answer : Answer} {tx : TransactionId}
    (h : Change s a answer s') (ha : a.transaction? = some tx)
    (hgoesOn : a ≠ .commit tx ∧ a ≠ .rollback tx ∧ a ≠ .abandon tx) :
    s' = s ∨ ∃ id noted, Touch s tx id noted s' := by
  obtain ⟨hcommit, hrollback, habandon⟩ := hgoesOn
  cases h with
  | idle => exact .inl rfl
  | outage on => cases ha
  | begun => cases ha
  | touched ha' h =>
    rw [ha, Option.some.injEq] at ha'
    exact .inr ⟨_, _, ha' ▸ h⟩
  | kept =>
    cases ha
    exact absurd rfl hcommit
  | takenBack ha' =>
    rcases ha' with ⟨rfl, -⟩ | ⟨rfl, -⟩
    · cases ha
      exact absurd rfl hrollback
    · cases ha
      exact absurd rfl habandon

/-! ## What a transaction keeps while it is open -/

/-- The number of opened transactions only grows. -/
theorem Change.opened_le {s s' : Store} {a : Action} {answer : Answer}
    (h : Change s a answer s') : s.opened ≤ s'.opened := by
  cases h with
  | idle => exact Nat.le_refl _
  | outage on => exact Nat.le_refl _
  | begun => exact Nat.le_succ _
  | touched _ h => exact Nat.le_of_eq h.opened.symm
  | kept h => exact Nat.le_of_eq h.opened.symm
  | takenBack _ h => exact Nat.le_of_eq h.opened.symm

/-- A transaction that has begun and ended is never open again. -/
theorem Change.not_isOpen {s s' : Store} {a : Action} {answer : Answer} {t : TransactionId}
    (h : Change s a answer s') (hbegun : t ≤ s.opened) (hended : ¬ s.isOpen t = true) :
    ¬ s'.isOpen t = true := by
  cases h with
  | idle => exact hended
  | outage on => exact hended
  | begun =>
    rw [isOpen_opening, Bool.or_eq_true, decide_eq_true_eq, not_or]
    exact ⟨Nat.ne_of_lt (Nat.lt_succ_of_le hbegun), hended⟩
  | touched _ h => rwa [h.isOpen_eq]
  | kept h => simp [h.isOpen_eq, hended]
  | takenBack _ h => simp [h.isOpen_eq, hended]

/-- A row that a transaction has touched stays touched while the transaction is open. -/
theorem Change.touched_of_touched {s s' : Store} {a : Action} {answer : Answer}
    {t : TransactionId} {id : TaskId} (hs : s.WellFormed) (h : Change s a answer s')
    (hid : id ∈ s.touched t) (hopen : s'.isOpen t = true) : id ∈ s'.touched t := by
  cases h with
  | idle => exact hid
  | outage on => exact hid
  | begun => exact (hs.touched_opening t).symm ▸ hid
  | touched _ h => exact h.touched_of_touched hid
  | kept h =>
    rw [h.isOpen_eq, Bool.and_eq_true, decide_eq_true_eq] at hopen
    exact h.mem_touched.2 ⟨hopen.1, hid⟩
  | takenBack _ h =>
    rw [h.isOpen_eq, Bool.and_eq_true, decide_eq_true_eq] at hopen
    exact h.mem_touched.2 ⟨hopen.1, hid⟩

/-- The opened transactions are counted and never taken back. -/
theorem opened_le_run {s : Store} (hs : s.WellFormed) (actions : List Action) :
    s.opened ≤ (s.run actions).opened := by
  induction actions generalizing s with
  | nil => exact Nat.le_refl _
  | cons a rest ih =>
    have hstep := perform_step s a
    exact Nat.le_trans (step_change hs hstep).opened_le (ih (hs.step hstep))

/-- A transaction that has begun and ended is not open after any run. -/
theorem not_isOpen_run {s : Store} (hs : s.WellFormed) {tx : TransactionId}
    (hbegun : tx ≤ s.opened) (hended : ¬ s.isOpen tx = true) (actions : List Action) :
    ¬ (s.run actions).isOpen tx = true := by
  induction actions generalizing s with
  | nil => exact hended
  | cons a rest ih =>
    have hstep := perform_step s a
    have hchange := step_change hs hstep
    exact ih (hs.step hstep) (Nat.le_trans hbegun hchange.opened_le)
      (hchange.not_isOpen hbegun hended)

/-- A row stays a transaction's own as long as the transaction is open. -/
theorem touched_run {s : Store} (hs : s.WellFormed) {tx : TransactionId} {id : TaskId}
    (hid : id ∈ s.touched tx) (actions : List Action)
    (hopen : (s.run actions).isOpen tx = true) : id ∈ (s.run actions).touched tx := by
  induction actions generalizing s with
  | nil => exact hid
  | cons a rest ih =>
    have hstep := perform_step s a
    have hchange := step_change hs hstep
    have hs' := hs.step hstep
    have hbegun := Nat.le_trans (hs.open_le (isOpen_of_touched hid)) hchange.opened_le
    refine ih hs' (hchange.touched_of_touched hs hid ?_) hopen
    by_cases hopen' : (s.perform a).1.isOpen tx = true
    · exact hopen'
    · exact absurd hopen (not_isOpen_run hs' hbegun hopen' rest)

/-! ## Reachable stores -/

/-- The stores that any use of a store reaches, with process times set from outside as well. -/
inductive Reachable : Store → Prop
  | empty : Reachable empty
  | action {s : Store} (h : Reachable s) (a : Action) : Reachable (s.perform a).1
  | setProcessTime {s : Store} (h : Reachable s) (id : TaskId) (t : Instant) :
    Reachable (s.setProcessTime id t).1

/-- A row after process times were set: it is where it was, with the same holder. -/
theorem row_of_setProcessTime {s : Store} {id k : TaskId} {t : Instant} {row : Row}
    (h : (s.setProcessTime id t).1.rows.get? k = some row) :
    ∃ before, s.rows.get? k = some before ∧ row.record.id = before.record.id ∧
      row.holder = before.holder := by
  simp only [Store.setProcessTime, OrderedMap.get?_modify] at h
  split at h
  · obtain ⟨before, hbefore, rfl⟩ := Option.map_eq_some_iff.1 h
    exact ⟨before, hbefore, rfl, rfl⟩
  · exact ⟨row, h, rfl, rfl⟩

/-- A direct change of a process time leaves every row at its queue. -/
theorem place_setProcessTime (s : Store) (id k : TaskId) (t : Instant) :
    ((s.setProcessTime id t).1.content k).map Prod.fst = (s.content k).map Prod.fst := by
  simp only [content, Store.setProcessTime, OrderedMap.get?_modify]
  split
  · simp only [Option.map_map]
    rfl
  · rfl

/-- A direct change of a process time leaves the store well formed. -/
theorem WellFormed.setProcessTime {s : Store} (hs : s.WellFormed) (id : TaskId) (t : Instant) :
    (s.setProcessTime id t).1.WellFormed := by
  constructor
  case record_id =>
    intro k row h
    obtain ⟨before, hbefore, hid, -⟩ := row_of_setProcessTime h
    rw [hid]
    exact hs.record_id hbefore
  case row_lt =>
    intro k row h
    obtain ⟨before, hbefore, -⟩ := row_of_setProcessTime h
    exact hs.row_lt hbefore
  case touched_lt => exact hs.touched_lt
  case open_le => exact hs.open_le
  case holder_open =>
    intro k row tx h hholder
    obtain ⟨before, hbefore, -, hsame⟩ := row_of_setProcessTime h
    exact hs.holder_open hbefore (hsame ▸ hholder)
  case owned =>
    intro tx k row hk h
    obtain ⟨before, hbefore, -, hsame⟩ := row_of_setProcessTime h
    rw [hsame]
    exact hs.owned hk hbefore
  case disjoint => exact hs.disjoint
  case rewinds =>
    intro tx k
    rw [place_setProcessTime]
    exact hs.rewinds tx k

/-- A reachable store is well formed. -/
theorem Reachable.wellFormed {s : Store} (h : Reachable s) : s.WellFormed := by
  induction h with
  | empty => exact wellFormed_empty
  | action _ a ih => exact ih.step (perform_step _ a)
  | setProcessTime _ id t ih => exact ih.setProcessTime id t

/-- What is reached from a reachable store is reachable. -/
theorem Reachable.run {s : Store} (h : Reachable s) (actions : List Action) :
    Reachable (s.run actions) := by
  induction actions generalizing s with
  | nil => exact h
  | cons a rest ih => exact ih (h.action a)

end LeaseQueue.Store
