import LeaseQueue.Proofs.CommittedView

/-!
# Operations that fail

An operation that fails leaves every record as it was, with one exception: a pick whose lease would
end beyond the calendar has already counted the attempt, and no journal tells of it.  A run without
such picks is intact: whatever failed in it, taking back a transaction brings every row back to what
it said before the transaction first changed it.

Main statement: the failures of a run leave its data intact exactly if no pick of the run loses an
attempt in this way.
-/

set_option autoImplicit false

namespace LeaseQueue.Store

open Text

/-- A pick takes a row whose lease does not end inside the calendar, and the attempt can still be
counted. -/
def LosesAttempt (s : Store) (a : Action) : Prop :=
  ∃ tx now location lease row e, a = .pick tx now location lease ∧ s.isOpen tx = true ∧
    s.candidate tx now location = some row ∧
    deadline now (lease.delay (nextAttempts row.record.attempts)) = .error e ∧
    row.record.attempts ≠ maxWord32

/-- Whether a call of a transaction changes what is stored under an identifier. -/
def Call.changes (c : Call) (tx : TransactionId) (id : TaskId) : Bool :=
  decide (c.action.transaction? = some tx) && decide (c.after.content id ≠ c.before.content id)

/-- What a row said before a transaction changed it for the first time, if it did. -/
def original (history : List Call) (tx : TransactionId) (id : TaskId) :
    Option (Option (Location × TaskRecord)) :=
  (history.find? fun c => c.changes tx id).map fun c => c.before.content id

/-- The failures of a run leave its data intact. -/
structure FailuresIntact (actions : List Action) : Prop where
  /-- A call of a transaction that fails leaves every record as it was. -/
  kept : ∀ c ∈ empty.calls actions, c.action.transaction?.isSome = true →
    c.answer.failed = true → ∀ id, c.after.content id = c.before.content id
  /-- A rollback brings every row back to what it said before the transaction changed it. -/
  rollback : ∀ tx, (empty.run actions).isOpen tx = true → ∀ id,
    ((empty.run actions).perform (.rollback tx)).1.content id =
      (original (empty.calls actions) tx id).getD ((empty.run actions).content id)
  /-- So does dropping the transaction. -/
  abandon : ∀ tx, (empty.run actions).isOpen tx = true → ∀ id,
    ((empty.run actions).perform (.abandon tx)).1.content id =
      (original (empty.calls actions) tx id).getD ((empty.run actions).content id)

/-! ## What a failure does to the records -/

/-- A count of attempts that is not the largest one changes with a pick. -/
theorem nextAttempts_ne {n : Nat} (h : n ≠ maxWord32) : nextAttempts n ≠ n := by
  unfold nextAttempts
  omega

/-- A lease that leaves the calendar is a failure. -/
theorem failed_of_overflowsLease {answer : Answer} (h : answer.overflowsLease = true) :
    answer.failed = true := by
  unfold Answer.overflowsLease at h
  split at h
  · rfl
  · cases h

/-- A failure that loses no attempt leaves every record as it was. -/
theorem Step.content_of_failed {s s' : Store} {a : Action} {answer : Answer} (hs : s.WellFormed)
    (h : Step s a answer s') (hfailed : answer.failed = true) (hkeeps : ¬ s.LosesAttempt a)
    (id : TaskId) : s'.content id = s.content id := by
  cases h with
  | idle => rfl
  | @counted tx now location lease row e isOpen hcandidate hdeadline =>
    have hmax : row.record.attempts = maxWord32 := by
      by_cases hmax : row.record.attempts = maxWord32
      · exact hmax
      · exact absurd ⟨tx, now, location, lease, row, e, rfl, isOpen, hcandidate, hdeadline, hmax⟩
          hkeeps
    obtain ⟨hrow, -⟩ := hs.of_candidate hcandidate
    have hsame : (Store.counted tx row).content = row.content := by
      have hnext : nextAttempts row.record.attempts = row.record.attempts := by
        rw [hmax]
        rfl
      rw [Row.content, Store.counted, hnext]
      rfl
    unfold content
    rw [OrderedMap.get?_insert]
    split
    · next heq => rw [heq, hrow, Option.map_some, Option.map_some, hsame]
    · rfl
  | _ => cases hfailed

/-- A pick that loses an attempt fails and changes a record. -/
theorem LosesAttempt.perform {s : Store} {a : Action} (hs : s.WellFormed)
    (h : s.LosesAttempt a) :
    a.transaction?.isSome = true ∧ (s.perform a).2.failed = true ∧
      ∃ id, (s.perform a).1.content id ≠ s.content id := by
  obtain ⟨tx, now, location, lease, row, e, rfl, isOpen, hcandidate, hdeadline, hattempts⟩ := h
  obtain ⟨hrow, -⟩ := hs.of_candidate hcandidate
  have hperform : s.perform (.pick tx now location lease) =
      ({ s with rows := s.rows.insert row.record.id (counted tx row) }, .picked (.error e)) := by
    simp only [Store.perform, pick, whenOpen, isOpen, if_true, hcandidate, hdeadline]
    rfl
  rw [hperform]
  refine ⟨rfl, rfl, row.record.id, fun heq => ?_⟩
  simp only [content, OrderedMap.get?_insert, if_pos, hrow, Option.map_some, Option.some.injEq,
    Row.content, counted, Prod.mk.injEq, true_and] at heq
  exact nextAttempts_ne hattempts (congrArg TaskRecord.attempts heq)

/-- The calls of a run are actions on stores that the run reaches. -/
theorem of_mem_calls {s : Store} (hs : s.WellFormed) {actions : List Action} {c : Call}
    (h : c ∈ s.calls actions) :
    c.before.WellFormed ∧ c.before.perform c.action = (c.after, c.answer) := by
  induction actions generalizing s with
  | nil => cases h
  | cons a rest ih =>
    rcases List.mem_cons.1 h with rfl | h
    · exact ⟨hs, rfl⟩
    · exact ih (hs.step (perform_step s a)) h

/-! ## The first change of a row -/

/-- One more call gives the original of a row only if there was none and it changes the row. -/
theorem original_append (history : List Call) (c : Call) (tx : TransactionId) (id : TaskId) :
    original (history ++ [c]) tx id = (original history tx id).or
      (if c.changes tx id = true then some (c.before.content id) else none) := by
  unfold original
  rw [List.find?_append]
  cases history.find? fun c => c.changes tx id with
  | some first => rfl
  | none =>
    rw [List.find?_singleton]
    split <;> rfl

/-- A call that does not change a row leaves its original as it is. -/
theorem original_append_of_not_changes {history : List Call} {c : Call} {tx : TransactionId}
    {id : TaskId} (h : c.changes tx id = false) :
    original (history ++ [c]) tx id = original history tx id := by
  rw [original_append, h, if_neg Bool.false_ne_true, Option.or_none]

/-- A call changes a row for a transaction if it is one of the transaction and the row is another
one then. -/
theorem changes_eq_true {c : Call} {tx : TransactionId} {id : TaskId} :
    c.changes tx id = true ↔
      c.action.transaction? = some tx ∧ c.after.content id ≠ c.before.content id := by
  rw [Call.changes, Bool.and_eq_true, decide_eq_true_eq, decide_eq_true_eq]

/-- What the journals of a run's open transactions lead back to, when its failures have left the
records as they were. -/
structure Intact (history : List Call) (s : Store) : Prop where
  unopened : ∀ {tx id}, s.opened < tx → original history tx id = none
  owned : ∀ {tx id}, s.isOpen tx = true → (original history tx id).isSome = true →
    id ∈ s.touched tx
  restored : ∀ {tx id}, s.isOpen tx = true →
    s.restored tx id = (original history tx id).getD (s.content id)

/-- A call that changes a row is one of an open transaction, which touches the row unless it ends
there. -/
theorem Change.of_changes {s s' : Store} {a : Action} {answer : Answer} {tx : TransactionId}
    {id : TaskId} (h : Change s a answer s') (ha : a.transaction? = some tx)
    (hchanged : s'.content id ≠ s.content id) :
    s.isOpen tx = true ∧ (s'.isOpen tx = true →
      ∃ noted, Touch s tx id noted s' ∧ (noted = none → answer.overflowsLease = true)) := by
  cases h with
  | idle => exact absurd rfl hchanged
  | outage => exact absurd rfl hchanged
  | begun => cases ha
  | @touched _ _ t k noted s' ha' h hnoted =>
    rw [ha', Option.some.injEq] at ha
    subst ha
    refine ⟨h.isOpen, fun _ => ⟨noted, ?_, hnoted⟩⟩
    by_cases hk : id = k
    · rw [hk]
      exact h
    · exact absurd (h.content_of_ne hk) hchanged
  | kept _ hcontent => exact absurd (hcontent id) hchanged
  | @takenBack _ _ t _ ha' h =>
    have heq : t = tx := by
      rcases ha' with ⟨rfl, -⟩ | ⟨rfl, -⟩
      · exact Option.some.inj ha
      · exact Option.some.inj ha
    subst heq
    refine ⟨h.isOpen, fun hopen => ?_⟩
    rw [h.isOpen_eq] at hopen
    simp at hopen

/-- While a transaction is open, its journal leads back to the same, or the row is not its own. -/
theorem Change.restored_or {s s' : Store} {a : Action} {answer : Answer} {tx : TransactionId}
    {id : TaskId} (hs : s.WellFormed) (h : Change s a answer s') (hopen : s'.isOpen tx = true)
    (hkept : answer.failed = true → s'.content id = s.content id) :
    (s'.restored tx id = s.restored tx id ∧
        (a.transaction? = some tx ∨ s'.content id = s.content id)) ∨
      (id ∉ s'.touched tx ∧ a.transaction? ≠ some tx) := by
  have hended : ∀ {t}, Ended s t s' → a.transaction? = some t →
      (s'.restored tx id = s.restored tx id ∧
        (a.transaction? = some tx ∨ s'.content id = s.content id)) ∨
      (id ∉ s'.touched tx ∧ a.transaction? ≠ some tx) := by
    intro t h ha
    rw [h.isOpen_eq, Bool.and_eq_true, decide_eq_true_eq] at hopen
    obtain ⟨hne, -⟩ := hopen
    by_cases hid : id ∈ s.touched tx
    · have hother : id ∉ s.touched t := fun hid' => hne (hs.disjoint hid hid')
      have hcontent := h.content_of_not_touched hother
      refine .inl ⟨?_, .inr hcontent⟩
      unfold restored
      rw [h.entries_of_ne hne, hcontent]
    · refine .inr ⟨fun hid' => hid (h.mem_touched.1 hid').2, ?_⟩
      rw [ha, ne_eq, Option.some.injEq]
      exact hne.symm
  cases h with
  | idle => exact .inl ⟨rfl, .inr rfl⟩
  | outage => exact .inl ⟨rfl, .inr rfl⟩
  | begun =>
    refine .inl ⟨?_, .inr rfl⟩
    unfold restored entries
    rw [hs.journal_opening]
    rfl
  | @touched _ _ t k noted s' ha h hnoted =>
    cases noted with
    | none =>
      have hcontent := hkept (failed_of_overflowsLease (hnoted rfl))
      refine .inl ⟨?_, .inr hcontent⟩
      unfold restored entries
      rw [h.journal, hcontent]
      split <;> rfl
    | some u =>
      by_cases ht : tx = t
      · subst ht
        exact .inl ⟨h.restored_eq hs (.inl rfl), .inl ha⟩
      · by_cases hid : id ∈ s.touched tx
        · have hk : id ≠ k := fun hk => h.not_touched hs ht (hk ▸ hid)
          exact .inl ⟨h.restored_eq hs (.inr hid), .inr (h.content_of_ne hk)⟩
        · refine .inr ⟨fun hid' => ?_, ?_⟩
          · rcases h.mem_touched hid' with hid' | ⟨-, htx⟩
            · exact hid hid'
            · exact ht htx
          · rw [ha, ne_eq, Option.some.injEq]
            exact Ne.symm ht
  | kept h => exact hended h rfl
  | takenBack ha h =>
    rcases ha with ⟨rfl, -⟩ | ⟨rfl, -⟩
    · exact hended h rfl
    · exact hended h rfl

/-! ## Runs whose failures keep the records -/

/-- A transaction that has only just been opened has changed no row. -/
theorem Intact.original_eq_none {history : List Call} {s s' : Store} {a : Action}
    {answer : Answer} {tx : TransactionId} {id : TaskId} (h : Intact history s)
    (hchange : Change s a answer s') (hopen : s'.isOpen tx = true)
    (hclosed : ¬ s.isOpen tx = true) : original history tx id = none := by
  refine h.unopened (Nat.lt_of_not_le fun hle => ?_)
  exact hchange.not_isOpen hle hclosed hopen

/-- A transaction that has changed a row and is still open has touched it. -/
theorem Intact.touched {history : List Call} {s s' : Store} {a : Action} {answer : Answer}
    {tx : TransactionId} {id : TaskId} (hs : s.WellFormed) (h : Intact history s)
    (hchange : Change s a answer s') (hopen : s'.isOpen tx = true)
    (hsome : (original history tx id).isSome = true) : id ∈ s'.touched tx := by
  by_cases hopen' : s.isOpen tx = true
  · exact hchange.touched_of_touched hs (h.owned hopen' hsome) hopen
  · rw [h.original_eq_none hchange hopen hopen'] at hsome
    cases hsome

/-- One more action that keeps the records if it fails. -/
theorem Intact.step {history : List Call} {s s' : Store} {a : Action} {answer : Answer}
    (hs : s.WellFormed) (h : Intact history s) (hchange : Change s a answer s')
    (hkept : answer.failed = true → ∀ id, s'.content id = s.content id) :
    Intact (history ++ [⟨s, a, answer, s'⟩]) s' where
  unopened {tx id} hlt := by
    have hunopened : s.opened < tx := Nat.lt_of_le_of_lt hchange.opened_le hlt
    rw [original_append_of_not_changes, h.unopened hunopened]
    rw [Bool.eq_false_iff, ne_eq, changes_eq_true]
    rintro ⟨ha, hchanged⟩
    have hopen := (hchange.of_changes ha hchanged).1
    exact absurd (hs.open_le hopen) (Nat.not_le_of_lt hunopened)
  owned {tx id} hopen hsome := by
    by_cases hchanges : Call.changes ⟨s, a, answer, s'⟩ tx id = true
    · obtain ⟨ha, hchanged⟩ := changes_eq_true.1 hchanges
      obtain ⟨noted, htouch, hnoted⟩ := (hchange.of_changes ha hchanged).2 hopen
      cases noted with
      | none => exact absurd (hkept (failed_of_overflowsLease (hnoted rfl)) id) hchanged
      | some u =>
        unfold Store.touched
        rw [htouch.journal, if_pos rfl]
        simp [htouch.noted_id rfl]
    · rw [Bool.not_eq_true] at hchanges
      rw [original_append_of_not_changes hchanges] at hsome
      exact h.touched hs hchange hopen hsome
  restored {tx id} hopen := by
    have hbefore : s.restored tx id = (original history tx id).getD (s.content id) := by
      by_cases hopen' : s.isOpen tx = true
      · exact h.restored hopen'
      · rw [h.original_eq_none hchange hopen hopen']
        exact restored_of_not_touched fun hid => hopen' (isOpen_of_touched hid)
    rcases hchange.restored_or hs hopen (fun hfailed => hkept hfailed id) with
      ⟨hsame, hor⟩ | ⟨hid, ha⟩
    · rw [hsame, hbefore, original_append]
      by_cases hchanges : Call.changes ⟨s, a, answer, s'⟩ tx id = true
      · rw [if_pos hchanges]
        cases original history tx id <;> rfl
      · have hcontent : s'.content id = s.content id := by
          rcases hor with ha | hcontent
          · rw [changes_eq_true] at hchanges
            exact Decidable.not_not.1 fun hne => hchanges ⟨ha, hne⟩
          · exact hcontent
        rw [if_neg hchanges, Option.or_none, hcontent]
    · have hchanges : Call.changes ⟨s, a, answer, s'⟩ tx id = false := by
        rw [Bool.eq_false_iff, ne_eq, changes_eq_true]
        exact fun hchanges => ha hchanges.1
      rw [original_append_of_not_changes hchanges, restored_of_not_touched hid]
      cases horiginal : original history tx id with
      | none => rfl
      | some first =>
        exact absurd (h.touched hs hchange hopen (by rw [horiginal, Option.isSome_some])) hid

/-- Histories stay intact over a run whose failed calls change nothing. -/
theorem Intact.run {history : List Call} {s : Store} (hs : s.WellFormed) (h : Intact history s)
    {actions : List Action} (hkept : ∀ c ∈ s.calls actions, c.answer.failed = true →
      ∀ id, c.after.content id = c.before.content id) :
    Intact (history ++ s.calls actions) (s.run actions) := by
  induction actions generalizing s history with
  | nil => rwa [calls, List.append_nil]
  | cons a rest ih =>
    have hstep := perform_step s a
    have hfirst := hkept _ List.mem_cons_self
    have hrest := ih (hs.step hstep) (h.step hs (step_change hs hstep) hfirst)
      fun c hc => hkept c (List.mem_cons_of_mem _ hc)
    rwa [List.append_assoc] at hrest

/-- The history of an empty store is intact. -/
theorem intact_empty : Intact [] empty where
  unopened _ := rfl
  owned h := by cases h
  restored h := by cases h

/-- The failures of a run leave its data intact exactly if no pick of the run loses an attempt. -/
theorem failuresIntact_iff (actions : List Action) :
    FailuresIntact actions ↔ ∀ c ∈ empty.calls actions, ¬ c.before.LosesAttempt c.action := by
  constructor
  · intro h c hc hloses
    obtain ⟨hbefore, hperform⟩ := of_mem_calls wellFormed_empty hc
    obtain ⟨htx, hfailed, id, hchanged⟩ := hloses.perform hbefore
    rw [hperform] at hfailed hchanged
    exact hchanged (h.kept c hc htx hfailed id)
  · intro h
    have hkept : ∀ c ∈ empty.calls actions, c.answer.failed = true →
        ∀ id, c.after.content id = c.before.content id := by
      intro c hc hfailed id
      obtain ⟨hbefore, hperform⟩ := of_mem_calls wellFormed_empty hc
      exact (step_of_perform hperform).content_of_failed hbefore hfailed (h c hc) id
    have hintact := intact_empty.run wellFormed_empty hkept
    rw [List.nil_append] at hintact
    refine ⟨fun c hc _ => hkept c hc, fun tx hopen id => ?_, fun tx hopen id => ?_⟩
    · rw [content_rollback hopen, hintact.restored hopen]
    · rw [content_abandon hopen, hintact.restored hopen]

/-- Five seconds before the end of the calendar. -/
def late : Instant := ⟨8210266876794999999999, by decide, by decide⟩

/-- A pick for six seconds, which would end beyond the calendar: it fails, but the attempt is
counted, and the rollback of its transaction does not take that back. -/
theorem attempt_lost_at_calendar_end :
    ((empty.run (stock late ++ [.begin])).perform
      (.pick 2 late someQueue (.fixed (.ofSeconds 6)))).2 =
        .picked (.error (.delayOutOfRange (.ofSeconds 6))) ∧
    ¬ FailuresIntact (stock late ++ [.begin, .pick 2 late someQueue (.fixed (.ofSeconds 6))]) := by
  refine ⟨rfl, fun h => ?_⟩
  have hrollback := h.rollback 2 rfl 1
  exact absurd hrollback (by decide)

end LeaseQueue.Store
