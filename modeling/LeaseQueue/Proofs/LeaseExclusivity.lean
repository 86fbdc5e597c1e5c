import LeaseQueue.Proofs.CommittedView

/-!
# A lease belongs to one pick

A pick hides its row until the end of its lease.  While the transaction of the pick is open, the row
is gone or held by it; once it has committed, every version of the row, also those that the journals
of later transactions lead back to, is hidden at least as long.  Only a reenqueueing of the row and
the rollback of the transaction end a lease before its time.

Main statement: of two picks of one row the later one comes after the lease of the earlier one,
unless the earlier one was taken back or the row was rescheduled meanwhile.
-/

set_option autoImplicit false

namespace LeaseQueue

/-- The record that an entry of a journal leads back to. -/
def Undo.before? : Undo → Option TaskRecord
  | .inserted _ => none
  | .updated before => some before
  | .deleted _ before => some before

namespace Store

/-- A lease that can still be taken back: its transaction is open, and its row is hidden until the
end of the lease, if it is there. -/
structure LeasePending (s : Store) (tx : TransactionId) (id : TaskId) (t : Instant) : Prop where
  isOpen : s.isOpen tx = true
  touched : id ∈ s.touched tx
  hidden : ∀ {c}, s.content id = some c → t.nanos ≤ c.2.processTime.nanos

/-- A lease that nothing can take back: every version of its row is hidden until its end. -/
structure LeaseKept (s : Store) (id : TaskId) (t : Instant) : Prop where
  id_lt : id < s.nextId
  hidden : ∀ {c}, s.content id = some c → t.nanos ≤ c.2.processTime.nanos
  hiddenBefore : ∀ {tx u before}, u ∈ s.entries tx id → u.before? = some before →
    t.nanos ≤ before.processTime.nanos

/-! ## What one action does to the time of a row -/

/-- The version that a journal leads back to is the present one or one that an entry holds. -/
theorem version_of_restored {s : Store} {tx : TransactionId} {id : TaskId}
    {c : Location × TaskRecord} (h : s.restored tx id = some c) :
    (∃ c', s.content id = some c' ∧ c'.2 = c.2) ∨ ∃ u ∈ s.entries tx id, u.before? = some c.2 := by
  unfold restored at h
  generalize s.entries tx id = entries at h ⊢
  generalize s.content id = content at h ⊢
  induction entries generalizing content with
  | nil => exact .inl ⟨c, h, rfl⟩
  | cons u rest ih =>
    rcases ih _ h with ⟨c', hc', hrecord⟩ | ⟨v, hv, hbefore⟩
    · cases u with
      | inserted => cases hc'
      | updated before =>
        simp only [Undo.revert, Option.map_eq_some_iff] at hc'
        obtain ⟨c₀, -, rfl⟩ := hc'
        exact .inr ⟨_, List.mem_cons_self, congrArg some hrecord⟩
      | deleted location before =>
        cases hc'
        exact .inr ⟨_, List.mem_cons_self, congrArg some hrecord⟩
    · exact .inr ⟨v, List.mem_cons_of_mem _ hv, hbefore⟩

/-- A row comes out of an action no earlier than it went in, unless the action reschedules it or
takes it back to an earlier version. -/
theorem Step.processTime_le {s s' : Store} {a : Action} {answer : Answer} (hs : s.WellFormed)
    (h : Step s a answer s') {id : TaskId} (hid : id < s.nextId)
    (hkeep : ¬ Reschedules id a answer) {c : Location × TaskRecord} (hc : s'.content id = some c) :
    (∃ c₀, s.content id = some c₀ ∧ c₀.2.processTime.nanos ≤ c.2.processTime.nanos) ∨
      ∃ tx, TakesBack tx a answer ∧ ∃ u ∈ s.entries tx id, u.before? = some c.2 := by
  have same : s.content id = some c →
      ∃ c₀, s.content id = some c₀ ∧ c₀.2.processTime.nanos ≤ c.2.processTime.nanos :=
    fun hc => ⟨c, hc, Int.le_refl _⟩
  have takenBack : ∀ tx, TakesBack tx a answer → s.restored tx id = some c →
      (∃ c₀, s.content id = some c₀ ∧ c₀.2.processTime.nanos ≤ c.2.processTime.nanos) ∨
        ∃ tx, TakesBack tx a answer ∧ ∃ u ∈ s.entries tx id, u.before? = some c.2 := by
    intro tx ha hrestored
    rcases version_of_restored hrestored with ⟨c₀, hc₀, hrecord⟩ | hentry
    · exact .inl ⟨c₀, hc₀, Int.le_of_eq (by rw [hrecord])⟩
    · exact .inr ⟨tx, ha, hentry⟩
  cases h with
  | idle => exact .inl (same hc)
  | outage => exact .inl (same hc)
  | begun => exact .inl (same hc)
  | enqueued =>
    rw [content_note, content_insert, if_neg (Int.ne_of_lt hid)] at hc
    exact .inl (same hc)
  | picked _ hcandidate hdeadline =>
    obtain ⟨hrow, -, -, htime⟩ := hs.of_candidate hcandidate
    rw [content_note, content_insert] at hc
    split at hc
    · next heq =>
      subst heq
      cases hc
      refine .inl ⟨_, congrArg (Option.map Row.content) hrow, ?_⟩
      have := le_of_deadline hdeadline
      simp only [Row.content, leased]
      omega
    · exact .inl (same hc)
  | counted _ hcandidate =>
    obtain ⟨hrow, -⟩ := hs.of_candidate hcandidate
    rw [content_insert] at hc
    split at hc
    · next heq =>
      subst heq
      cases hc
      exact .inl ⟨_, congrArg (Option.map Row.content) hrow, Int.le_refl _⟩
    · exact .inl (same hc)
  | deleted =>
    rw [content_note, content, OrderedMap.get?_erase] at hc
    split at hc
    · cases hc
    · exact .inl (same hc)
  | @reenqueued tx asOf processTime location k delay fresh row =>
    rw [content_note, content_insert] at hc
    split at hc
    · next heq => exact absurd ⟨tx, asOf, location, delay, fresh, by rw [heq], rfl⟩ hkeep
    · exact .inl (same hc)
  | committed =>
    rw [content_release] at hc
    exact .inl (same hc)
  | @rolledBack tx =>
    rw [content_undoAll_release] at hc
    exact takenBack tx (.inl ⟨rfl, rfl⟩) hc
  | @abandoned tx =>
    rw [content_undoAll_release] at hc
    exact takenBack tx (.inr ⟨rfl, rfl⟩) hc

/-- A new entry of a journal holds what its row said before the action. -/
theorem Change.mem_entries {s s' : Store} {a : Action} {answer : Answer} (hs : s.WellFormed)
    (h : Change s a answer s') {t : TransactionId} {id : TaskId} {u : Undo}
    (hu : u ∈ s'.entries t id) :
    u ∈ s.entries t id ∨
      ∀ before, u.before? = some before → ∃ c, s.content id = some c ∧ c.2 = before := by
  cases h with
  | idle => exact .inl hu
  | outage => exact .inl hu
  | begun =>
    unfold entries at hu ⊢
    rw [hs.journal_opening] at hu
    exact .inl hu
  | @touched _ _ tx k noted s' _ h =>
    by_cases hne : t ≠ tx ∨ id ≠ k
    · rw [h.entries_of_ne hne] at hu
      exact .inl hu
    · simp only [not_or, Decidable.not_not] at hne
      obtain ⟨rfl, rfl⟩ := hne
      rw [h.entries_self, List.mem_append] at hu
      refine hu.symm.imp_right fun hu before hbefore => ?_
      have hexplains := h.explains (Option.mem_toList.1 hu)
      generalize s.content id = content at hexplains ⊢
      generalize s'.content id = content' at hexplains
      cases hexplains with
      | inserted => cases hbefore
      | updated =>
        cases hbefore
        exact ⟨_, rfl, rfl⟩
      | deleted =>
        cases hbefore
        exact ⟨_, rfl, rfl⟩
  | kept h => exact .inl (h.mem_entries hu).2
  | takenBack _ h => exact .inl (h.mem_entries hu).2

/-- No change takes a number of a task back. -/
theorem Change.nextId_le {s s' : Store} {a : Action} {answer : Answer}
    (h : Change s a answer s') : s.nextId ≤ s'.nextId := by
  cases h with
  | idle => exact Int.le_refl _
  | outage => exact Int.le_refl _
  | begun => exact Int.le_refl _
  | touched _ h => exact h.nextId_le
  | kept h => exact Int.le_of_eq h.nextId.symm
  | takenBack _ h => exact Int.le_of_eq h.nextId.symm

/-- An open transaction stays open unless it is committed or taken back. -/
theorem Change.isOpen_or {s s' : Store} {a : Action} {answer : Answer} {tx : TransactionId}
    (h : Change s a answer s') (hopen : s.isOpen tx = true) :
    s'.isOpen tx = true ∨ TakesBack tx a answer ∨
      (Commits tx a answer ∧ Ended s tx s' ∧ ∀ id, s'.content id = s.content id) := by
  cases h with
  | idle => exact .inl hopen
  | outage => exact .inl hopen
  | begun =>
    refine .inl ?_
    rw [isOpen_opening, hopen, Bool.or_true]
  | touched _ h =>
    refine .inl ?_
    rw [h.isOpen_eq, hopen]
  | @kept t _ h hcontent =>
    by_cases ht : tx = t
    · subst ht
      exact .inr (.inr ⟨⟨rfl, rfl⟩, h, hcontent⟩)
    · refine .inl ?_
      rw [h.isOpen_eq, hopen]
      simpa using ht
  | @takenBack _ _ t _ ha h =>
    by_cases ht : tx = t
    · subst ht
      exact .inr (.inl ha)
    · refine .inl ?_
      rw [h.isOpen_eq, hopen]
      simpa using ht

/-! ## What becomes of a lease -/

/-- A committed lease stays until the row is rescheduled. -/
theorem LeaseKept.step {s s' : Store} {a : Action} {answer : Answer} (hs : s.WellFormed)
    {id : TaskId} {t : Instant} (h : LeaseKept s id t) (hstep : Step s a answer s') :
    Reschedules id a answer ∨ LeaseKept s' id t := by
  by_cases hkeep : Reschedules id a answer
  · exact .inl hkeep
  · have hchange := step_change hs hstep
    refine .inr ⟨Int.lt_of_lt_of_le h.id_lt hchange.nextId_le, ?_, ?_⟩
    · intro c hc
      rcases hstep.processTime_le hs h.id_lt hkeep hc with ⟨c₀, hc₀, hle⟩ | ⟨tx, -, u, hu, hbefore⟩
      · exact Int.le_trans (h.hidden hc₀) hle
      · exact h.hiddenBefore hu hbefore
    · intro tx u before hu hbefore
      rcases hchange.mem_entries hs hu with hu | hnew
      · exact h.hiddenBefore hu hbefore
      · obtain ⟨c, hc, rfl⟩ := hnew before hbefore
        exact h.hidden hc

/-- A lease that can be taken back stays until it is, until the row is rescheduled, or until it is
committed. -/
theorem LeasePending.step {s s' : Store} {a : Action} {answer : Answer} (hs : s.WellFormed)
    {tx : TransactionId} {id : TaskId} {t : Instant} (h : LeasePending s tx id t)
    (hstep : Step s a answer s') :
    TakesBack tx a answer ∨ Reschedules id a answer ∨ LeasePending s' tx id t ∨
      (Commits tx a answer ∧ LeaseKept s' id t) := by
  have hchange := step_change hs hstep
  rcases hchange.isOpen_or h.isOpen with hopen | htakesBack | ⟨hcommits, hended, hcontent⟩
  · by_cases hkeep : Reschedules id a answer
    · exact .inr (.inl hkeep)
    · by_cases htakesBack : TakesBack tx a answer
      · exact .inl htakesBack
      · refine .inr (.inr (.inl ⟨hopen, hchange.touched_of_touched hs h.touched hopen, ?_⟩))
        intro c hc
        rcases hstep.processTime_le hs (hs.touched_lt h.touched) hkeep hc with
          ⟨c₀, hc₀, hle⟩ | ⟨tx', htakesBack', u, hu, -⟩
        · exact Int.le_trans (h.hidden hc₀) hle
        · -- only the owner of the row has entries for it
          have heq : tx' = tx := hs.disjoint (touched_of_mem_entries hu) h.touched
          exact absurd (heq ▸ htakesBack') htakesBack
  · exact .inl htakesBack
  · refine .inr (.inr (.inr ⟨hcommits, ?_, ?_, ?_⟩))
    · rw [hended.nextId]
      exact hs.touched_lt h.touched
    · intro c hc
      rw [hcontent] at hc
      exact h.hidden hc
    · intro t' u before hu
      obtain ⟨hne, ht'⟩ := hended.mem_touched.1 (touched_of_mem_entries hu)
      exact absurd (hs.disjoint ht' h.touched) hne

/-- A lease is kept over a run in which nobody reschedules its task. -/
theorem LeaseKept.run {s : Store} (hs : s.WellFormed) {id : TaskId} {t : Instant}
    (h : LeaseKept s id t) (actions : List Action) :
    (∃ c ∈ s.calls actions, Reschedules id c.action c.answer) ∨
      LeaseKept (s.run actions) id t := by
  induction actions generalizing s with
  | nil => exact .inr h
  | cons a rest ih =>
    have hstep := perform_step s a
    rcases h.step hs hstep with hre | h
    · exact .inl ⟨_, List.mem_cons_self, hre⟩
    · rcases ih (hs.step hstep) h with ⟨c, hc, hre⟩ | h
      · exact .inl ⟨c, List.mem_cons_of_mem _ hc, hre⟩
      · exact .inr h

/-- Over a run a lease that is pending is taken back, or its task is rescheduled, or it is pending
still, or it is committed and kept from then on. -/
theorem LeasePending.run {s : Store} (hs : s.WellFormed) {tx : TransactionId} {id : TaskId}
    {t : Instant} (h : LeasePending s tx id t) (actions : List Action) :
    (∃ c ∈ s.calls actions, TakesBack tx c.action c.answer) ∨
      (∃ c ∈ s.calls actions, Reschedules id c.action c.answer) ∨
      LeasePending (s.run actions) tx id t ∨
      ((∃ c ∈ s.calls actions, Commits tx c.action c.answer) ∧
        LeaseKept (s.run actions) id t) := by
  induction actions generalizing s with
  | nil => exact .inr (.inr (.inl h))
  | cons a rest ih =>
    have hstep := perform_step s a
    have hs' := hs.step hstep
    rcases h.step hs hstep with hback | hre | h | ⟨hcommits, h⟩
    · exact .inl ⟨_, List.mem_cons_self, hback⟩
    · exact .inr (.inl ⟨_, List.mem_cons_self, hre⟩)
    · rcases ih hs' h with ⟨c, hc, hback⟩ | ⟨c, hc, hre⟩ | h | ⟨⟨c, hc, hcommits⟩, h⟩
      · exact .inl ⟨c, List.mem_cons_of_mem _ hc, hback⟩
      · exact .inr (.inl ⟨c, List.mem_cons_of_mem _ hc, hre⟩)
      · exact .inr (.inr (.inl h))
      · exact .inr (.inr (.inr ⟨⟨c, List.mem_cons_of_mem _ hc, hcommits⟩, h⟩))
    · rcases h.run hs' rest with ⟨c, hc, hre⟩ | h
      · exact .inr (.inl ⟨c, List.mem_cons_of_mem _ hc, hre⟩)
      · exact .inr (.inr (.inr ⟨⟨_, List.mem_cons_self, hcommits⟩, h⟩))

/-! ## Two picks of one row -/

/-- What a pick that returned a record did. -/
theorem of_picked {s s' : Store} {tx : TransactionId} {now : Instant} {location : Location}
    {lease : LeaseSchedule} {r : TaskRecord}
    (h : s.perform (.pick tx now location lease) = (s', .picked (.ok (some r)))) :
    ∃ row processTime, s.isOpen tx = true ∧ s.candidate tx now location = some row ∧
      deadline now (lease.delay (nextAttempts row.record.attempts)) = .ok processTime ∧
      r = (leased tx processTime row).record ∧
      s' = note { s with rows := s.rows.insert row.record.id (leased tx processTime row) }
        tx (.updated row.record) := by
  have hstep := step_of_perform h
  clear h
  cases hstep with
  | idle h => cases h
  | picked isOpen hcandidate hdeadline =>
    exact ⟨_, _, isOpen, hcandidate, hdeadline, rfl, rfl⟩

/-- A pick leaves its lease behind, until the time that it returned. -/
theorem leasePending_of_picked {s s' : Store} (hs : s.WellFormed) {tx : TransactionId}
    {now : Instant} {location : Location} {lease : LeaseSchedule} {r : TaskRecord}
    (h : s.perform (.pick tx now location lease) = (s', .picked (.ok (some r)))) :
    LeasePending s' tx r.id r.processTime := by
  obtain ⟨row, processTime, isOpen, hcandidate, -, rfl, rfl⟩ := of_picked h
  obtain ⟨hrow, -, hfree, -⟩ := hs.of_candidate hcandidate
  have htouch : Touch s tx row.record.id (some (.updated row.record))
      (note { s with rows := s.rows.insert row.record.id (leased tx processTime row) }
        tx (.updated row.record)) :=
    touch_rewritten hs isOpen hrow hfree rfl rfl rfl
  refine ⟨?_, ?_, ?_⟩
  · rw [htouch.isOpen_eq, isOpen]
  · unfold touched
    rw [htouch.journal, if_pos rfl]
    exact List.mem_cons_self
  · intro c hc
    have hid : (leased tx processTime row).record.id = row.record.id := rfl
    rw [content_note, content_insert, hid, if_pos rfl, Option.some.injEq] at hc
    subst hc
    exact Int.le_refl _

/-- Two picks that return one row.  The first one was taken back, or the row was rescheduled, or the
second one comes after the lease of the first and in its transaction or after its commit; and the
two are never both held by open transactions that differ. -/
theorem lease_exclusive (earlier between : List Action) {tx₁ tx₂ : TransactionId}
    {now₁ now₂ : Instant} {location₁ location₂ : Location} {lease₁ lease₂ : LeaseSchedule}
    {r₁ r₂ : TaskRecord} {s₁ s₂ : Store}
    (h₁ : (empty.run earlier).perform (.pick tx₁ now₁ location₁ lease₁) =
      (s₁, .picked (.ok (some r₁))))
    (h₂ : (s₁.run between).perform (.pick tx₂ now₂ location₂ lease₂) =
      (s₂, .picked (.ok (some r₂))))
    (hid : r₂.id = r₁.id) :
    ((∃ c ∈ s₁.calls between, TakesBack tx₁ c.action c.answer) ∨
      (∃ c ∈ s₁.calls between, Reschedules r₁.id c.action c.answer) ∨
      (r₁.processTime.nanos = now₁.nanos + (lease₁.delay r₁.attempts).nanos ∧
        r₁.processTime.nanos ≤ now₂.nanos ∧
        (tx₂ = tx₁ ∨ ∃ c ∈ s₁.calls between, Commits tx₁ c.action c.answer))) ∧
    ∀ later : List Action, (s₂.run later).isOpen tx₁ = true → (s₂.run later).isOpen tx₂ = true →
      tx₂ = tx₁ := by
  have hs := wellFormed_run earlier
  have hs₁ : s₁.WellFormed := hs.step (step_of_perform h₁)
  have hs₂ := hs₁.run between
  have hpending := leasePending_of_picked hs h₁
  have htime : r₁.processTime.nanos = now₁.nanos + (lease₁.delay r₁.attempts).nanos := by
    obtain ⟨row, processTime, -, -, hdeadline, rfl, -⟩ := of_picked h₁
    exact le_of_deadline hdeadline
  obtain ⟨row, processTime, -, hcandidate, -, rfl, hs₂'⟩ := of_picked h₂
  obtain ⟨hrow, -, hfree, hdue⟩ := hs₂.of_candidate hcandidate
  have hrowid : row.record.id = r₁.id := hid
  rw [hrowid] at hrow
  have hcontent : (s₁.run between).content r₁.id = some row.content :=
    congrArg (Option.map Row.content) hrow
  -- the owner of a row that is there holds it
  have howner : r₁.id ∈ (s₁.run between).touched tx₁ → tx₂ = tx₁ := by
    intro htouched
    rw [hs₂.owned htouched hrow] at hfree
    have heq : tx₁ = tx₂ := by simpa using hfree
    exact heq.symm
  constructor
  · rcases hpending.run hs₁ between with hback | hre | h | ⟨hcommits, h⟩
    · exact .inl hback
    · exact .inr (.inl hre)
    · have hle : r₁.processTime.nanos ≤ row.record.processTime.nanos := h.hidden hcontent
      exact .inr (.inr ⟨htime, Int.le_trans hle hdue, .inl (howner h.touched)⟩)
    · have hle : r₁.processTime.nanos ≤ row.record.processTime.nanos := h.hidden hcontent
      exact .inr (.inr ⟨htime, Int.le_trans hle hdue, .inr hcommits⟩)
  · intro later hopen _
    have hrun : s₂.run later =
        s₁.run (between ++ .pick tx₂ now₂ location₂ lease₂ :: later) := by
      rw [run_append, run, h₂]
    rw [hrun, run_append] at hopen
    refine howner (touched_run hs₁ hpending.touched between ?_)
    by_cases hopen' : (s₁.run between).isOpen tx₁ = true
    · exact hopen'
    · have hbegun : tx₁ ≤ (s₁.run between).opened :=
        Nat.le_trans (hs₁.open_le hpending.isOpen) (opened_le_run hs₁ between)
      exact absurd hopen (not_isOpen_run hs₂ hbegun hopen' _)

/-- A minute after the start of 1970. -/
def minute : Instant := ⟨60000000000, by decide, by decide⟩

/-- A pick of the only task, for a minute. -/
def firstPick : Store × Answer :=
  (empty.run (stock .epoch ++ [.begin])).perform
    (.pick 2 .epoch someQueue (.fixed (.ofSeconds 60)))

/-- The pick of the task in the next transaction, once the minute is over. -/
def secondPick : Store × Answer :=
  (firstPick.1.run [.commit 2, .begin]).perform
    (.pick 3 minute someQueue (.fixed (.ofSeconds 60)))

/-- What `lease_exclusive` says of a pick that is committed and of the next pick of the same row. -/
theorem lease_exclusive_of_committed_pick :
    ((∃ c ∈ firstPick.1.calls [.commit 2, .begin], TakesBack 2 c.action c.answer) ∨
      (∃ c ∈ firstPick.1.calls [.commit 2, .begin], Reschedules 1 c.action c.answer) ∨
      (minute.nanos = Instant.epoch.nanos + ((LeaseSchedule.fixed (.ofSeconds 60)).delay 1).nanos ∧
        minute.nanos ≤ minute.nanos ∧
        (3 = 2 ∨ ∃ c ∈ firstPick.1.calls [.commit 2, .begin], Commits 2 c.action c.answer))) ∧
    ∀ later : List Action, (secondPick.1.run later).isOpen 2 = true →
      (secondPick.1.run later).isOpen 3 = true → 3 = 2 := by
  have h₁ : (empty.run (stock .epoch ++ [.begin])).perform
      (.pick 2 .epoch someQueue (.fixed (.ofSeconds 60))) =
        (firstPick.1, .picked (.ok (some ⟨1, none, 1, .epoch, minute, none, none⟩))) := rfl
  have h₂ : (firstPick.1.run [.commit 2, .begin]).perform
      (.pick 3 minute someQueue (.fixed (.ofSeconds 60))) =
        (secondPick.1, .picked (.ok (some ⟨1, none, 2, .epoch,
          ⟨120000000000, by decide, by decide⟩, none, none⟩))) := rfl
  exact lease_exclusive _ _ h₁ h₂ rfl

end Store

end LeaseQueue
