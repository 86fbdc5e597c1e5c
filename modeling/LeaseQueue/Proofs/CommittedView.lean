import LeaseQueue.Proofs.StoreChanges

/-!
# What is committed

The committed view of a store is what its rows would say if every open transaction were taken back.
Because the open transactions own different rows, it does not matter in which order they are taken
back: a row says what its owner's journal leads back to, and what it says now if it has no owner.

Main statement: the committed view changes at a commit only, and there on the rows of the
transaction that commits.  A transaction that is taken back, at any point, leaves every row of its
own as the committed view had it.
-/

set_option autoImplicit false

namespace LeaseQueue.Store

/-- The rows with the changes of some transactions taken back, one transaction after the other. -/
def takenBack (s : Store) (txs : List TransactionId) : OrderedMap TaskId Row :=
  txs.foldl (fun rows tx => (s.journal tx).foldl undo rows) s.rows

/-- What a row says once the changes of some transactions are taken back. -/
def viewWithout (s : Store) (txs : List TransactionId) (id : TaskId) :
    Option (Location × TaskRecord) :=
  ((s.takenBack txs).get? id).map Row.content

/-- What a row says once all open transactions are taken back. -/
def committed (s : Store) (id : TaskId) : Option (Location × TaskRecord) :=
  s.viewWithout s.journals.keys id

/-! ## A row and its owner -/

/-- The view without some transactions takes their entries back, one transaction after the other. -/
theorem viewWithout_eq_foldl (s : Store) (txs : List TransactionId) (id : TaskId) :
    s.viewWithout txs id =
      txs.foldl (fun content tx => (s.entries tx id).foldl (fun c u => u.revert c) content)
        (s.content id) := by
  unfold viewWithout takenBack content
  generalize s.rows = rows
  induction txs generalizing rows with
  | nil => rfl
  | cons tx rest ih =>
    rw [List.foldl_cons, List.foldl_cons, ih, content_foldl_undo]
    rfl

/-- The view without transactions that have not touched a row has the row as it is. -/
theorem viewWithout_of_not_touched {s : Store} {txs : List TransactionId} {id : TaskId}
    (h : ∀ tx ∈ txs, id ∉ s.touched tx) : s.viewWithout txs id = s.content id := by
  rw [viewWithout_eq_foldl]
  induction txs with
  | nil => rfl
  | cons tx rest ih =>
    rw [List.foldl_cons, entries_eq_nil (h tx List.mem_cons_self), List.foldl_nil]
    exact ih fun t ht => h t (List.mem_cons_of_mem _ ht)

/-- Of the transactions that are taken back only the owner of a row counts, and it only once. -/
theorem WellFormed.viewWithout_of_touched {s : Store} (hs : s.WellFormed)
    {txs : List TransactionId} (hnodup : txs.Nodup) {tx : TransactionId} {id : TaskId}
    (hid : id ∈ s.touched tx) :
    s.viewWithout txs id = if tx ∈ txs then s.restored tx id else s.content id := by
  rw [viewWithout_eq_foldl]
  unfold restored
  generalize s.content id = content
  induction txs generalizing content with
  | nil => rfl
  | cons t rest ih =>
    obtain ⟨hnot, hrest⟩ := List.nodup_cons.1 hnodup
    rw [List.foldl_cons, ih hrest]
    by_cases ht : t = tx
    · subst ht
      rw [if_neg hnot, if_pos List.mem_cons_self]
    · have hother : id ∉ s.touched t := fun h => ht (hs.disjoint h hid)
      rw [entries_eq_nil hother, List.foldl_nil]
      simp [Ne.symm ht]

/-- What is committed of a row that a transaction has touched is what that transaction would
restore. -/
theorem WellFormed.committed_of_touched {s : Store} (hs : s.WellFormed) {tx : TransactionId}
    {id : TaskId} (hid : id ∈ s.touched tx) : s.committed id = s.restored tx id := by
  unfold committed
  rw [hs.viewWithout_of_touched (OrderedMap.nodup_keys _) hid,
    if_pos (OrderedMap.mem_keys.2 (isOpen_of_touched hid))]

/-- What is committed of a row that no transaction has touched is the row itself. -/
theorem committed_of_not_touched {s : Store} {id : TaskId} (h : ∀ tx, id ∉ s.touched tx) :
    s.committed id = s.content id :=
  viewWithout_of_not_touched fun tx _ => h tx

/-- The order in which transactions are taken back does not matter. -/
theorem WellFormed.viewWithout_perm {s : Store} (hs : s.WellFormed)
    {txs txs' : List TransactionId} (hnodup : txs.Nodup) (hperm : txs'.Perm txs) (id : TaskId) :
    s.viewWithout txs' id = s.viewWithout txs id := by
  by_cases h : ∃ tx, id ∈ s.touched tx
  · obtain ⟨tx, hid⟩ := h
    rw [hs.viewWithout_of_touched hnodup hid,
      hs.viewWithout_of_touched (hperm.nodup_iff.2 hnodup) hid]
    simp [hperm.mem_iff]
  · have hnone : ∀ tx, id ∉ s.touched tx := fun tx hid => h ⟨tx, hid⟩
    rw [viewWithout_of_not_touched fun tx _ => hnone tx,
      viewWithout_of_not_touched fun tx _ => hnone tx]

/-! ## What the actions do to the committed view -/

/-- A noted change leads back to what its row said before, and changes of other rows to the same as
before. -/
theorem Touch.restored_eq {s s' : Store} {tx t : TransactionId} {id k : TaskId} {u : Undo}
    (hs : s.WellFormed) (h : Touch s tx id (some u) s') (hk : t = tx ∨ k ∈ s.touched t) :
    s'.restored t k = s.restored t k := by
  unfold restored
  by_cases hne : t ≠ tx ∨ k ≠ id
  · have hother : k ≠ id := by
      rintro rfl
      have ht : t ≠ tx := hne.resolve_right fun hk => hk rfl
      exact h.not_touched hs ht (hk.resolve_left ht)
    rw [h.entries_of_ne hne, h.content_of_ne hother]
  · simp only [not_or, Decidable.not_not] at hne
    obtain ⟨rfl, rfl⟩ := hne
    rw [h.entries_self, Option.toList_some, List.cons_append, List.nil_append, List.foldl_cons,
      (h.explains rfl).revert]

/-- A change inside a transaction leaves what is committed as it is. -/
theorem Touch.committed_eq {s s' : Store} {tx : TransactionId} {id : TaskId} {u : Undo}
    (hs : s.WellFormed) (h : Touch s tx id (some u) s') (k : TaskId) :
    s'.committed k = s.committed k := by
  have hs' := hs.touch h
  by_cases howned : ∃ t, k ∈ s.touched t
  · obtain ⟨t, hk⟩ := howned
    rw [hs'.committed_of_touched (h.touched_of_touched hk), hs.committed_of_touched hk,
      h.restored_eq hs (.inr hk)]
  · have hnone : ∀ t, k ∉ s.touched t := fun t hk => howned ⟨t, hk⟩
    rw [committed_of_not_touched hnone]
    by_cases hk : k = id
    · subst hk
      have htouched : k ∈ s'.touched tx := by
        unfold touched
        rw [h.journal, if_pos rfl]
        simp [h.noted_id rfl]
      rw [hs'.committed_of_touched htouched, h.restored_eq hs (.inl rfl),
        restored_of_not_touched (hnone tx)]
    · rw [committed_of_not_touched, h.content_of_ne hk]
      intro t ht
      rcases h.mem_touched ht with ht | ⟨hid, -⟩
      · exact hnone t ht
      · exact hk hid

/-- When a transaction ends, its rows are committed as they are and all others as they were. -/
theorem Ended.committed_eq {s s' : Store} {tx : TransactionId} (hs : s.WellFormed)
    (h : Ended s tx s') (id : TaskId) :
    s'.committed id = if id ∈ s.touched tx then s'.content id else s.committed id := by
  split
  · next hid =>
    refine committed_of_not_touched fun t ht => ?_
    obtain ⟨hne, ht⟩ := h.mem_touched.1 ht
    exact hne (hs.disjoint ht hid)
  · next hid =>
    by_cases howned : ∃ t, id ∈ s.touched t
    · obtain ⟨t, ht⟩ := howned
      have hne : t ≠ tx := fun heq => hid (heq ▸ ht)
      rw [(hs.ended h).committed_of_touched (h.mem_touched.2 ⟨hne, ht⟩),
        hs.committed_of_touched ht]
      unfold restored
      rw [h.entries_of_ne hne, h.content_of_not_touched hid]
    · have hnone : ∀ t, id ∉ s.touched t := fun t ht => howned ⟨t, ht⟩
      rw [committed_of_not_touched hnone, committed_of_not_touched,
        h.content_of_not_touched hid]
      exact fun t ht => hnone t (h.mem_touched.1 ht).2

/-- The begin of a transaction leaves what is committed as it is. -/
theorem WellFormed.committed_opening {s : Store} (hs : s.WellFormed) (id : TaskId) :
    s.opening.committed id = s.committed id := by
  by_cases howned : ∃ t, id ∈ s.touched t
  · obtain ⟨t, ht⟩ := howned
    have ht' : id ∈ s.opening.touched t := (hs.touched_opening t).symm ▸ ht
    rw [hs.opening.committed_of_touched ht', hs.committed_of_touched ht]
    unfold restored entries
    rw [hs.journal_opening]
    rfl
  · have hnone : ∀ t, id ∉ s.touched t := fun t ht => howned ⟨t, ht⟩
    rw [committed_of_not_touched hnone, committed_of_not_touched]
    · rfl
    · exact fun t ht => hnone t ((hs.touched_opening t) ▸ ht)

/-- A transaction that ends by restoring its rows leaves what is committed as it is. -/
theorem Ended.committed_of_takenBack {s s' : Store} {tx : TransactionId} (hs : s.WellFormed)
    (h : Ended s tx s') (hcontent : ∀ id, s'.content id = s.restored tx id) (id : TaskId) :
    s'.committed id = s.committed id := by
  rw [h.committed_eq hs]
  split
  · next hid => rw [hcontent, hs.committed_of_touched hid]
  · rfl

/-- Every action but a commit keeps the committed view, unless it is a pick whose lease would be too
long. -/
theorem Change.committed_eq {s s' : Store} {a : Action} {answer : Answer} (hs : s.WellFormed)
    (h : Change s a answer s') (hlease : answer.overflowsLease = false)
    (hcommit : ∀ tx, a = .commit tx → s.isOpen tx = false) (id : TaskId) :
    s'.committed id = s.committed id := by
  cases h with
  | idle => rfl
  | outage on => rfl
  | begun => exact hs.committed_opening id
  | @touched _ _ tx k noted s' _ h hnoted =>
    cases noted with
    | none =>
      rw [hnoted rfl] at hlease
      cases hlease
    | some u => exact h.committed_eq hs id
  | @kept tx s' h =>
    have hclosed := hcommit tx rfl
    rw [h.isOpen] at hclosed
    cases hclosed
  | takenBack _ h hcontent => exact h.committed_of_takenBack hs hcontent id

/-! ## Transactions take effect as a whole or not at all -/

/-- A transaction in which something has been put in is open. -/
theorem isOpen_of_enqueued {s : Store} {tx : TransactionId} {now : Instant}
    {location : Location} {task : NewTask} {id : TaskId}
    (h : (s.perform (.enqueue tx now location task)).2 = .enqueued (.ok id)) :
    s.isOpen tx = true := by
  have hstep := s.perform_step (.enqueue tx now location task)
  rw [h] at hstep
  generalize (s.perform _).1 = s' at hstep
  cases hstep with
  | idle hidle => cases hidle
  | enqueued isOpen => exact isOpen

/-- A transaction that can be committed is open. -/
theorem isOpen_of_ended {s : Store} {tx : TransactionId}
    (h : (s.perform (.commit tx)).2 = .ended (.ok ())) : s.isOpen tx = true := by
  have hstep := s.perform_step (.commit tx)
  rw [h] at hstep
  generalize (s.perform _).1 = s' at hstep
  cases hstep with
  | idle hidle => cases hidle
  | committed isOpen => exact isOpen

/-- A commit of an open transaction releases its rows. -/
theorem perform_commit {s : Store} {tx : TransactionId} (h : s.isOpen tx = true) :
    s.perform (.commit tx) = (s.release tx, .ended (.ok ())) := by
  simp [perform, commit, whenOpen, h]

/-- After a rollback every row is as the transaction restores it. -/
theorem content_rollback {s : Store} {tx : TransactionId} (h : s.isOpen tx = true) (id : TaskId) :
    (s.perform (.rollback tx)).1.content id = s.restored tx id := by
  simp only [perform, rollback, whenOpen, h, if_true]
  exact content_undoAll_release s tx id

/-- After a transaction has been abandoned every row is as it restores it. -/
theorem content_abandon {s : Store} {tx : TransactionId} (h : s.isOpen tx = true) (id : TaskId) :
    (s.perform (.abandon tx)).1.content id = s.restored tx id := by
  simp only [perform, abandon, h, if_true]
  exact content_undoAll_release s tx id

/-- A row of a transaction goes back to what is committed, any other row stays. -/
theorem WellFormed.restored_eq {s : Store} (hs : s.WellFormed) (tx : TransactionId) (id : TaskId) :
    s.restored tx id = if id ∈ s.touched tx then s.committed id else s.content id := by
  split
  · next hid => exact (hs.committed_of_touched hid).symm
  · next hid => exact restored_of_not_touched hid

/-- What the committed view of a store has to do with the ends of its transactions. -/
structure AllOrNothing (s : Store) : Prop where
  /-- The journals of two transactions mention different rows. -/
  disjoint : ∀ tx tx' id, tx ≠ tx' → id ∈ s.touched tx → id ∉ s.touched tx'
  /-- The journals may be applied in any order. -/
  anyOrder : ∀ order : List TransactionId, order.Perm s.journals.keys → ∀ id,
    s.viewWithout order id = s.committed id
  /-- Nothing but the commit of an open transaction changes what is committed. -/
  unchanged : ∀ a : Action, (s.perform a).2.overflowsLease = false →
    (∀ tx, a = .commit tx → s.isOpen tx = false) → ∀ id,
    (s.perform a).1.committed id = s.committed id
  /-- A commit makes the rows of its transaction committed as they are, and no others. -/
  commit : ∀ tx, s.isOpen tx = true → ∀ id, (s.perform (.commit tx)).1.committed id =
    if id ∈ s.touched tx then s.content id else s.committed id
  /-- A rollback leaves the rows of its transaction as they are committed, and all others alone. -/
  rollback : ∀ tx, s.isOpen tx = true → ∀ id, (s.perform (.rollback tx)).1.content id =
    if id ∈ s.touched tx then s.committed id else s.content id
  /-- So does dropping the transaction. -/
  abandon : ∀ tx, s.isOpen tx = true → ∀ id, (s.perform (.abandon tx)).1.content id =
    if id ∈ s.touched tx then s.committed id else s.content id

/-- In every store that any interleaving of transactions reaches, transactions take effect as a
whole or not at all. -/
theorem transactions_all_or_nothing (actions : List Action) :
    AllOrNothing (empty.run actions) := by
  have hs := wellFormed_run actions
  generalize empty.run actions = s at hs
  refine ⟨?_, ?_, ?_, ?_, ?_, ?_⟩
  · intro tx tx' id hne hid hid'
    exact hne (hs.disjoint hid hid')
  · intro order hperm id
    exact hs.viewWithout_perm (OrderedMap.nodup_keys _) hperm id
  · intro a hlease hcommit id
    exact (step_change hs (perform_step s a)).committed_eq hs hlease hcommit id
  · intro tx hopen id
    rw [perform_commit hopen, (ended_release hs hopen).committed_eq hs, content_release]
  · intro tx hopen id
    rw [content_rollback hopen, hs.restored_eq]
  · intro tx hopen id
    rw [content_abandon hopen, hs.restored_eq]

end LeaseQueue.Store
