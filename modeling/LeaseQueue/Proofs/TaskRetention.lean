import LeaseQueue.Proofs.CommittedView

/-!
# A task stays until it may go

Where a row is, and where it would be if the open transactions were taken back, is changed by few
actions: a row is put in, deleted, or taken back to where it was.  So a row whose insertion has been
committed stays committed as long as nobody commits a deletion of it.

`Keeps` says this against a ledger of what is known from outside: who has put in what, who has
committed, and which deletions there is a reason for.  If there is a reason for every deletion that
is asked for, then every row of the ledger is there or there is a reason for its absence.
-/

set_option autoImplicit false

namespace LeaseQueue

/-- Where taking a change back puts the row that it is about. -/
def Undo.placeBefore : Undo → Option Location → Option Location
  | .inserted _, _ => none
  | .updated _, place => place
  | .deleted location _, _ => some location

/-- Where a row stands after an entry is undone depends on where it stood. -/
theorem Undo.place_revert (u : Undo) (content : Option (Location × TaskRecord)) :
    (u.revert content).map Prod.fst = u.placeBefore (content.map Prod.fst) := by
  cases u with
  | inserted id => rfl
  | updated before =>
    simp only [Undo.revert, Undo.placeBefore, Option.map_map]
    rfl
  | deleted location before => rfl

/-- A row that goes back to a queue is in the queue, or has been deleted from it. -/
theorem Rewinds.place_or_deleted {place : Option Location} {entries : List Undo}
    (h : Rewinds place entries) {location : Location}
    (hback : entries.foldl (fun place u => u.placeBefore place) place = some location) :
    place = some location ∨ ∃ before, .deleted location before ∈ entries := by
  induction h with
  | nil => exact .inl hback
  | inserted => cases hback
  | updated _ ih =>
    rcases ih hback with hplace | ⟨before, hmem⟩
    · exact .inl hplace
    · exact .inr ⟨before, List.mem_cons_of_mem _ hmem⟩
  | @deleted from_ before rest _ ih =>
    rcases ih hback with hplace | ⟨before', hmem⟩
    · cases hplace
      exact .inr ⟨before, List.mem_cons_self⟩
    · exact .inr ⟨before', List.mem_cons_of_mem _ hmem⟩

namespace Store

/-- The queue of a row. -/
def place (s : Store) (id : TaskId) : Option Location := (s.content id).map Prod.fst

/-- The queue of a row once all open transactions are taken back. -/
def committedPlace (s : Store) (id : TaskId) : Option Location := (s.committed id).map Prod.fst

/-- Where a row would be brought back to depends only on its place and the entries. -/
theorem place_restored (s : Store) (tx : TransactionId) (id : TaskId) :
    (s.restored tx id).map Prod.fst =
      (s.entries tx id).foldl (fun place u => u.placeBefore place) (s.place id) := by
  unfold restored place
  generalize s.entries tx id = entries
  generalize s.content id = content
  induction entries generalizing content with
  | nil => rfl
  | cons u rest ih => rw [List.foldl_cons, List.foldl_cons, ih, u.place_revert]

/-- A touched row is committed where its transaction would bring it back to. -/
theorem WellFormed.committedPlace_of_touched {s : Store} (hs : s.WellFormed) {tx : TransactionId}
    {id : TaskId} (hid : id ∈ s.touched tx) : s.committedPlace id =
      (s.entries tx id).foldl (fun place u => u.placeBefore place) (s.place id) := by
  rw [committedPlace, hs.committed_of_touched hid, place_restored]

/-- A row that nothing touches is committed where it stands. -/
theorem committedPlace_of_not_touched {s : Store} {id : TaskId} (h : ∀ tx, id ∉ s.touched tx) :
    s.committedPlace id = s.place id := by
  rw [committedPlace, committed_of_not_touched h, place]

/-! ## What the actions do to places -/

/-- A change without an entry in the journal leaves every row where it is and where it goes back
to. -/
theorem Touch.committedPlace_of_unnoted {s s' : Store} {tx : TransactionId} {id : TaskId}
    (hs : s.WellFormed) (h : Touch s tx id none s') (k : TaskId) :
    s'.committedPlace k = s.committedPlace k := by
  have hplace : s'.place k = s.place k := by
    by_cases hk : k = id
    · subst hk
      exact h.stays rfl
    · rw [place, h.content_of_ne hk, place]
  have hentries : ∀ t, s'.entries t k = s.entries t k := by
    intro t
    unfold entries
    rw [h.journal]
    split <;> rfl
  have htouched : ∀ t, s'.touched t = s.touched t := by
    intro t
    unfold touched
    rw [h.journal]
    split <;> rfl
  by_cases howned : ∃ t, k ∈ s.touched t
  · obtain ⟨t, hk⟩ := howned
    rw [(hs.touch h).committedPlace_of_touched (htouched t ▸ hk), hs.committedPlace_of_touched hk,
      hentries, hplace]
  · have hnone : ∀ t, k ∉ s.touched t := fun t hk => howned ⟨t, hk⟩
    rw [committedPlace_of_not_touched hnone,
      committedPlace_of_not_touched fun t => htouched t ▸ hnone t, hplace]

/-- Only a commit changes where rows are committed. -/
theorem Change.committedPlace_eq {s s' : Store} {a : Action} {answer : Answer}
    (hs : s.WellFormed) (h : Change s a answer s')
    (hcommit : ∀ tx, a = .commit tx → s.isOpen tx = false) (id : TaskId) :
    s'.committedPlace id = s.committedPlace id := by
  cases h with
  | idle => rfl
  | outage on => rfl
  | begun => rw [committedPlace, hs.committed_opening, committedPlace]
  | @touched _ _ tx k noted s' _ h _ =>
    cases noted with
    | none => exact h.committedPlace_of_unnoted hs id
    | some u => rw [committedPlace, h.committed_eq hs, committedPlace]
  | @kept tx s' h =>
    have hclosed := hcommit tx rfl
    rw [h.isOpen] at hclosed
    cases hclosed
  | takenBack _ h hcontent =>
    rw [committedPlace, h.committed_of_takenBack hs hcontent, committedPlace]

/-- When a transaction is committed, a row stays committed where it was unless the transaction has
deleted it from there. -/
theorem WellFormed.committedPlace_release {s : Store} (hs : s.WellFormed) {tx : TransactionId}
    (hopen : s.isOpen tx = true) {id : TaskId} {location : Location}
    (h : s.committedPlace id = some location) :
    (s.release tx).committedPlace id = some location ∨
      ∃ before, .deleted location before ∈ s.entries tx id := by
  have hended := ended_release hs hopen
  by_cases hid : id ∈ s.touched tx
  · rw [hs.committedPlace_of_touched hid] at h
    rcases (hs.rewinds tx id).place_or_deleted h with hplace | hdeleted
    · refine .inl ?_
      rw [committedPlace, hended.committed_eq hs, if_pos hid, content_release]
      exact hplace
    · exact .inr hdeleted
  · refine .inl ?_
    rw [committedPlace, hended.committed_eq hs, if_neg hid]
    exact h

/-- The entry of a deletion is there because it was there before, or because the deletion has just
been asked for. -/
theorem Step.deleted_mem {s s' : Store} {a : Action} {answer : Answer} (hs : s.WellFormed)
    (h : Step s a answer s') {t : TransactionId} {id : TaskId} {location : Location}
    {before : TaskRecord} (hmem : .deleted location before ∈ s'.entries t id) :
    .deleted location before ∈ s.entries t id ∨ ∃ tx, a = .delete tx location id := by
  have touched : ∀ {tx k noted}, Touch s tx k noted s' →
      .deleted location before ∈ s.entries t id ∨ noted = some (.deleted location before) := by
    intro tx k noted htouch
    by_cases hne : t ≠ tx ∨ id ≠ k
    · rw [htouch.entries_of_ne hne] at hmem
      exact .inl hmem
    · simp only [not_or, Decidable.not_not] at hne
      obtain ⟨rfl, rfl⟩ := hne
      rw [htouch.entries_self, List.mem_append, Option.mem_toList] at hmem
      exact hmem.symm
  cases h with
  | idle => exact .inl hmem
  | outage on => exact .inl hmem
  | begun =>
    have hsame : s.opening.entries t id = s.entries t id := by
      unfold entries
      rw [hs.journal_opening]
    exact .inl (hsame ▸ hmem)
  | enqueued isOpen =>
    rcases touched (touch_enqueued hs isOpen _ _ _) with hmem | hnoted
    · exact .inl hmem
    · cases hnoted
  | picked isOpen hcandidate =>
    obtain ⟨hrow, -, hfree, -⟩ := hs.of_candidate hcandidate
    rcases touched (touch_rewritten hs isOpen hrow hfree rfl rfl rfl) with hmem | hnoted
    · exact .inl hmem
    · cases hnoted
  | counted isOpen hcandidate =>
    obtain ⟨hrow, -, hfree, -⟩ := hs.of_candidate hcandidate
    rcases touched (touch_counted hs isOpen hrow hfree) with hmem | hnoted
    · exact .inl hmem
    · cases hnoted
  | @deleted tx location' k row isOpen haccess =>
    obtain ⟨hrow, hlocation, hfree⟩ := of_access_granted haccess
    have htouch := touch_deleted hs isOpen hrow hfree
    by_cases hk : id = k
    · rcases touched htouch with hmem | hnoted
      · exact .inl hmem
      · cases hnoted
        exact .inr ⟨tx, by rw [hk, hlocation]⟩
    · rw [htouch.entries_of_ne (.inr hk)] at hmem
      exact .inl hmem
  | reenqueued isOpen _ haccess =>
    obtain ⟨hrow, -, hfree⟩ := of_access_granted haccess
    rcases touched (touch_rewritten hs isOpen hrow hfree rfl rfl rfl) with hmem | hnoted
    · exact .inl hmem
    · cases hnoted
  | committed isOpen => exact .inl ((ended_release hs isOpen).mem_entries hmem).2
  | rolledBack isOpen => exact .inl ((ended_undoAll_release hs isOpen).mem_entries hmem).2
  | abandoned isOpen => exact .inl ((ended_undoAll_release hs isOpen).mem_entries hmem).2

/-- A row of an open transaction stays where it is, or its deletion is noted. -/
theorem Change.place_or_deleted {s s' : Store} {a : Action} {answer : Answer}
    (hs : s.WellFormed) (h : Change s a answer s') {t : TransactionId} {id : TaskId}
    {location : Location} (hid : id ∈ s.touched t) (hopen : s'.isOpen t = true)
    (hplace : s.place id = some location) :
    s'.place id = some location ∨ ∃ before, .deleted location before ∈ s'.entries t id := by
  have ended : ∀ {tx}, Ended s tx s' → s'.place id = some location := by
    intro tx hended
    rw [hended.isOpen_eq, Bool.and_eq_true, decide_eq_true_eq] at hopen
    have hother : id ∉ s.touched tx := fun htx => hopen.1 (hs.disjoint hid htx)
    rw [place, hended.content_of_not_touched hother]
    exact hplace
  cases h with
  | idle => exact .inl hplace
  | outage on => exact .inl hplace
  | begun => exact .inl hplace
  | @touched _ _ tx k noted s' _ h _ =>
    by_cases hk : id = k
    · subst hk
      have ht : t = tx := by
        by_cases ht : t = tx
        · exact ht
        · exact absurd hid (h.not_touched hs ht)
      subst ht
      cases noted with
      | none => exact .inl ((h.stays rfl).trans hplace)
      | some u =>
        -- of the three kinds of entries only a deletion takes a row away
        have hexplains := h.explains rfl
        have hentries := h.entries_self
        rw [place] at hplace ⊢
        generalize s.content id = before at hexplains hplace
        generalize s'.content id = after at hexplains
        cases hexplains with
        | inserted => cases hplace
        | updated => exact .inl hplace
        | @deleted location' record =>
          cases hplace
          refine .inr ⟨record, ?_⟩
          rw [hentries]
          exact List.mem_cons_self
    · refine .inl ?_
      rw [place, h.content_of_ne hk]
      exact hplace
  | kept h => exact .inl (ended h)
  | takenBack _ h => exact .inl (ended h)

/-! ## The ledger -/

/-- What is known of a store from outside. -/
structure Ledger where
  /-- A transaction has put a row into a queue. -/
  enqueued : TransactionId → Location → TaskId → Prop
  /-- A transaction has been committed. -/
  committed : TransactionId → Prop
  /-- There is a reason for a deletion of a row from a queue. -/
  mayGo : Location → TaskId → Prop

/-- Every deletion has its reason, and every row that was put in is where it was put, or there is a
reason for its absence: as it is while its transaction is open, and as it is committed
afterwards. -/
structure Keeps (s : Store) (l : Ledger) : Prop where
  wellFormed : s.WellFormed
  deleted : ∀ {tx location id before}, .deleted location before ∈ s.entries tx id →
    l.mayGo location id
  begun : ∀ {tx location id}, l.enqueued tx location id → tx ≤ s.opened
  ended : ∀ {tx}, l.committed tx → tx ≤ s.opened ∧ ¬ s.isOpen tx = true
  pending : ∀ {tx location id}, l.enqueued tx location id → s.isOpen tx = true →
    id ∈ s.touched tx ∧ (s.place id = some location ∨ l.mayGo location id)
  kept : ∀ {tx location id}, l.enqueued tx location id → l.committed tx →
    s.committedPlace id = some location ∨ l.mayGo location id

/-- No rows and no commits are new, but there may be more reasons. -/
structure Ledger.SameRows (l l' : Ledger) : Prop where
  enqueued : ∀ {tx location id}, l'.enqueued tx location id → l.enqueued tx location id
  committed : ∀ {tx}, l'.committed tx → l.committed tx
  mayGo : ∀ {location id}, l.mayGo location id → l'.mayGo location id

/-- A ledger has the same rows as itself. -/
theorem Ledger.SameRows.refl (l : Ledger) : l.SameRows l := ⟨id, id, id⟩

/-- What is kept for a ledger is kept for one with the same rows. -/
theorem Keeps.mono {s : Store} {l l' : Ledger} (h : Keeps s l) (hsame : l.SameRows l') :
    Keeps s l' where
  wellFormed := h.wellFormed
  deleted hmem := hsame.mayGo (h.deleted hmem)
  begun hput := h.begun (hsame.enqueued hput)
  ended hended := h.ended (hsame.committed hended)
  pending hput hopen := by
    obtain ⟨hid, hplace⟩ := h.pending (hsame.enqueued hput) hopen
    exact ⟨hid, hplace.imp_right hsame.mayGo⟩
  kept hput hended :=
    (h.kept (hsame.enqueued hput) (hsame.committed hended)).imp_right hsame.mayGo

/-- What an action tells the ledger. -/
structure Grows (l l' : Ledger) (a : Action) (answer : Answer) : Prop where
  enqueued : ∀ {tx location id}, l'.enqueued tx location id → l.enqueued tx location id ∨
    ∃ now task, a = .enqueue tx now location task ∧ answer = .enqueued (.ok id)
  committed : ∀ {tx}, l'.committed tx → l.committed tx ∨
    (a = .commit tx ∧ answer = .ended (.ok ()))
  mayGo : ∀ {location id}, l.mayGo location id → l'.mayGo location id
  delete : ∀ {tx location id}, a = .delete tx location id → l'.mayGo location id

/-- What was put in before stays or may go. -/
theorem Keeps.earlier {s : Store} {l : Ledger} (h : Keeps s l) {a : Action} {answer : Answer}
    {s' : Store} (hstep : Step s a answer s')
    (hdelete : ∀ {tx location id}, a = .delete tx location id → l.mayGo location id) :
    Keeps s' l := by
  have hs := h.wellFormed
  have hchange := step_change hs hstep
  have hdeleted : ∀ {tx location id before}, .deleted location before ∈ s'.entries tx id →
      l.mayGo location id := by
    intro tx location id before hmem
    rcases hstep.deleted_mem hs hmem with hmem | ⟨tx, ha⟩
    · exact h.deleted hmem
    · exact hdelete ha
  refine ⟨hs.step hstep, hdeleted, ?_, ?_, ?_, ?_⟩
  · exact fun hput => Nat.le_trans (h.begun hput) hchange.opened_le
  · intro tx hended
    obtain ⟨hbegun, hclosed⟩ := h.ended hended
    exact ⟨Nat.le_trans hbegun hchange.opened_le, hchange.not_isOpen hbegun hclosed⟩
  · intro tx location id hput hopen'
    have hopen : s.isOpen tx = true := by
      by_cases hopen : s.isOpen tx = true
      · exact hopen
      · exact absurd hopen' (hchange.not_isOpen (h.begun hput) hopen)
    obtain ⟨hid, hplace⟩ := h.pending hput hopen
    refine ⟨hchange.touched_of_touched hs hid hopen', ?_⟩
    rcases hplace with hplace | hgo
    · rcases hchange.place_or_deleted hs hid hopen' hplace with hplace | ⟨before, hmem⟩
      · exact .inl hplace
      · exact .inr (hdeleted hmem)
    · exact .inr hgo
  · intro tx location id hput hended
    rcases h.kept hput hended with hplace | hgo
    · by_cases hcommit : ∃ t, a = .commit t ∧ s.isOpen t = true
      · obtain ⟨t, rfl, hopen⟩ := hcommit
        cases hstep with
        | idle => exact .inl hplace
        | committed =>
          rcases hs.committedPlace_release hopen hplace with hplace | ⟨before, hmem⟩
          · exact .inl hplace
          · exact .inr (h.deleted hmem)
      · refine .inl ((hchange.committedPlace_eq hs (fun t ht => ?_) id).trans hplace)
        rw [Bool.eq_false_iff]
        exact fun hopen => hcommit ⟨t, ht, hopen⟩
    · exact .inr hgo

/-- An insertion that succeeds has put a row of its transaction at the queue. -/
theorem Step.of_enqueued {s s' : Store} {tx : TransactionId} {now : Instant}
    {location : Location} {task : NewTask} {id : TaskId} (hs : s.WellFormed)
    (h : Step s (.enqueue tx now location task) (.enqueued (.ok id)) s') :
    s.isOpen tx = true ∧ s'.opened = s.opened ∧ id ∈ s'.touched tx ∧
      s'.place id = some location := by
  cases h with
  | idle h => cases h
  | @enqueued _ _ processTime _ _ isOpen hdeadline =>
    have htouch := @touch_enqueued s tx location hs isOpen now processTime task
    refine ⟨isOpen, htouch.opened, ?_, ?_⟩
    · unfold touched
      rw [htouch.journal, if_pos rfl]
      exact List.mem_cons_self
    · rw [place, content_note, content_insert, if_pos rfl]
      rfl

/-- A commit that succeeds has released its transaction. -/
theorem Step.of_committed {s s' : Store} {tx : TransactionId}
    (h : Step s (.commit tx) (.ended (.ok ())) s') : s.isOpen tx = true ∧ s' = s.release tx := by
  cases h with
  | idle h => cases h
  | committed isOpen => exact ⟨isOpen, rfl⟩

/-- Every action keeps what is in the ledger, with what the action adds to it. -/
theorem Keeps.step {s s' : Store} {l l' : Ledger} {a : Action} {answer : Answer} (h : Keeps s l)
    (hstep : Step s a answer s') (hgrows : Grows l l' a answer) : Keeps s' l' := by
  have hs := h.wellFormed
  have hbefore : Keeps s ⟨l.enqueued, l.committed, l'.mayGo⟩ := h.mono ⟨id, id, hgrows.mayGo⟩
  have hafter := hbefore.earlier hstep hgrows.delete
  refine ⟨hafter.wellFormed, hafter.deleted, ?_, ?_, ?_, ?_⟩
  · intro tx location id hput
    rcases hgrows.enqueued hput with hput | ⟨now, task, rfl, rfl⟩
    · exact hafter.begun hput
    · obtain ⟨hopen, hopened, -⟩ := hstep.of_enqueued hs
      exact hopened ▸ hs.open_le hopen
  · intro tx hended
    rcases hgrows.committed hended with hended | ⟨rfl, rfl⟩
    · exact hafter.ended hended
    · obtain ⟨hopen, rfl⟩ := hstep.of_committed
      exact ⟨hs.open_le hopen, by simp [isOpen_release]⟩
  · intro tx location id hput hopen
    rcases hgrows.enqueued hput with hput | ⟨now, task, rfl, rfl⟩
    · exact hafter.pending hput hopen
    · obtain ⟨-, -, hid, hplace⟩ := hstep.of_enqueued hs
      exact ⟨hid, .inl hplace⟩
  · intro tx location id hput hended
    rcases hgrows.enqueued hput with hput | ⟨now, task, rfl, rfl⟩
    · rcases hgrows.committed hended with hended | ⟨rfl, rfl⟩
      · exact hafter.kept hput hended
      · -- the commit makes the rows of the transaction committed as they are
        obtain ⟨hopen, rfl⟩ := hstep.of_committed
        obtain ⟨hid, hplace⟩ := hbefore.pending hput hopen
        refine hplace.imp_left fun hplace => ?_
        rw [committedPlace, (ended_release hs hopen).committed_eq hs, if_pos hid, content_release]
        exact hplace
    · obtain ⟨hopen, -⟩ := hstep.of_enqueued hs
      rcases hgrows.committed hended with hended | ⟨heq, -⟩
      · exact absurd hopen (h.ended hended).2
      · cases heq

/-- An empty store tells the ledger nothing. -/
theorem Grows.sameRows_of_empty {l l' : Ledger} {a : Action}
    (h : Grows l l' a (empty.perform a).2) : l.SameRows l' where
  enqueued {tx location id} hput := by
    rcases h.enqueued hput with hput | ⟨now, task, rfl, hanswer⟩
    · exact hput
    · have hstep := perform_step empty (.enqueue tx now location task)
      rw [hanswer] at hstep
      cases (hstep.of_enqueued wellFormed_empty).1
  committed {tx} hended := by
    rcases h.committed hended with hended | ⟨rfl, hanswer⟩
    · exact hended
    · have hstep := perform_step empty (.commit tx)
      rw [hanswer] at hstep
      cases hstep.of_committed.1
  mayGo := h.mayGo

/-- An empty store keeps the empty ledger. -/
theorem keeps_empty (mayGo : Location → TaskId → Prop) :
    Keeps empty ⟨fun _ _ _ => False, fun _ => False, mayGo⟩ where
  wellFormed := wellFormed_empty
  deleted h := by cases h
  begun h := h.elim
  ended h := h.elim
  pending h := h.elim
  kept h := h.elim

end Store

end LeaseQueue
