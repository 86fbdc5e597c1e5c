import LeaseQueue.Proofs.OwnTransactions

/-!
# Where rows come from

Nothing but an insertion makes a row, and what an insertion said of it stays: picks and outcomes
change its attempts and its time, and what is taken back is what was there before.  So every row of
a store is described by one insertion, whose transaction has been committed or still holds the row
(`Store.Sourced`).  What a pick finds has been committed.

The transactions of insertions do nothing else.  `Store.Sourced.step` says that nobody else can do
harm, `Store.Sourced.inserted` and `Store.Sourced.committed` what they do themselves.
-/

set_option autoImplicit false

namespace LeaseQueue

/-- A row as it was put in. -/
structure Insertion where
  tx : Handle
  location : Location
  task : NewTask
  id : TaskId
  /-- The time at which it was put in. -/
  created : Instant

/-- What never changes of a row is what the insertion says. -/
def Insertion.Describes (i : Insertion) (location : Location) (record : TaskRecord) : Prop :=
  location = i.location ∧ record.id = i.id ∧ record.payload = i.task.payload ∧
    record.created = i.created ∧ record.correlationId = i.task.correlationId ∧
    record.actor = i.task.actor

section Definitions

variable (put kept : Insertion → Prop)

/-- A row is described by an insertion that has been kept, or whose transaction holds the row. -/
def Row.Sourced (id : TaskId) (row : Row) : Prop :=
  ∃ i, put i ∧ i.id = id ∧ i.Describes row.location row.record ∧
    (kept i ∨ row.holder = some i.tx.transaction)

/-- What is to be taken back gives a row that is described by an insertion that has been kept. -/
def Undo.Sourced : Undo → Prop
  | .inserted _ => True
  | .updated before => ∃ i, put i ∧ kept i ∧ i.id = before.id ∧ i.Describes i.location before
  | .deleted location before => ∃ i, put i ∧ kept i ∧ i.id = before.id ∧ i.Describes location before

namespace Store

/-- Every row of a store comes from an insertion. -/
structure Sourced (s : Store) : Prop where
  row : ∀ {id row}, s.rows.get? id = some row → row.Sourced put kept id
  entry : ∀ {tx u}, u ∈ s.journal tx → u.Sourced put kept
  unique : ∀ {i i'}, put i → put i' → i.id = i'.id → i = i'
  bounded : ∀ {i}, put i → i.id < s.nextId
  begun : ∀ {i}, put i → i.tx.transaction ≤ s.opened
  /-- A transaction that has put a row in and is open has done nothing else. -/
  pending : ∀ {i}, put i → ¬ kept i → s.isOpen i.tx.transaction = true →
    s.journal i.tx.transaction = [.inserted i.id] ∧ ∃ row, s.rows.get? i.id = some row

/-- The transaction is not one of an insertion. -/
def Stranger (tx : TransactionId) : Prop := ∀ i, put i → i.tx.transaction ≠ tx

end Store

end Definitions

section Monotone

variable {put put' kept kept' : Insertion → Prop}

/-- A row that comes from some insertion comes from it among more. -/
theorem Row.Sourced.mono {id : TaskId} {row : Row} (h : row.Sourced put kept id)
    (hput : ∀ i, put i → put' i) (hkept : ∀ i, kept i → kept' i) : row.Sourced put' kept' id := by
  obtain ⟨i, hi, hid, hdescribes, hown⟩ := h
  exact ⟨i, hput i hi, hid, hdescribes, hown.imp_left (hkept i)⟩

/-- An entry that comes from some insertion comes from it among more. -/
theorem Undo.Sourced.mono {u : Undo} (h : u.Sourced put kept) (hput : ∀ i, put i → put' i)
    (hkept : ∀ i, kept i → kept' i) : u.Sourced put' kept' := by
  cases u with
  | inserted id => trivial
  | updated before =>
    obtain ⟨i, hi, hold, hrest⟩ := h
    exact ⟨i, hput i hi, hkept i hold, hrest⟩
  | deleted location before =>
    obtain ⟨i, hi, hold, hrest⟩ := h
    exact ⟨i, hput i hi, hkept i hold, hrest⟩

end Monotone

namespace Store

variable {put kept : Insertion → Prop} {s s' : Store} {tx : TransactionId} {id : TaskId}

/-- An empty store has no row to account for. -/
theorem sourced_empty : empty.Sourced (fun _ => False) kept where
  row h := by cases h
  entry h := by cases h
  unique h := h.elim
  bounded h := h.elim
  begun h := h.elim
  pending h := h.elim

/-! ## Rows that others may change -/

/-- A row that a stranger may change has been kept. -/
theorem Sourced.kept_of_free (h : s.Sourced put kept) (htx : Stranger put tx) {row : Row}
    (hrow : s.rows.get? id = some row) (hfree : row.holder.all (· == tx) = true) :
    ∃ i, put i ∧ kept i ∧ i.id = id ∧ i.Describes row.location row.record := by
  obtain ⟨i, hput, hid, hdescribes, hkept | hholder⟩ := h.row hrow
  · exact ⟨i, hput, hkept, hid, hdescribes⟩
  · rw [hholder] at hfree
    exact absurd (by simpa using hfree) (htx i hput)

/-- Rows after one of them was written. -/
theorem sourced_insert {rows : OrderedMap TaskId Row} {row : Row}
    (h : ∀ {k r}, rows.get? k = some r → r.Sourced put kept k) (hrow : row.Sourced put kept id)
    {k : TaskId} {r : Row} (hk : (rows.insert id row).get? k = some r) : r.Sourced put kept k := by
  rw [OrderedMap.get?_insert] at hk
  split at hk
  · next heq =>
    cases hk
    exact heq ▸ hrow
  · exact h hk

/-- Erasing a row leaves the others accounted for. -/
theorem sourced_erase {rows : OrderedMap TaskId Row}
    (h : ∀ {k r}, rows.get? k = some r → r.Sourced put kept k) {k : TaskId} {r : Row}
    (hk : (rows.erase id).get? k = some r) : r.Sourced put kept k := by
  rw [OrderedMap.get?_erase] at hk
  split at hk
  · cases hk
  · exact h hk

/-- Rows after a change was taken back. -/
theorem Sourced.of_undo (h : s.Sourced put kept) {rows : OrderedMap TaskId Row} {u : Undo}
    (hrows : ∀ {k r}, rows.get? k = some r → r.Sourced put kept k) (hu : u.Sourced put kept)
    {k : TaskId} {r : Row} (hk : (undo rows u).get? k = some r) : r.Sourced put kept k := by
  cases u with
  | inserted id => exact sourced_erase hrows hk
  | updated before =>
    obtain ⟨i, hput, hkept, hid, hdescribes⟩ := hu
    simp only [undo, OrderedMap.get?_modify] at hk
    split at hk
    · next heq =>
      obtain ⟨row, hrow, rfl⟩ := Option.map_eq_some_iff.1 hk
      -- the row still is where the insertion says
      obtain ⟨i', hput', hid', hdescribes', -⟩ := hrows hrow
      obtain rfl := h.unique hput hput' (hid.trans (heq.symm.trans hid'.symm))
      exact ⟨i, hput, hid', ⟨hdescribes'.1, hdescribes.2⟩, .inl hkept⟩
    · exact hrows hk
  | deleted location before =>
    obtain ⟨i, hput, hkept, hid, hdescribes⟩ := hu
    have hrow : Row.Sourced put kept before.id ⟨location, before, none⟩ :=
      ⟨i, hput, hid, hdescribes, .inl hkept⟩
    exact sourced_insert hrows hrow hk

/-- Undoing entries brings back only rows that are accounted for. -/
theorem Sourced.of_foldl_undo (h : s.Sourced put kept) {entries : List Undo}
    {rows : OrderedMap TaskId Row} (hrows : ∀ {k r}, rows.get? k = some r → r.Sourced put kept k)
    (hentries : ∀ u ∈ entries, u.Sourced put kept) {k : TaskId} {r : Row}
    (hk : (entries.foldl undo rows).get? k = some r) : r.Sourced put kept k := by
  induction entries generalizing rows with
  | nil => exact hrows hk
  | cons u rest ih =>
    refine ih (fun hr => h.of_undo hrows (hentries u List.mem_cons_self) hr)
      (fun v hv => hentries v (List.mem_cons_of_mem _ hv)) hk

/-- Rows after their transaction has ended, if those that it held have been kept. -/
theorem sourced_release (hrows : ∀ {k r}, s.rows.get? k = some r → r.Sourced put kept k)
    (hheld : ∀ {k r i}, s.rows.get? k = some r → put i → i.id = k →
      i.tx.transaction = tx → kept i) {k : TaskId} {r : Row}
    (hk : (s.release tx).rows.get? k = some r) : r.Sourced put kept k := by
  rw [get?_release, Option.map_eq_some_iff] at hk
  obtain ⟨row, hrow, rfl⟩ := hk
  obtain ⟨i, hput, hid, hdescribes, hholder⟩ := hrows hrow
  split
  · next heq =>
    refine ⟨i, hput, hid, hdescribes, .inl (hholder.elim id fun hown => ?_)⟩
    rw [heq, Option.some.injEq] at hown
    exact hheld hrow hput hid hown.symm
  · exact ⟨i, hput, hid, hdescribes, hholder⟩

/-! ## Steps of others -/

/-- The transactions of insertions are as they were, or have ended. -/
theorem Sourced.pending_of_undisturbed (h : s.Sourced put kept) (hs : s.WellFormed)
    {i : Insertion} (hput : put i) (hkept : ¬ kept i)
    (hsame : Undisturbed s s' i.tx.transaction) (hopen : s'.isOpen i.tx.transaction = true) :
    s'.journal i.tx.transaction = [.inserted i.id] ∧ ∃ row, s'.rows.get? i.id = some row := by
  obtain ⟨hjournal, row, hrow⟩ := h.pending hput hkept (hsame.isOpen ▸ hopen)
  have htouched : i.id ∈ s.touched i.tx.transaction := by
    unfold touched
    rw [hjournal]
    exact List.mem_singleton_self _
  exact ⟨hsame.journal.trans hjournal, row, (hsame.rows (hs.owned htouched hrow)).2 hrow⟩

/-- Another transaction ends, or one whose insertion has not been kept is taken back. -/
theorem Sourced.ended (h : s.Sourced put kept) (hs : s.WellFormed) {a : Action} {answer : Answer}
    (hstep : Step s a answer s') (hended : Ended s tx s') (ha : a.transaction? = some tx)
    (hrows : ∀ {k r}, s'.rows.get? k = some r → r.Sourced put kept k) : s'.Sourced put kept where
  row := hrows
  entry {t u} hu := by
    rw [hended.journal] at hu
    split at hu
    · cases hu
    · exact h.entry hu
  unique := h.unique
  bounded hput := hended.nextId.symm ▸ h.bounded hput
  begun hput := hended.opened.symm ▸ h.begun hput
  pending {i} hput hkept hopen := by
    have hne : i.tx.transaction ≠ tx := by
      rintro heq
      rw [hended.isOpen_eq, heq] at hopen
      simp at hopen
    refine h.pending_of_undisturbed hs hput hkept ?_ hopen
    refine (step_change hs hstep).undisturbed hs ?_ (h.begun hput)
    rw [ha, ne_eq, Option.some.injEq]
    exact hne.symm

/-- One row is changed by a stranger. -/
theorem Sourced.touched (h : s.Sourced put kept) (hs : s.WellFormed) (htx : Stranger put tx)
    {noted : Option Undo} (htouch : Touch s tx id noted s')
    (hrow : ∀ {r}, s'.rows.get? id = some r → r.Sourced put kept id)
    (hnoted : ∀ {u}, noted = some u → u.Sourced put kept) : s'.Sourced put kept where
  row {k r} hk := by
    by_cases heq : k = id
    · subst heq
      exact hrow hk
    · rw [htouch.others heq] at hk
      exact h.row hk
  entry {t u} hu := by
    rw [htouch.journal] at hu
    split at hu
    · rcases List.mem_append.1 hu with hnew | hold
      · exact hnoted (Option.mem_toList.1 hnew)
      · exact h.entry hold
    · exact h.entry hu
  unique := h.unique
  bounded hput := Int.lt_of_lt_of_le (h.bounded hput) htouch.nextId_le
  begun hput := htouch.opened.symm ▸ h.begun hput
  pending {i} hput hkept hopen :=
    h.pending_of_undisturbed hs hput hkept (htouch.undisturbed (htx i hput)) hopen

/-- The row and the entry of a change that keeps what an insertion says of the row. -/
theorem Sourced.rewritten (h : s.Sourced put kept) (hs : s.WellFormed) (htx : Stranger put tx)
    (isOpen : s.isOpen tx = true) {row row' : Row} (hrow : s.rows.get? id = some row)
    (hfree : row.holder.all (· == tx) = true) (hlocation : row'.location = row.location)
    (hholder : row'.holder = some tx)
    (hsame : ∀ i : Insertion, i.Describes row.location row.record →
      i.Describes row.location row'.record) :
    (note { s with rows := s.rows.insert id row' } tx (.updated row.record)).Sourced put kept := by
  obtain ⟨i, hput, hkept, hid, hdescribes⟩ := h.kept_of_free htx hrow hfree
  have hrecord : row'.record.id = row.record.id :=
    (hsame i hdescribes).2.1.trans hdescribes.2.1.symm
  refine h.touched hs htx
    (touch_rewritten hs isOpen hrow hfree hrecord hlocation hholder) (fun hr => ?_) fun heq => ?_
  · rw [show (note { s with rows := s.rows.insert id row' } tx (.updated row.record)).rows =
      s.rows.insert id row' from rfl, OrderedMap.get?_insert, if_pos rfl] at hr
    cases hr
    exact ⟨i, hput, hid, hlocation ▸ hsame i hdescribes, .inl hkept⟩
  · cases heq
    exact ⟨i, hput, hkept, hdescribes.2.1.symm, rfl, hdescribes.2⟩

/-- What may be done besides insertions and what their own transactions do. -/
def Harmless (put : Insertion → Prop) : Action → Prop
  | .enqueue .. => False
  | .pick tx _ _ _ => Stranger put tx
  | .delete tx _ _ => Stranger put tx
  | .reenqueue tx _ _ _ _ _ => Stranger put tx
  | .commit tx => Stranger put tx
  | _ => True

/-- Taking back a transaction leaves rows behind that come from insertions. -/
theorem Sourced.takenBack (h : s.Sourced put kept) (isOpen : s.isOpen tx = true) {k : TaskId}
    {r : Row} (hk : ((s.undoAll tx).release tx).rows.get? k = some r) : r.Sourced put kept k := by
  refine sourced_release (s := s.undoAll tx) (fun hr => h.of_foldl_undo h.row
    (fun u hu => h.entry hu) hr) (fun {k r i} hr hput hid hown => ?_) hk
  by_contra hkept
  obtain ⟨hjournal, -⟩ := h.pending hput hkept (hown ▸ isOpen)
  have hundo : (s.undoAll tx).rows = s.rows.erase i.id := by
    show (s.journal tx).foldl undo s.rows = _
    rw [← hown, hjournal]
    rfl
  rw [hundo, OrderedMap.get?_erase, if_pos hid.symm] at hr
  cases hr

/-- Nobody but the transactions of insertions can do harm. -/
theorem Sourced.step (h : s.Sourced put kept) (hs : s.WellFormed) {a : Action} {answer : Answer}
    (hstep : Step s a answer s') (ha : Harmless put a) : s'.Sourced put kept := by
  cases hstep with
  | idle => exact h
  | outage on => exact ⟨h.row, h.entry, h.unique, h.bounded, h.begun, h.pending⟩
  | begun havailable =>
    exact {
      row := h.row
      entry := fun hu => h.entry (hs.journal_opening _ ▸ hu)
      unique := h.unique
      bounded := h.bounded
      begun := fun hput => Nat.le_succ_of_le (h.begun hput)
      pending := fun {i} hput hkept hopen => h.pending_of_undisturbed hs hput hkept
        ((step_change hs (.begun havailable)).undisturbed hs nofun (h.begun hput)) hopen }
  | enqueued => exact ha.elim
  | picked isOpen hcandidate =>
    obtain ⟨hrow, -, hfree, -⟩ := hs.of_candidate hcandidate
    exact h.rewritten hs ha isOpen hrow hfree rfl rfl fun i hi => hi
  | counted isOpen hcandidate =>
    obtain ⟨hrow, -, hfree, -⟩ := hs.of_candidate hcandidate
    obtain ⟨i, hput, hkept, hid, hdescribes⟩ := h.kept_of_free ha hrow hfree
    refine h.touched hs ha (touch_counted hs isOpen hrow hfree) (fun hr => ?_) nofun
    simp only [OrderedMap.get?_insert, if_pos, Option.some.injEq] at hr
    exact hr ▸ ⟨i, hput, hid, hdescribes, .inl hkept⟩
  | @deleted _ _ id _ isOpen haccess =>
    obtain ⟨hrow, -, hfree⟩ := of_access_granted haccess
    obtain ⟨i, hput, hkept, hid, hdescribes⟩ := h.kept_of_free ha hrow hfree
    refine h.touched hs ha (touch_deleted hs isOpen hrow hfree) (fun hr => ?_) fun heq => ?_
    · have hnone := (OrderedMap.get?_erase s.rows id id).trans (if_pos rfl)
      cases hnone.symm.trans hr
    · cases heq
      exact ⟨i, hput, hkept, hdescribes.2.1.symm, hdescribes⟩
  | reenqueued isOpen _ haccess =>
    obtain ⟨hrow, -, hfree⟩ := of_access_granted haccess
    exact h.rewritten hs ha isOpen hrow hfree rfl rfl fun i hi => hi
  | committed isOpen =>
    exact h.ended hs (.committed isOpen) (ended_release hs isOpen) rfl fun hr =>
      sourced_release h.row (fun _ hput _ hown => absurd hown (ha _ hput)) hr
  | rolledBack isOpen =>
    exact h.ended hs (.rolledBack isOpen) (ended_undoAll_release hs isOpen) rfl fun hr =>
      h.takenBack isOpen hr
  | abandoned isOpen =>
    exact h.ended hs (.abandoned isOpen) (ended_undoAll_release hs isOpen) rfl fun hr =>
      h.takenBack isOpen hr

/-- What a stranger picks has been kept, and it counts at least one attempt. -/
theorem Sourced.picked (h : s.Sourced put kept) (hs : s.WellFormed) (htx : Stranger put tx)
    {now : Instant} {location : Location} {lease : LeaseSchedule} {record : TaskRecord}
    (hstep : Step s (.pick tx now location lease) (.picked (.ok (some record))) s') :
    1 ≤ record.attempts ∧ ∃ i, put i ∧ kept i ∧ i.Describes location record := by
  cases hstep with
  | idle hidle => cases hidle
  | picked isOpen hcandidate =>
    obtain ⟨hrow, rfl, hfree, -⟩ := hs.of_candidate hcandidate
    obtain ⟨i, hput, hkept, -, hdescribes⟩ := h.kept_of_free htx hrow hfree
    refine ⟨?_, i, hput, hkept, hdescribes⟩
    show 1 ≤ min (_ + 1) Text.maxWord32
    exact Nat.le_min.2 ⟨Nat.le_add_left 1 _, by decide⟩

/-! ## What the transaction of an insertion does -/

/-- More insertions have been kept. -/
theorem Sourced.keep {kept' : Insertion → Prop} (h : s.Sourced put kept)
    (hkept : ∀ i, kept i → kept' i) : s.Sourced put kept' where
  row hk := (h.row hk).mono (fun _ hi => hi) hkept
  entry hu := (h.entry hu).mono (fun _ hi => hi) hkept
  unique := h.unique
  bounded := h.bounded
  begun := h.begun
  pending hput hnot := h.pending hput fun hold => hnot (hkept _ hold)

/-- A transaction that has done nothing puts a row in. -/
theorem Sourced.inserted (h : s.Sourced put kept) (hs : s.WellFormed) (htx : Stranger put tx)
    (hjournal : s.journal tx = []) {now : Instant} {location : Location} {task : NewTask}
    (shard : ShardId)
    (hstep : Step s (.enqueue tx now location task) (.enqueued (.ok id)) s') :
    s'.Sourced (fun i => put i ∨ i = ⟨⟨shard, tx⟩, location, task, id, now⟩) kept := by
  cases hstep with
  | idle hidle => cases hidle
  | @enqueued _ _ processTime _ _ isOpen hdeadline =>
    have htouch := @touch_enqueued s tx location hs isOpen now processTime task
    have hrow := OrderedMap.get?_insert s.rows s.nextId s.nextId
      (added tx s.nextId now processTime location task)
    rw [if_pos rfl] at hrow
    have hlt : s.nextId < s.nextId + 1 := Int.lt_succ _
    exact {
      row := by
        intro k r hk
        by_cases heq : k = s.nextId
        · subst heq
          cases hrow.symm.trans hk
          exact ⟨_, .inr rfl, rfl, ⟨rfl, rfl, rfl, rfl, rfl, rfl⟩, .inr rfl⟩
        · rw [htouch.others heq] at hk
          exact (h.row hk).mono (fun _ => .inl) fun _ hold => hold
      entry := by
        intro t u hu
        have hold : u.Sourced put kept := by
          rw [htouch.journal] at hu
          split at hu
          · rcases List.mem_cons.1 hu with rfl | hold
            · trivial
            · exact h.entry hold
          · exact h.entry hu
        exact hold.mono (fun _ => .inl) fun _ hkept => hkept
      unique := by
        rintro i i' (hput | rfl) (hput' | rfl) heq
        · exact h.unique hput hput' heq
        · exact absurd (heq ▸ h.bounded hput) (Int.lt_irrefl _)
        · exact absurd (heq.symm ▸ h.bounded hput') (Int.lt_irrefl _)
        · rfl
      bounded := by
        rintro i (hput | rfl)
        · exact Int.lt_trans (h.bounded hput) hlt
        · exact hlt
      begun := by
        rintro i (hput | rfl)
        · exact h.begun hput
        · exact hs.open_le isOpen
      pending := by
        rintro i (hput | rfl) hkept hopen
        · exact h.pending_of_undisturbed hs hput hkept (htouch.undisturbed (htx i hput)) hopen
        · refine ⟨?_, _, hrow⟩
          show (note _ tx _).journal tx = _
          rw [htouch.journal, if_pos rfl, hjournal]
          rfl }

section Commit

variable {i : Insertion}

/-- The transaction of an insertion is committed. -/
theorem Sourced.committed (h : s.Sourced put kept) (hs : s.WellFormed)
    (hown : ∀ i', put i' → i'.tx.transaction = i.tx.transaction → i' = i)
    (isOpen : s.isOpen i.tx.transaction = true) :
    (s.release i.tx.transaction).Sourced put (fun i' => kept i' ∨ i' = i) := by
  have hkeep : s.Sourced put (fun i' => kept i' ∨ i' = i) := h.keep fun i' => .inl
  exact hkeep.ended hs (.committed isOpen) (ended_release hs isOpen) rfl fun hr =>
    sourced_release hkeep.row (fun _ hput _ htx => .inr (hown _ hput htx)) hr

/-- With the commit the row that was put in is there, and no other one changes. -/
theorem Sourced.committed_release (h : s.Sourced put kept) (hs : s.WellFormed) (hput : put i)
    (hkept : ¬ kept i) (isOpen : s.isOpen i.tx.transaction = true) :
    s.committed i.id = none ∧
      (∃ record, (s.release i.tx.transaction).committed i.id = some (i.location, record) ∧
        i.Describes i.location record) ∧
      ∀ k, k ≠ i.id → (s.release i.tx.transaction).committed k = s.committed k := by
  obtain ⟨hjournal, row, hrow⟩ := h.pending hput hkept isOpen
  have htouched : s.touched i.tx.transaction = [i.id] := by
    unfold Store.touched
    rw [hjournal]
    rfl
  have hmem : i.id ∈ s.touched i.tx.transaction := htouched ▸ List.mem_singleton_self _
  have hentries : s.entries i.tx.transaction i.id = [.inserted i.id] := by
    unfold entries
    rw [hjournal, List.filter_cons, if_pos (by simp [Undo.id]), List.filter_nil]
  obtain ⟨i', hput', hid, hdescribes, -⟩ := h.row hrow
  obtain rfl := h.unique hput hput' hid.symm
  have hended := ended_release hs isOpen
  refine ⟨?_, ⟨row.record, ?_, rfl, hdescribes.2⟩, fun k hk => ?_⟩
  · rw [hs.committed_of_touched hmem, restored, hentries]
    rfl
  · rw [hended.committed_eq hs, if_pos hmem, content_release, content, hrow, Option.map_some,
      Row.content, hdescribes.1]
  · rw [hended.committed_eq hs, if_neg]
    rw [htouched, List.mem_singleton]
    exact hk

end Commit

end Store

end LeaseQueue
