import LeaseQueue.Proofs.StoreRuns

/-!
# Journals, row by row

Taking back a change of one row leaves all other rows alone.  What a journal makes of a row is
therefore what its entries for that row make of the row's content: `content_undoAll` says so, and
`restored` is the content that they lead back to.
-/

set_option autoImplicit false

namespace LeaseQueue

/-- What a row says, whoever holds it. -/
def Row.content (row : Row) : Location × TaskRecord := (row.location, row.record)

/-- The row that an entry of a journal is about. -/
def Undo.id : Undo → TaskId
  | .inserted id => id
  | .updated before => before.id
  | .deleted _ before => before.id

/-- What taking a change back makes of the content of the row that it is about. -/
def Undo.revert : Undo → Option (Location × TaskRecord) → Option (Location × TaskRecord)
  | .inserted _, _ => none
  | .updated before, content => content.map fun c => (c.1, before)
  | .deleted location before, _ => some (location, before)

namespace Store

/-- What is stored under an identifier, with changes that are not committed. -/
def content (s : Store) (id : TaskId) : Option (Location × TaskRecord) :=
  (s.rows.get? id).map Row.content

/-- How the changes of a transaction are taken back, the latest first. -/
def journal (s : Store) (tx : TransactionId) : List Undo := (s.journals.get? tx).getD []

/-- The rows that a transaction's journal mentions. -/
def touched (s : Store) (tx : TransactionId) : List TaskId := (s.journal tx).map Undo.id

/-- The entries of a transaction's journal for one row. -/
def entries (s : Store) (tx : TransactionId) (id : TaskId) : List Undo :=
  (s.journal tx).filter fun u => u.id = id

/-- The content of a row once the changes of a transaction are taken back. -/
def restored (s : Store) (tx : TransactionId) (id : TaskId) : Option (Location × TaskRecord) :=
  (s.entries tx id).foldl (fun content u => u.revert content) (s.content id)

/-! ## Journals and rows after the elementary changes of a store -/

/-- A transaction is open just if it has a journal. -/
theorem isOpen_iff {s : Store} {tx : TransactionId} :
    s.isOpen tx = true ↔ ∃ entries, s.journals.get? tx = some entries := by
  unfold isOpen OrderedMap.contains
  exact Option.isSome_iff_exists

/-- A transaction that is not open has no entries. -/
theorem journal_of_not_isOpen {s : Store} {tx : TransactionId} (h : ¬ s.isOpen tx = true) :
    s.journal tx = [] := by
  unfold journal
  cases hj : s.journals.get? tx with
  | none => rfl
  | some entries => exact absurd (isOpen_iff.2 ⟨entries, hj⟩) h

/-- A transaction that has touched a row is open. -/
theorem isOpen_of_touched {s : Store} {tx : TransactionId} {id : TaskId}
    (h : id ∈ s.touched tx) : s.isOpen tx = true := by
  by_cases hopen : s.isOpen tx = true
  · exact hopen
  · simp [touched, journal_of_not_isOpen hopen] at h

/-- There are no entries of a row that a transaction has not touched. -/
theorem entries_eq_nil {s : Store} {tx : TransactionId} {id : TaskId}
    (h : id ∉ s.touched tx) : s.entries tx id = [] := by
  unfold entries
  refine List.filter_eq_nil_iff.2 fun u hu => ?_
  have : u.id ≠ id := fun heq => h (List.mem_map.2 ⟨u, hu, heq⟩)
  simpa using this

/-- A row with an entry has been touched. -/
theorem touched_of_mem_entries {s : Store} {tx : TransactionId} {id : TaskId} {u : Undo}
    (h : u ∈ s.entries tx id) : id ∈ s.touched tx := by
  obtain ⟨hmem, hid⟩ := List.mem_filter.1 h
  exact List.mem_map.2 ⟨u, hmem, by simpa using hid⟩

/-- A row that a transaction has not touched is restored as it is. -/
theorem restored_of_not_touched {s : Store} {tx : TransactionId} {id : TaskId}
    (h : id ∉ s.touched tx) : s.restored tx id = s.content id := by
  unfold restored
  rw [entries_eq_nil h, List.foldl_nil]

/-- An entry neither opens nor closes a transaction. -/
theorem isOpen_note (s : Store) (tx t : TransactionId) (u : Undo) :
    (s.note tx u).isOpen t = s.isOpen t := by
  simp only [isOpen, OrderedMap.contains, note, OrderedMap.get?_modify]
  split
  · exact Option.isSome_map
  · rfl

/-- An entry is the latest one of its transaction, and the others have theirs. -/
theorem journal_note {s : Store} {tx : TransactionId} (h : s.isOpen tx = true) (u : Undo)
    (t : TransactionId) :
    (s.note tx u).journal t = if t = tx then u :: s.journal t else s.journal t := by
  obtain ⟨entries, hj⟩ := isOpen_iff.1 h
  simp only [journal, note, OrderedMap.get?_modify]
  split
  · next ht => simp [ht, hj]
  · rfl

/-- A transaction that releases its rows is not open any more, and the others are as they were. -/
theorem isOpen_release (s : Store) (tx t : TransactionId) :
    (s.release tx).isOpen t = (decide (t ≠ tx) && s.isOpen t) := by
  simp only [isOpen, OrderedMap.contains, release, OrderedMap.get?_erase]
  split <;> simp_all

/-- A transaction that releases its rows has no entries any more, and the others have theirs. -/
theorem journal_release (s : Store) (tx t : TransactionId) :
    (s.release tx).journal t = if t = tx then [] else s.journal t := by
  simp only [journal, release, OrderedMap.get?_erase]
  split <;> rfl

/-- A row that is released has no holder, and the others have theirs. -/
theorem get?_release (s : Store) (tx : TransactionId) (id : TaskId) :
    (s.release tx).rows.get? id =
      (s.rows.get? id).map fun row =>
        if row.holder = some tx then { row with holder := none } else row :=
  OrderedMap.get?_mapValues _ _ _

/-- An entry leaves the rows as they are. -/
theorem content_note (s : Store) (tx : TransactionId) (u : Undo) (id : TaskId) :
    (s.note tx u).content id = s.content id := rfl

/-- A row that is put in place leaves the others as they were. -/
theorem content_insert {s : Store} {rows : OrderedMap TaskId Row} {k id nextId : TaskId} {row : Row} :
    content { s with nextId := nextId, rows := rows.insert k row } id =
      if id = k then some row.content else (rows.get? id).map Row.content := by
  unfold content
  rw [OrderedMap.get?_insert]
  split <;> rfl

/-- What is released stays what it is. -/
@[simp]
theorem content_release (s : Store) (tx : TransactionId) (id : TaskId) :
    (s.release tx).content id = s.content id := by
  unfold content
  rw [get?_release, Option.map_map]
  refine Option.map_congr fun row _ => ?_
  simp only [Function.comp_apply]
  split <;> rfl

/-- Taking back a change leaves all other rows alone. -/
theorem get?_undo_of_ne {rows : OrderedMap TaskId Row} {u : Undo} {id : TaskId}
    (h : u.id ≠ id) : (undo rows u).get? id = rows.get? id := by
  have h : id ≠ u.id := h.symm
  cases u with
  | inserted k => exact (OrderedMap.get?_erase rows k id).trans (if_neg h)
  | updated before => exact (OrderedMap.get?_modify rows before.id id _).trans (if_neg h)
  | deleted location before => exact (OrderedMap.get?_insert rows before.id id _).trans (if_neg h)

/-- An entry that is undone is taken back from its own row. -/
theorem content_undo (rows : OrderedMap TaskId Row) (u : Undo) :
    ((undo rows u).get? u.id).map Row.content = u.revert ((rows.get? u.id).map Row.content) := by
  cases u with
  | inserted k => simp [undo, OrderedMap.get?_erase, Undo.id, Undo.revert]
  | updated before =>
    simp only [undo, OrderedMap.get?_modify, Undo.id, if_pos, Undo.revert, Option.map_map]
    rfl
  | deleted location before => simp [undo, OrderedMap.get?_insert, Undo.id, Undo.revert, Row.content]

/-- A row that is there after a change was taken back has its identifier if it was changed, and a
holder only if it had it before. -/
theorem row_of_undo {rows : OrderedMap TaskId Row} {u : Undo} {id : TaskId} {row : Row}
    (h : (undo rows u).get? id = some row) :
    (rows.get? id = some row ∨ row.record.id = id) ∧
      ∀ t, row.holder = some t → ∃ before, rows.get? id = some before ∧ before.holder = some t := by
  by_cases hid : u.id = id
  · subst hid
    cases u with
    | inserted k => simp [undo, OrderedMap.get?_erase, Undo.id] at h
    | updated before =>
      simp only [undo, OrderedMap.get?_modify, Undo.id, if_pos, Option.map_eq_some_iff] at h
      obtain ⟨row', hrow', rfl⟩ := h
      exact ⟨.inr rfl, fun t ht => ⟨row', hrow', ht⟩⟩
    | deleted location before =>
      simp only [undo, OrderedMap.get?_insert, Undo.id, if_pos, Option.some.injEq] at h
      subst h
      exact ⟨.inr rfl, fun t ht => by cases ht⟩
  · rw [get?_undo_of_ne hid] at h
    exact ⟨.inl h, fun t ht => ⟨row, h, ht⟩⟩

/-- Entries of other rows leave a row as it is. -/
theorem get?_foldl_undo_of_not_mem {entries : List Undo} (rows : OrderedMap TaskId Row)
    {id : TaskId} (h : id ∉ entries.map Undo.id) :
    (entries.foldl undo rows).get? id = rows.get? id := by
  induction entries generalizing rows with
  | nil => rfl
  | cons u rest ih =>
    simp only [List.map_cons, List.mem_cons, not_or] at h
    rw [List.foldl_cons, ih _ h.2, get?_undo_of_ne (Ne.symm h.1)]

/-- Entries that are undone are taken back from a row one after the other. -/
theorem content_foldl_undo (entries : List Undo) (rows : OrderedMap TaskId Row) (id : TaskId) :
    ((entries.foldl undo rows).get? id).map Row.content =
      (entries.filter fun u => u.id = id).foldl (fun content u => u.revert content)
        ((rows.get? id).map Row.content) := by
  induction entries generalizing rows with
  | nil => rfl
  | cons u rest ih =>
    rw [List.foldl_cons, ih, List.filter_cons]
    by_cases hid : u.id = id
    · subst hid
      simp [content_undo]
    · simp [hid, get?_undo_of_ne hid]

/-- A row that is there after entries have been undone was there before or stands at its own number;
if somebody holds it then he held it before. -/
theorem row_of_foldl_undo (entries : List Undo) {rows : OrderedMap TaskId Row} {id : TaskId}
    {row : Row} (h : (entries.foldl undo rows).get? id = some row) :
    (rows.get? id = some row ∨ row.record.id = id) ∧
      ∀ t, row.holder = some t → ∃ before, rows.get? id = some before ∧ before.holder = some t := by
  induction entries generalizing rows with
  | nil => exact ⟨.inl h, fun t ht => ⟨row, h, ht⟩⟩
  | cons u rest ih =>
    obtain ⟨hrow, hholder⟩ := ih h
    refine ⟨?_, fun t ht => ?_⟩
    · rcases hrow with hrow | hrow
      · exact (row_of_undo hrow).1
      · exact .inr hrow
    · obtain ⟨middle, hmiddle, ht⟩ := hholder t ht
      exact (row_of_undo hmiddle).2 t ht

/-- A transaction that undoes all its entries restores every row. -/
theorem content_undoAll (s : Store) (tx : TransactionId) (id : TaskId) :
    (s.undoAll tx).content id = s.restored tx id :=
  content_foldl_undo (s.journal tx) s.rows id

/-- A transaction that undoes all its entries and releases its rows restores every row. -/
theorem content_undoAll_release (s : Store) (tx : TransactionId) (id : TaskId) :
    ((s.undoAll tx).release tx).content id = s.restored tx id := by
  rw [content_release, content_undoAll]

end Store

end LeaseQueue
