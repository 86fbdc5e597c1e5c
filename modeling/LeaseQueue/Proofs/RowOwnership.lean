import LeaseQueue.Proofs.JournalEntries

/-!
# Who may change a row

A row that a transaction has changed belongs to it until it ends: it holds the row, or the row is
gone, and no other open transaction has an entry for the row in its journal.  The rows of two open
transactions are therefore different, and the entries of one row can be read on their own, as the
way back from the row's present content.

`WellFormed` collects these facts.  They are kept by the change of one row that the transaction may
change (`Touch`) and by the end of a transaction (`Ended`), and the operations come to these.
-/

set_option autoImplicit false

namespace LeaseQueue

/-- An entry tells how the content of its row was changed. -/
inductive Undo.Explains :
    Undo → Option (Location × TaskRecord) → Option (Location × TaskRecord) → Prop
  | inserted {id : TaskId} {location : Location} {record : TaskRecord} :
    Explains (.inserted id) none (some (location, record))
  | updated {location : Location} {before record : TaskRecord} :
    Explains (.updated before) (some (location, before)) (some (location, record))
  | deleted {location : Location} {before : TaskRecord} :
    Explains (.deleted location before) (some (location, before)) none

/-- The entries of one row lead from its present place back to where it was, the latest first: a row
is deleted at most once and last, and put in at most once and first. -/
inductive Rewinds : Option Location → List Undo → Prop
  | nil {place : Option Location} : Rewinds place []
  | inserted {location : Location} {id : TaskId} : Rewinds (some location) [.inserted id]
  | updated {location : Location} {before : TaskRecord} {rest : List Undo} :
    Rewinds (some location) rest → Rewinds (some location) (.updated before :: rest)
  | deleted {location : Location} {before : TaskRecord} {rest : List Undo} :
    Rewinds (some location) rest → Rewinds none (.deleted location before :: rest)

/-- An entry that explains a change takes it back. -/
theorem Undo.Explains.revert {u : Undo} {before after : Option (Location × TaskRecord)}
    (h : u.Explains before after) : u.revert after = before := by
  cases h <;> rfl

namespace Store

/-- Every row belongs to at most one open transaction. -/
structure WellFormed (s : Store) : Prop where
  record_id : ∀ {id row}, s.rows.get? id = some row → row.record.id = id
  row_lt : ∀ {id row}, s.rows.get? id = some row → id < s.nextId
  touched_lt : ∀ {tx id}, id ∈ s.touched tx → id < s.nextId
  open_le : ∀ {tx}, s.isOpen tx = true → tx ≤ s.opened
  holder_open : ∀ {id row tx}, s.rows.get? id = some row → row.holder = some tx →
    s.isOpen tx = true
  owned : ∀ {tx id row}, id ∈ s.touched tx → s.rows.get? id = some row → row.holder = some tx
  disjoint : ∀ {tx tx' id}, id ∈ s.touched tx → id ∈ s.touched tx' → tx = tx'
  rewinds : ∀ tx id, Rewinds ((s.content id).map Prod.fst) (s.entries tx id)

/-- One row is changed by a transaction that may do so, and what its journal says of the change.
The row is left out of the journal only if it stays where it is. -/
structure Touch (s : Store) (tx : TransactionId) (id : TaskId) (noted : Option Undo)
    (s' : Store) : Prop where
  isOpen : s.isOpen tx = true
  free : ∀ {row}, s.rows.get? id = some row → row.holder.all (· == tx) = true
  new : s.rows.get? id = none → id = s.nextId
  held : ∀ {row}, s'.rows.get? id = some row → row.record.id = id ∧ row.holder = some tx
  others : ∀ {k}, k ≠ id → s'.rows.get? k = s.rows.get? k
  id_lt : id < s'.nextId
  nextId_le : s.nextId ≤ s'.nextId
  opened : s'.opened = s.opened
  isOpen_eq : ∀ t, s'.isOpen t = s.isOpen t
  journal : ∀ t, s'.journal t = if t = tx then noted.toList ++ s.journal t else s.journal t
  noted_id : ∀ {u}, noted = some u → u.id = id
  explains : ∀ {u}, noted = some u → u.Explains (s.content id) (s'.content id)
  stays : noted = none → (s'.content id).map Prod.fst = (s.content id).map Prod.fst

/-- A transaction ends: its journal is gone and it holds no row, and the rows that it has not
changed are as they were, except that they may have become free. -/
structure Ended (s : Store) (tx : TransactionId) (s' : Store) : Prop where
  isOpen : s.isOpen tx = true
  nextId : s'.nextId = s.nextId
  opened : s'.opened = s.opened
  isOpen_eq : ∀ t, s'.isOpen t = (decide (t ≠ tx) && s.isOpen t)
  journal : ∀ t, s'.journal t = if t = tx then [] else s.journal t
  record_id : ∀ {id row}, s'.rows.get? id = some row → row.record.id = id
  row_lt : ∀ {id row}, s'.rows.get? id = some row → id < s.nextId
  holder : ∀ {id row t}, s'.rows.get? id = some row → row.holder = some t →
    t ≠ tx ∧ ∃ before, s.rows.get? id = some before ∧ before.holder = some t
  others : ∀ {id}, id ∉ s.touched tx → s'.rows.get? id =
    (s.rows.get? id).map fun row => if row.holder = some tx then { row with holder := none } else row

/-! ## What the operations do to rows and journals -/

/-- The earliest of some rows is one of them. -/
theorem earlier_fold_mem (row : Row) (rows : List Row) : rows.foldl earlier row ∈ row :: rows := by
  induction rows generalizing row with
  | nil => exact List.mem_singleton.2 rfl
  | cons r rest ih =>
    rw [List.foldl_cons]
    rcases List.mem_cons.1 (ih (earlier row r)) with h | h
    · rw [h]
      unfold earlier
      split
      · exact List.mem_cons_of_mem _ List.mem_cons_self
      · exact List.mem_cons_self
    · exact List.mem_cons_of_mem _ (List.mem_cons_of_mem _ h)

/-- What is picked is one of the rows and may be picked. -/
theorem eligible_of_candidate {s : Store} {tx : TransactionId} {now : Instant}
    {location : Location} {row : Row} (h : s.candidate tx now location = some row) :
    row ∈ s.rows.values ∧ Row.eligible row tx now location = true := by
  unfold candidate at h
  split at h
  · cases h
  · next first rest heq =>
    rw [Option.some.injEq] at h
    have hmem : row ∈ first :: rest := h ▸ earlier_fold_mem first rest
    rw [← heq] at hmem
    exact List.mem_filter.1 hmem

/-- What a pick knows of the row that it takes. -/
theorem WellFormed.of_candidate {s : Store} (hs : s.WellFormed) {tx : TransactionId}
    {now : Instant} {location : Location} {row : Row}
    (h : s.candidate tx now location = some row) :
    s.rows.get? row.record.id = some row ∧ row.location = location ∧
      row.holder.all (· == tx) = true ∧ row.record.processTime.nanos ≤ now.nanos := by
  obtain ⟨hmem, heligible⟩ := eligible_of_candidate h
  obtain ⟨id, hrow⟩ := OrderedMap.mem_values.1 hmem
  simp only [Row.eligible, Bool.and_eq_true, decide_eq_true_eq] at heligible
  obtain ⟨⟨hlocation, hfree⟩, htime⟩ := heligible
  exact ⟨by rw [hs.record_id hrow]; exact hrow, hlocation, hfree, htime⟩

/-- What an outcome write knows of the row that it may change. -/
theorem of_access_granted {s : Store} {tx : TransactionId} {location : Location} {id : TaskId}
    {row : Row} (h : s.access tx location id = .granted row) :
    s.rows.get? id = some row ∧ row.location = location ∧ row.holder.all (· == tx) = true := by
  unfold access at h
  split at h
  · cases h
  · next row' hrow =>
    split at h
    · next hlocation =>
      split at h
      · next hfree =>
        cases h
        exact ⟨hrow, hlocation, hfree⟩
      · cases h
    · cases h

/-- A change of one row that the journal takes note of. -/
theorem Touch.of_note {s : Store} {tx : TransactionId} {id nextId : TaskId} {u : Undo}
    {rows : OrderedMap TaskId Row} (isOpen : s.isOpen tx = true)
    (free : ∀ {row}, s.rows.get? id = some row → row.holder.all (· == tx) = true)
    (new : s.rows.get? id = none → id = s.nextId)
    (held : ∀ {row}, rows.get? id = some row → row.record.id = id ∧ row.holder = some tx)
    (others : ∀ {k}, k ≠ id → rows.get? k = s.rows.get? k) (id_lt : id < nextId)
    (nextId_le : s.nextId ≤ nextId) (noted_id : u.id = id)
    (explains : u.Explains (s.content id) ((rows.get? id).map Row.content)) :
    Touch s tx id (some u) (note { s with nextId := nextId, rows := rows } tx u) where
  isOpen := isOpen
  free := free
  new := new
  held := held
  others := others
  id_lt := id_lt
  nextId_le := nextId_le
  opened := rfl
  isOpen_eq t := isOpen_note _ tx t u
  journal t := journal_note (s := { s with nextId := nextId, rows := rows }) isOpen u t
  noted_id h := by cases h; exact noted_id
  explains h := by cases h; exact explains
  stays h := by cases h

section Touches

variable {s : Store} {tx : TransactionId} {location : Location} {id : TaskId} {row : Row}

/-- An insertion touches the new row and notes it. -/
theorem touch_enqueued (hs : s.WellFormed) (isOpen : s.isOpen tx = true)
    (now processTime : Instant) (task : NewTask) :
    Touch s tx s.nextId (some (.inserted s.nextId))
      (note { s with
        nextId := s.nextId + 1
        rows := s.rows.insert s.nextId (added tx s.nextId now processTime location task) }
        tx (.inserted s.nextId)) := by
  have hnone : s.rows.get? s.nextId = none := by
    cases hrow : s.rows.get? s.nextId with
    | none => rfl
    | some row => exact absurd (hs.row_lt hrow) (Int.lt_irrefl _)
  refine Touch.of_note isOpen ?_ (fun _ => rfl) ?_ ?_ (Int.lt_succ s.nextId)
    (Int.le_of_lt (Int.lt_succ s.nextId)) rfl ?_
  · intro row hrow
    rw [hnone] at hrow
    cases hrow
  · intro row hrow
    rw [OrderedMap.get?_insert, if_pos rfl] at hrow
    cases hrow
    exact ⟨rfl, rfl⟩
  · intro k hk
    rw [OrderedMap.get?_insert, if_neg hk]
  · rw [content, hnone, OrderedMap.get?_insert, if_pos rfl]
    exact .inserted

/-- A noted change of a row that is there and that the transaction may change. -/
theorem Touch.of_row (hs : s.WellFormed) (isOpen : s.isOpen tx = true)
    (hrow : s.rows.get? id = some row) (hfree : row.holder.all (· == tx) = true) {u : Undo}
    {rows : OrderedMap TaskId Row}
    (held : ∀ {row'}, rows.get? id = some row' → row'.record.id = id ∧ row'.holder = some tx)
    (others : ∀ {k}, k ≠ id → rows.get? k = s.rows.get? k) (noted_id : u.id = row.record.id)
    (explains : u.Explains (some row.content) ((rows.get? id).map Row.content)) :
    Touch s tx id (some u) (note { s with rows := rows } tx u) := by
  refine Touch.of_note isOpen ?_ ?_ held others (hs.row_lt hrow) (Int.le_refl _)
    (noted_id.trans (hs.record_id hrow)) ?_
  · intro row₀ hrow₀
    rw [hrow] at hrow₀
    cases hrow₀
    exact hfree
  · intro hnone
    rw [hrow] at hnone
    cases hnone
  · rw [content, hrow]
    exact explains

/-- Another record is written into a row that the transaction may change. -/
theorem touch_rewritten (hs : s.WellFormed) (isOpen : s.isOpen tx = true)
    (hrow : s.rows.get? id = some row) (hfree : row.holder.all (· == tx) = true) {row' : Row}
    (hid : row'.record.id = row.record.id) (hlocation : row'.location = row.location)
    (hholder : row'.holder = some tx) :
    Touch s tx id (some (.updated row.record))
      (note { s with rows := s.rows.insert id row' } tx (.updated row.record)) := by
  refine Touch.of_row hs isOpen hrow hfree ?_ ?_ rfl ?_
  · intro row₀ hrow₀
    rw [OrderedMap.get?_insert, if_pos rfl] at hrow₀
    cases hrow₀
    exact ⟨hid.trans (hs.record_id hrow), hholder⟩
  · intro k hk
    rw [OrderedMap.get?_insert, if_neg hk]
  · rw [OrderedMap.get?_insert, if_pos rfl, Option.map_some, Row.content, Row.content, hlocation]
    exact .updated

/-- A pick touches the row that it leases. -/
theorem touch_counted (hs : s.WellFormed) (isOpen : s.isOpen tx = true)
    (hrow : s.rows.get? row.record.id = some row) (hfree : row.holder.all (· == tx) = true) :
    Touch s tx row.record.id none
      { s with rows := s.rows.insert row.record.id (counted tx row) } where
  isOpen := isOpen
  free h := by
    rw [hrow] at h
    cases h
    exact hfree
  new h := by
    rw [hrow] at h
    cases h
  held h := by
    simp only [OrderedMap.get?_insert, if_pos, Option.some.injEq] at h
    subst h
    exact ⟨rfl, rfl⟩
  others hk := (OrderedMap.get?_insert _ _ _ _).trans (if_neg hk)
  id_lt := hs.row_lt hrow
  nextId_le := Int.le_refl _
  opened := rfl
  isOpen_eq _ := rfl
  journal t := by
    split <;> rfl
  noted_id h := by cases h
  explains h := by cases h
  stays _ := by
    simp only [content, OrderedMap.get?_insert, if_pos, hrow, Option.map_some]
    rfl

/-- A deletion touches the row that it removes and notes it. -/
theorem touch_deleted (hs : s.WellFormed) (isOpen : s.isOpen tx = true)
    (hrow : s.rows.get? id = some row) (hfree : row.holder.all (· == tx) = true) :
    Touch s tx id (some (.deleted row.location row.record))
      (note { s with rows := s.rows.erase id } tx (.deleted row.location row.record)) := by
  refine Touch.of_row hs isOpen hrow hfree ?_ ?_ rfl ?_
  · intro row₀ hrow₀
    rw [OrderedMap.get?_erase, if_pos rfl] at hrow₀
    cases hrow₀
  · intro k hk
    rw [OrderedMap.get?_erase, if_neg hk]
  · rw [OrderedMap.get?_erase, if_pos rfl]
    exact .deleted

end Touches

/-- A row that a transaction which has ended left behind. -/
theorem row_of_release {s : Store} {tx : TransactionId} {id : TaskId} {row : Row}
    (h : (s.release tx).rows.get? id = some row) :
    ∃ before, s.rows.get? id = some before ∧ row.record = before.record ∧
      ∀ t, row.holder = some t → t ≠ tx ∧ before.holder = some t := by
  rw [get?_release, Option.map_eq_some_iff] at h
  obtain ⟨before, hbefore, rfl⟩ := h
  refine ⟨before, hbefore, ?_, fun t ht => ?_⟩
  · split <;> rfl
  · split at ht
    · cases ht
    · next hne =>
      refine ⟨?_, ht⟩
      rintro rfl
      exact hne ht

/-- A commit ends its transaction. -/
theorem ended_release {s : Store} (hs : s.WellFormed) {tx : TransactionId}
    (isOpen : s.isOpen tx = true) : Ended s tx (s.release tx) where
  isOpen := isOpen
  nextId := rfl
  opened := rfl
  isOpen_eq := isOpen_release s tx
  journal := journal_release s tx
  record_id h := by
    obtain ⟨before, hbefore, hrecord, -⟩ := row_of_release h
    rw [hrecord]
    exact hs.record_id hbefore
  row_lt h := by
    obtain ⟨before, hbefore, -⟩ := row_of_release h
    exact hs.row_lt hbefore
  holder h ht := by
    obtain ⟨before, hbefore, -, hholder⟩ := row_of_release h
    obtain ⟨hne, ht⟩ := hholder _ ht
    exact ⟨hne, before, hbefore, ht⟩
  others _ := get?_release s tx _

/-- A rollback ends its transaction. -/
theorem ended_undoAll_release {s : Store} (hs : s.WellFormed) {tx : TransactionId}
    (isOpen : s.isOpen tx = true) : Ended s tx ((s.undoAll tx).release tx) where
  isOpen := isOpen
  nextId := rfl
  opened := rfl
  isOpen_eq := isOpen_release (s.undoAll tx) tx
  journal := journal_release (s.undoAll tx) tx
  record_id h := by
    obtain ⟨before, hbefore, hrecord, -⟩ := row_of_release h
    rw [hrecord]
    rcases (row_of_foldl_undo (s.journal tx) hbefore).1 with hrow | hid
    · exact hs.record_id hrow
    · exact hid
  row_lt {id row} h := by
    by_cases htouched : id ∈ s.touched tx
    · exact hs.touched_lt htouched
    · obtain ⟨before, hbefore, -⟩ := row_of_release h
      have hsame := get?_foldl_undo_of_not_mem s.rows htouched
      exact hs.row_lt (hsame ▸ hbefore)
  holder h ht := by
    obtain ⟨middle, hmiddle, -, hholder⟩ := row_of_release h
    obtain ⟨hne, ht⟩ := hholder _ ht
    exact ⟨hne, (row_of_foldl_undo (s.journal tx) hmiddle).2 _ ht⟩
  others {id} htouched := by
    rw [get?_release]
    exact congrArg _ (get?_foldl_undo_of_not_mem s.rows htouched)

/-! ## What keeps a store well-formed -/

/-- A row that one transaction touches is not touched by another. -/
theorem Touch.not_touched {s s' : Store} {tx t : TransactionId} {id : TaskId}
    {noted : Option Undo} (h : Touch s tx id noted s') (hs : s.WellFormed) (hne : t ≠ tx) :
    id ∉ s.touched t := by
  intro htouched
  cases hrow : s.rows.get? id with
  | none => exact absurd (hs.touched_lt htouched) (h.new hrow ▸ Int.lt_irrefl _)
  | some row =>
    have hfree := h.free hrow
    rw [hs.owned htouched hrow] at hfree
    exact hne (by simpa using hfree)

/-- A touch leaves the other rows as they are. -/
theorem Touch.content_of_ne {s s' : Store} {tx : TransactionId} {id k : TaskId}
    {noted : Option Undo} (h : Touch s tx id noted s') (hk : k ≠ id) :
    s'.content k = s.content k := by
  unfold content
  rw [h.others hk]

/-- A transaction's journal for one row after a change by another transaction or of another row. -/
theorem Touch.entries_of_ne {s s' : Store} {tx t : TransactionId} {id k : TaskId}
    {noted : Option Undo} (h : Touch s tx id noted s') (hne : t ≠ tx ∨ k ≠ id) :
    s'.entries t k = s.entries t k := by
  unfold entries
  rw [h.journal]
  split
  · next ht =>
    cases noted with
    | none => rfl
    | some u =>
      have hu : u.id ≠ k := by
        rw [h.noted_id rfl]
        rcases hne with hne | hne
        · exact absurd ht hne
        · exact hne.symm
      simp [hu]
  · rfl

/-- A touch adds what it notes to the entries of the row. -/
theorem Touch.entries_self {s s' : Store} {tx : TransactionId} {id : TaskId}
    {noted : Option Undo} (h : Touch s tx id noted s') :
    s'.entries tx id = noted.toList ++ s.entries tx id := by
  unfold entries
  rw [h.journal, if_pos rfl, List.filter_append]
  cases noted with
  | none => rfl
  | some u => simp [h.noted_id rfl]

/-- A touch adds one row to those of its transaction. -/
theorem Touch.mem_touched {s s' : Store} {tx t : TransactionId} {id k : TaskId}
    {noted : Option Undo} (h : Touch s tx id noted s') (hk : k ∈ s'.touched t) :
    k ∈ s.touched t ∨ (k = id ∧ t = tx) := by
  unfold touched at hk
  rw [h.journal] at hk
  split at hk
  · next ht =>
    rw [List.map_append, List.mem_append] at hk
    rcases hk with hk | hk
    · cases noted with
      | none => cases hk
      | some u =>
        simp only [Option.toList_some, List.map_cons, List.map_nil, List.mem_singleton] at hk
        exact .inr ⟨hk.trans (h.noted_id rfl), ht⟩
    · exact .inl hk
  · exact .inl hk

/-- A touched row stays touched. -/
theorem Touch.touched_of_touched {s s' : Store} {tx t : TransactionId} {id k : TaskId}
    {noted : Option Undo} (h : Touch s tx id noted s') (hk : k ∈ s.touched t) :
    k ∈ s'.touched t := by
  unfold touched at hk ⊢
  rw [h.journal]
  split
  · rw [List.map_append]
    exact List.mem_append_right _ hk
  · exact hk

/-- A touch leaves the store well formed. -/
theorem WellFormed.touch {s s' : Store} (hs : s.WellFormed) {tx : TransactionId} {id : TaskId}
    {noted : Option Undo} (h : Touch s tx id noted s') : s'.WellFormed where
  record_id {k row} hrow := by
    by_cases hk : k = id
    · subst hk
      exact (h.held hrow).1
    · exact hs.record_id (h.others hk ▸ hrow)
  row_lt {k row} hrow := by
    by_cases hk : k = id
    · subst hk
      exact h.id_lt
    · exact Int.lt_of_lt_of_le (hs.row_lt (h.others hk ▸ hrow)) h.nextId_le
  touched_lt {t k} hk := by
    rcases h.mem_touched hk with hk | ⟨rfl, -⟩
    · exact Int.lt_of_lt_of_le (hs.touched_lt hk) h.nextId_le
    · exact h.id_lt
  open_le {t} ht := by
    rw [h.opened]
    exact hs.open_le (h.isOpen_eq t ▸ ht)
  holder_open {k row t} hrow ht := by
    rw [h.isOpen_eq]
    by_cases hk : k = id
    · subst hk
      rw [(h.held hrow).2, Option.some.injEq] at ht
      exact ht ▸ h.isOpen
    · exact hs.holder_open (h.others hk ▸ hrow) ht
  owned {t k row} htouched hrow := by
    rcases h.mem_touched htouched with htouched | ⟨rfl, rfl⟩
    · by_cases hk : k = id
      · subst hk
        by_cases ht : t = tx
        · exact ht ▸ (h.held hrow).2
        · exact absurd htouched (h.not_touched hs ht)
      · exact hs.owned htouched (h.others hk ▸ hrow)
    · exact (h.held hrow).2
  disjoint {t t' k} ht ht' := by
    rcases h.mem_touched ht with ht | ⟨hk, htx⟩
    · rcases h.mem_touched ht' with ht' | ⟨rfl, rfl⟩
      · exact hs.disjoint ht ht'
      · by_cases heq : t = t'
        · exact heq
        · exact absurd ht (h.not_touched hs heq)
    · subst hk htx
      rcases h.mem_touched ht' with ht' | ⟨-, htx⟩
      · by_cases heq : t' = t
        · exact heq.symm
        · exact absurd ht' (h.not_touched hs heq)
      · exact htx.symm
  rewinds t k := by
    by_cases hne : t ≠ tx ∨ k ≠ id
    · rw [h.entries_of_ne hne]
      by_cases hk : k = id
      · subst hk
        have ht : t ≠ tx := hne.resolve_right fun hk => hk rfl
        rw [entries_eq_nil (h.not_touched hs ht)]
        exact .nil
      · rw [h.content_of_ne hk]
        exact hs.rewinds t k
    · simp only [not_or, Decidable.not_not] at hne
      obtain ⟨rfl, rfl⟩ := hne
      have hold := hs.rewinds t k
      rw [h.entries_self]
      cases noted with
      | none =>
        rw [h.stays rfl]
        exact hold
      | some u =>
        have hexplains := h.explains rfl
        -- a new row has no entries yet, so putting it in is its first entry
        have hnew : s.content k = none → s.entries t k = [] := by
          intro hnone
          refine entries_eq_nil fun htouched => ?_
          have hk := h.new (Option.map_eq_none_iff.1 hnone)
          exact absurd (hs.touched_lt htouched) (hk ▸ Int.lt_irrefl _)
        generalize s.content k = before at *
        generalize s'.content k = after at *
        cases hexplains with
        | inserted =>
          rw [hnew rfl]
          exact .inserted
        | updated => exact .updated hold
        | deleted => exact .deleted hold

/-- The end of a transaction leaves the rows as they are that it did not touch. -/
theorem Ended.content_of_not_touched {s s' : Store} {tx : TransactionId} {id : TaskId}
    (h : Ended s tx s') (hid : id ∉ s.touched tx) : s'.content id = s.content id := by
  unfold content
  rw [h.others hid, Option.map_map]
  refine Option.map_congr fun row _ => ?_
  simp only [Function.comp_apply]
  split <;> rfl

/-- The end of a transaction lets go of its rows and of no others. -/
theorem Ended.mem_touched {s s' : Store} {tx t : TransactionId} {id : TaskId}
    (h : Ended s tx s') : id ∈ s'.touched t ↔ t ≠ tx ∧ id ∈ s.touched t := by
  unfold touched
  rw [h.journal]
  split <;> simp_all

/-- The end of a transaction leaves the entries of the others. -/
theorem Ended.entries_of_ne {s s' : Store} {tx t : TransactionId} (h : Ended s tx s')
    (ht : t ≠ tx) (id : TaskId) : s'.entries t id = s.entries t id := by
  unfold entries
  rw [h.journal, if_neg ht]

/-- After the end of a transaction only the entries of the others are left. -/
theorem Ended.mem_entries {s s' : Store} {tx t : TransactionId} {id : TaskId} {u : Undo}
    (h : Ended s tx s') (hu : u ∈ s'.entries t id) : t ≠ tx ∧ u ∈ s.entries t id := by
  obtain ⟨hne, -⟩ := h.mem_touched.1 (touched_of_mem_entries hu)
  rw [h.entries_of_ne hne] at hu
  exact ⟨hne, hu⟩

/-- The end of a transaction leaves the store well formed. -/
theorem WellFormed.ended {s s' : Store} (hs : s.WellFormed) {tx : TransactionId}
    (h : Ended s tx s') : s'.WellFormed where
  record_id := h.record_id
  row_lt hrow := h.nextId ▸ h.row_lt hrow
  touched_lt hid := h.nextId ▸ hs.touched_lt (h.mem_touched.1 hid).2
  open_le {t} ht := by
    rw [h.isOpen_eq, Bool.and_eq_true] at ht
    exact h.opened ▸ hs.open_le ht.2
  holder_open {id row t} hrow ht := by
    obtain ⟨hne, before, hbefore, hholder⟩ := h.holder hrow ht
    rw [h.isOpen_eq, Bool.and_eq_true]
    exact ⟨by simpa using hne, hs.holder_open hbefore hholder⟩
  owned {t id row} hid hrow := by
    obtain ⟨hne, hid⟩ := h.mem_touched.1 hid
    have hother : id ∉ s.touched tx := fun htx => hne (hs.disjoint hid htx)
    rw [h.others hother, Option.map_eq_some_iff] at hrow
    obtain ⟨before, hbefore, rfl⟩ := hrow
    have hholder := hs.owned hid hbefore
    rw [hholder, if_neg (by simpa using hne)]
    exact hholder
  disjoint hid hid' := hs.disjoint (h.mem_touched.1 hid).2 (h.mem_touched.1 hid').2
  rewinds t id := by
    by_cases hid : id ∈ s'.touched t
    · obtain ⟨hne, hid⟩ := h.mem_touched.1 hid
      rw [h.entries_of_ne hne, h.content_of_not_touched fun htx => hne (hs.disjoint hid htx)]
      exact hs.rewinds t id
    · rw [entries_eq_nil hid]
      exact .nil

end Store

end LeaseQueue
