import LeaseQueue.Proofs.CommittedView

/-!
# What the write of an outcome answers

A transaction may see its own changes and what is committed.  A deletion or a reenqueueing that
finds a row tells of what its transaction may see, and one that finds a row held elsewhere waits.
But the hold on a row is gone with the row: after a deletion that is not committed, the writes of
others do not wait, and find nothing, although they may still see the row.

Main statement: an outcome write answers what its transaction may see, exactly unless another open
transaction has deleted a row that was in the queue before.
-/

set_option autoImplicit false

namespace LeaseQueue

/-- What the journal of one row makes of it, if the row is there: it is nowhere deleted, and goes
back to a row at the same place or, if it was put in, to none. -/
theorem Rewinds.foldl_of_some {location : Location} {entries : List Undo}
    (h : Rewinds (some location) entries) (record : TaskRecord) :
    (∀ location' before, .deleted location' before ∉ entries) ∧
      ((∃ id, .inserted id ∈ entries) →
        entries.foldl (fun content u => u.revert content) (some (location, record)) = none) ∧
      ((∀ id, .inserted id ∉ entries) → ∃ before,
        entries.foldl (fun content u => u.revert content) (some (location, record)) =
          some (location, before)) := by
  generalize hplace : some location = place at h
  induction h generalizing record with
  | nil =>
    refine ⟨fun _ _ => List.not_mem_nil, ?_, fun _ => ⟨record, rfl⟩⟩
    rintro ⟨id, hmem⟩
    cases hmem
  | inserted =>
    refine ⟨fun _ _ hmem => ?_, fun _ => rfl, fun hnone => ?_⟩
    · cases List.mem_singleton.1 hmem
    · exact absurd List.mem_cons_self (hnone _)
  | @updated _ before rest _ ih =>
    obtain ⟨hdeleted, hinserted, hstays⟩ := ih before hplace
    refine ⟨fun location' before' hmem => ?_, ?_, fun hnone => ?_⟩
    · rcases List.mem_cons.1 hmem with heq | hmem
      · cases heq
      · exact hdeleted location' before' hmem
    · rintro ⟨id, hmem⟩
      rcases List.mem_cons.1 hmem with heq | hmem
      · cases heq
      · exact hinserted ⟨id, hmem⟩
    · exact hstays fun id hmem => hnone id (List.mem_cons_of_mem _ hmem)
  | deleted => cases hplace

/-- A journal leads from elsewhere to a row of the queue exactly if it tells of a deletion from the
queue and of no insertion. -/
theorem Rewinds.foldl_iff {location : Location} {entries : List Undo}
    {content : Option (Location × TaskRecord)} (h : Rewinds (content.map Prod.fst) entries)
    (hmissing : ∀ record, content ≠ some (location, record)) :
    (∃ record, entries.foldl (fun content u => u.revert content) content =
        some (location, record)) ↔
      (∃ before, .deleted location before ∈ entries) ∧ ∀ id, .inserted id ∉ entries := by
  cases content with
  | some c =>
    obtain ⟨place, record⟩ := c
    have hne : place ≠ location := by
      rintro rfl
      exact hmissing record rfl
    obtain ⟨hdeleted, hinserted, hstays⟩ := h.foldl_of_some record
    constructor
    · rintro ⟨record', hfold⟩
      exfalso
      by_cases hput : ∃ id, .inserted id ∈ entries
      · rw [hinserted hput] at hfold
        cases hfold
      · obtain ⟨before, hback⟩ := hstays fun id hmem => hput ⟨id, hmem⟩
        rw [hback, Option.some.injEq, Prod.mk.injEq] at hfold
        exact hne hfold.1
    · rintro ⟨⟨before, hmem⟩, -⟩
      exact absurd hmem (hdeleted location before)
  | none =>
    cases h with
    | nil =>
      constructor
      · rintro ⟨record, hfold⟩
        cases hfold
      · rintro ⟨⟨before, hmem⟩, -⟩
        cases hmem
    | @deleted place before rest h =>
      obtain ⟨hdeleted, hinserted, hstays⟩ := h.foldl_of_some before
      rw [List.foldl_cons, Undo.revert]
      constructor
      · rintro ⟨record, hfold⟩
        have hput : ∀ id, .inserted id ∉ rest := by
          intro id hmem
          rw [hinserted ⟨id, hmem⟩] at hfold
          cases hfold
        obtain ⟨before', hback⟩ := hstays hput
        rw [hback, Option.some.injEq, Prod.mk.injEq] at hfold
        rw [hfold.1]
        exact ⟨⟨before, List.mem_cons_self⟩, fun id hmem => hput id (by simpa using hmem)⟩
      · rintro ⟨⟨before', hmem⟩, hput⟩
        rcases List.mem_cons.1 hmem with heq | hmem
        · cases heq
          exact hstays fun id hmem => hput id (List.mem_cons_of_mem _ hmem)
        · exact absurd hmem (hdeleted location before')

namespace Store

/-- What a transaction may see of a row: what it says once all other open transactions are taken
back. -/
def seenBy (s : Store) (tx : TransactionId) (id : TaskId) : Option (Location × TaskRecord) :=
  s.viewWithout (s.journals.keys.filter fun t => t ≠ tx) id

/-- Another open transaction has deleted a row that was in the queue before it. -/
def DeletedElsewhere (s : Store) (tx : TransactionId) (location : Location) (id : TaskId) : Prop :=
  ∃ t, t ≠ tx ∧ (∃ before, .deleted location before ∈ s.entries t id) ∧
    ∀ k, .inserted k ∉ s.entries t id

/-- Another open transaction holds a row of the queue. -/
def HeldElsewhere (s : Store) (tx : TransactionId) (location : Location) (id : TaskId) : Prop :=
  ∃ row t, s.rows.get? id = some row ∧ row.location = location ∧ row.holder = some t ∧ t ≠ tx ∧
    s.isOpen t = true

/-- The write of an outcome: a deletion or a reenqueueing. -/
inductive Writes (tx : TransactionId) (location : Location) (id : TaskId) : Action → Prop
  | delete : Writes tx location id (.delete tx location id)
  | reenqueue {asOf : Instant} {delay : Duration} {fresh : Bool} :
    Writes tx location id (.reenqueue tx asOf location id delay fresh)

/-! ## What a transaction may see -/

/-- Of a row that another transaction has touched one sees what that one would restore. -/
theorem WellFormed.seenBy_of_touched {s : Store} (hs : s.WellFormed) {tx t : TransactionId}
    {id : TaskId} (ht : t ≠ tx) (hid : id ∈ s.touched t) : s.seenBy tx id = s.restored t id := by
  have hkeys : t ∈ s.journals.keys := OrderedMap.mem_keys.2 (isOpen_of_touched hid)
  have hmem : t ∈ s.journals.keys.filter fun t => t ≠ tx :=
    List.mem_filter.2 ⟨hkeys, by simpa using ht⟩
  unfold seenBy
  rw [hs.viewWithout_of_touched ((OrderedMap.nodup_keys _).filter _) hid, if_pos hmem]

/-- Of a row that no other transaction has touched one sees the row itself. -/
theorem seenBy_of_not_touched {s : Store} {tx : TransactionId} {id : TaskId}
    (h : ∀ t, t ≠ tx → id ∉ s.touched t) : s.seenBy tx id = s.content id := by
  refine viewWithout_of_not_touched fun t ht => h t ?_
  simpa using (List.mem_filter.1 ht).2

/-- A transaction sees a row that is not in the queue exactly if another one has deleted it. -/
theorem WellFormed.seenBy_iff {s : Store} (hs : s.WellFormed) {tx : TransactionId}
    {location : Location} {id : TaskId}
    (hmissing : ∀ record, s.content id ≠ some (location, record)) :
    (∃ record, s.seenBy tx id = some (location, record)) ↔ s.DeletedElsewhere tx location id := by
  by_cases howned : ∃ t, t ≠ tx ∧ id ∈ s.touched t
  · obtain ⟨t, ht, hid⟩ := howned
    rw [hs.seenBy_of_touched ht hid, restored, (hs.rewinds t id).foldl_iff hmissing]
    constructor
    · exact fun h => ⟨t, ht, h⟩
    · rintro ⟨t', -, ⟨before, hmem⟩, hput⟩
      have heq : t' = t := hs.disjoint (touched_of_mem_entries hmem) hid
      subst heq
      exact ⟨⟨before, hmem⟩, hput⟩
  · have hnone : ∀ t, t ≠ tx → id ∉ s.touched t := fun t ht hid => howned ⟨t, ht, hid⟩
    rw [seenBy_of_not_touched hnone]
    constructor
    · rintro ⟨record, hrecord⟩
      exact absurd hrecord (hmissing record)
    · rintro ⟨t, ht, ⟨before, hmem⟩, -⟩
      exact absurd (touched_of_mem_entries hmem) (hnone t ht)

/-! ## What an outcome write finds -/

/-- A row that is missed is not there in its queue. -/
theorem content_of_access_missing {s : Store} {tx : TransactionId} {location : Location}
    {id : TaskId} (h : s.access tx location id = .missing) (record : TaskRecord) :
    s.content id ≠ some (location, record) := by
  unfold content
  unfold access at h
  split at h
  · next hrow =>
    rw [hrow]
    exact fun heq => by cases heq
  · next row hrow =>
    split at h
    · split at h <;> cases h
    · next hlocation =>
      rw [hrow, Option.map_some, ne_eq, Option.some.injEq, Row.content, Prod.mk.injEq]
      exact fun heq => hlocation heq.1

/-- A row is found held elsewhere just if another transaction holds it. -/
theorem WellFormed.access_eq_heldElsewhere {s : Store} (hs : s.WellFormed) {tx : TransactionId}
    {location : Location} {id : TaskId} :
    s.access tx location id = .heldElsewhere ↔ s.HeldElsewhere tx location id := by
  unfold access
  constructor
  · intro h
    split at h
    · cases h
    · next row hrow =>
      split at h
      · next hlocation =>
        split at h
        · cases h
        · next hheld =>
          cases hholder : row.holder with
          | none => exact absurd (by rw [hholder]; rfl) hheld
          | some t =>
            refine ⟨row, t, hrow, hlocation, hholder, ?_, hs.holder_open hrow hholder⟩
            rintro rfl
            exact hheld (by rw [hholder]; simp)
      · cases h
  · rintro ⟨row, t, hrow, hlocation, hholder, ht, -⟩
    rw [hrow]
    simp [hlocation, hholder, ht]

/-- A row that a transaction may change is one that it sees. -/
theorem WellFormed.seenBy_of_granted {s : Store} (hs : s.WellFormed) {tx : TransactionId}
    {location : Location} {id : TaskId} {row : Row}
    (h : s.access tx location id = .granted row) :
    s.seenBy tx id = some (location, row.record) ∧ ¬ s.DeletedElsewhere tx location id := by
  obtain ⟨hrow, hlocation, hfree⟩ := of_access_granted h
  have hnone : ∀ t, t ≠ tx → id ∉ s.touched t := by
    intro t ht hid
    rw [hs.owned hid hrow] at hfree
    exact ht (by simpa using hfree)
  refine ⟨?_, ?_⟩
  · rw [seenBy_of_not_touched hnone, content, hrow, Option.map_some, Row.content, hlocation]
  · rintro ⟨t, ht, ⟨before, hmem⟩, -⟩
    exact hnone t ht (touched_of_mem_entries hmem)

/-- What the answer of an outcome write tells of what it found. -/
theorem Writes.answer {s : Store} {tx : TransactionId} {location : Location} {id : TaskId}
    {a : Action} (ha : Writes tx location id a) (hopen : s.isOpen tx = true) :
    ((s.perform a).2 = .written (some (.ok true)) → ∃ row, s.access tx location id = .granted row) ∧
      ((s.perform a).2 = .written (some (.ok false)) → s.access tx location id = .missing) ∧
      ((s.perform a).2 = .written none →
        s.access tx location id = .heldElsewhere ∧ (s.perform a).1 = s) := by
  cases ha with
  | delete =>
    simp only [perform, Store.delete, hopen, if_true]
    cases haccess : s.access tx location id <;> simp
  | @reenqueue asOf delay fresh =>
    simp only [perform, Store.reenqueue, hopen, if_true]
    cases deadline asOf delay with
    | error e => simp
    | ok processTime => cases haccess : s.access tx location id <;> simp

/-- An outcome write of an open transaction answers what the transaction may see, exactly unless
another open transaction has deleted the row; it does not answer while another one holds the row,
and leaves the store as it is if it waits. -/
theorem outcome_answer_iff (actions : List Action) {tx : TransactionId} {location : Location}
    {id : TaskId} {a : Action} (hopen : (empty.run actions).isOpen tx = true)
    (ha : Writes tx location id a) :
    (∀ b, ((empty.run actions).perform a).2 = .written (some (.ok b)) →
      ((b = true ↔ ∃ record, (empty.run actions).seenBy tx id = some (location, record)) ↔
        ¬ (empty.run actions).DeletedElsewhere tx location id) ∧
      ¬ (empty.run actions).HeldElsewhere tx location id) ∧
    (((empty.run actions).perform a).2 = .written none →
      (empty.run actions).HeldElsewhere tx location id ∧
        ((empty.run actions).perform a).1 = empty.run actions) := by
  have hs := wellFormed_run actions
  generalize empty.run actions = s at hs hopen
  obtain ⟨hgranted, hmissing, hwaits⟩ := ha.answer hopen
  refine ⟨fun b hanswer => ?_, fun hanswer => ?_⟩
  · cases b with
    | true =>
      obtain ⟨row, haccess⟩ := hgranted hanswer
      obtain ⟨hseen, hnot⟩ := hs.seenBy_of_granted haccess
      rw [← hs.access_eq_heldElsewhere, haccess]
      refine ⟨⟨fun _ => hnot, fun _ => ⟨fun _ => ⟨row.record, hseen⟩, fun _ => rfl⟩⟩, ?_⟩
      exact fun heq => by cases heq
    | false =>
      have haccess := hmissing hanswer
      rw [← hs.access_eq_heldElsewhere, haccess,
        hs.seenBy_iff (content_of_access_missing haccess)]
      refine ⟨⟨fun hiff hdeleted => ?_, fun hnot => ⟨fun heq => ?_, fun hdeleted => ?_⟩⟩, ?_⟩
      · exact absurd (hiff.2 hdeleted) Bool.false_ne_true
      · exact absurd heq Bool.false_ne_true
      · exact absurd hdeleted hnot
      · exact fun heq => by cases heq
  · obtain ⟨haccess, hsame⟩ := hwaits hanswer
    exact ⟨hs.access_eq_heldElsewhere.1 haccess, hsame⟩

/-- Two transactions are open next to a committed task. -/
def twoOpen : List Action := stock .epoch ++ [.begin, .begin]

/-- What `outcome_answer_iff` says of the deletion of a task that nobody holds. -/
theorem outcome_answer_of_free_row :
    ((empty.run twoOpen).perform (.delete 3 someQueue 1)).2 = .written (some (.ok true)) ∧
    ((true = true ↔ ∃ record, (empty.run twoOpen).seenBy 3 1 = some (someQueue, record)) ↔
      ¬ (empty.run twoOpen).DeletedElsewhere 3 someQueue 1) ∧
    ¬ (empty.run twoOpen).HeldElsewhere 3 someQueue 1 :=
  ⟨rfl, (outcome_answer_iff twoOpen rfl .delete).1 true rfl⟩

/-- One of the two transactions has deleted the task.  The other one still sees it, but its deletion
neither waits nor finds the task, and the task is there again once the first one is rolled back. -/
theorem outcome_lost_after_deletion :
    ((empty.run (twoOpen ++ [.delete 2 someQueue 1])).perform (.delete 3 someQueue 1)).2 =
      .written (some (.ok false)) ∧
    ¬ (false = true ↔ ∃ record,
      (empty.run (twoOpen ++ [.delete 2 someQueue 1])).seenBy 3 1 = some (someQueue, record)) ∧
    (empty.run (twoOpen ++ [.delete 2 someQueue 1, .delete 3 someQueue 1, .rollback 2])).content 1 =
      some (someQueue, ⟨1, none, 0, .epoch, .epoch, none, none⟩) := by
  refine ⟨rfl, fun h => ?_, by decide⟩
  have hseen : (empty.run (twoOpen ++ [.delete 2 someQueue 1])).seenBy 3 1 =
      some (someQueue, ⟨1, none, 0, .epoch, .epoch, none, none⟩) := by decide
  exact absurd (h.2 ⟨_, hseen⟩) Bool.false_ne_true

end Store

end LeaseQueue
