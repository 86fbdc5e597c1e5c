import Mathlib.Data.List.Induction
import LeaseQueue.Proofs.CommittedView

/-!
# A row is the record of its history

Every action that changes a row tells of it: with its answer it says which row it was and what
became of it (`RowEvent`).  The events of any set of open transactions, together with those of the
committed ones, say what these transactions see: a row that one of them owns is what the events make
of it, and any other row is what is committed.  A commit moves a transaction from one side of this
statement to the other, so it holds for every interleaving (`Chronicle`).

Main statement: once no transaction is open, the rows are the record of the committed events, and of
nothing else.
-/

set_option autoImplicit false

namespace LeaseQueue

open Text

/-- What an action that changes a row tells of it. -/
inductive RowEvent
  | entered (id : TaskId) (now processTime : Instant) (location : Location) (task : NewTask)
  | picked (id : TaskId) (processTime : Instant)
  | rescheduled (id : TaskId) (processTime : Instant) (fresh : Bool)
  | deleted (id : TaskId)

namespace RowEvent

/-- The row that an event is about. -/
def id : RowEvent → TaskId
  | entered id .. => id
  | picked id _ => id
  | rescheduled id .. => id
  | deleted id => id

/-- Whether the row is put in. -/
def isEntry : RowEvent → Bool
  | entered .. => true
  | _ => false

/-- Whether the row is picked. -/
def isPick : RowEvent → Bool
  | picked .. => true
  | _ => false

/-- Whether the attempts of the row are counted from zero again. -/
def isStart : RowEvent → Bool
  | entered .. => true
  | rescheduled _ _ fresh => fresh
  | _ => false

/-- The process time that the row is given. -/
def time? : RowEvent → Option Instant
  | entered _ _ processTime _ _ => some processTime
  | picked _ processTime => some processTime
  | rescheduled _ processTime _ => some processTime
  | deleted _ => none

/-- What the event makes of the content of its row. -/
def apply : RowEvent → Option (Location × TaskRecord) → Option (Location × TaskRecord)
  | entered id now processTime location task, _ => some (location, {
      id := id
      payload := task.payload
      attempts := 0
      created := now
      processTime := processTime
      correlationId := task.correlationId
      actor := task.actor })
  | picked _ processTime, content => content.map fun c => (c.1, { c.2 with
      attempts := nextAttempts c.2.attempts
      processTime := processTime })
  | rescheduled _ processTime fresh, content => content.map fun c => (c.1, { c.2 with
      processTime := processTime
      attempts := if fresh then 0 else c.2.attempts })
  | deleted _, _ => none

end RowEvent

/-- The events of one row. -/
def eventsOn (id : TaskId) (events : List RowEvent) : List RowEvent :=
  events.filter fun e => e.id = id

/-- What events make of a row that is not there at first. -/
def replay (events : List RowEvent) (id : TaskId) : Option (Location × TaskRecord) :=
  (eventsOn id events).foldl (fun content e => e.apply content) none

/-- How often a row was picked since it was put in or started afresh. -/
def picksSinceStart (events : List RowEvent) (id : TaskId) : Nat :=
  ((eventsOn id events).reverse.takeWhile fun e => !e.isStart).countP RowEvent.isPick

/-- The process time that a row was given last. -/
def lastTime (events : List RowEvent) (id : TaskId) : Option Instant :=
  (eventsOn id events).reverse.findSome? RowEvent.time?

/-- A row is put in before anything else happens to it, with a larger identifier than all rows
before it. -/
def EntriesFirst (events : List RowEvent) : Prop :=
  events.Pairwise fun e f => f.isEntry = true → e.id < f.id

/-! ## What a list of events makes of a row -/

/-- One more event is one of its own row only. -/
theorem eventsOn_append (events : List RowEvent) (e : RowEvent) (id : TaskId) :
    eventsOn id (events ++ [e]) =
      if e.id = id then eventsOn id events ++ [e] else eventsOn id events := by
  unfold eventsOn
  rw [List.filter_append]
  by_cases h : e.id = id <;> simp [h]

/-- One more event changes its own row only. -/
theorem replay_append (events : List RowEvent) (e : RowEvent) (id : TaskId) :
    replay (events ++ [e]) id =
      if e.id = id then e.apply (replay events id) else replay events id := by
  unfold replay
  rw [eventsOn_append]
  split
  · rw [List.foldl_append, List.foldl_cons, List.foldl_nil]
  · rfl

/-- A start sets the count of picks of its row back, and a pick adds one to it. -/
theorem picksSinceStart_append (events : List RowEvent) (e : RowEvent) (id : TaskId) :
    picksSinceStart (events ++ [e]) id =
      if e.id = id then
        if e.isStart then 0
        else picksSinceStart events id + if e.isPick then 1 else 0
      else picksSinceStart events id := by
  unfold picksSinceStart
  rw [eventsOn_append]
  by_cases hid : e.id = id
  · by_cases hstart : e.isStart = true
    · simp [hid, hstart]
    · simp [hid, hstart, List.countP_cons]
  · simp [hid]

/-- One more event may give its own row another time. -/
theorem lastTime_append (events : List RowEvent) (e : RowEvent) (id : TaskId) :
    lastTime (events ++ [e]) id =
      if e.id = id then e.time?.or (lastTime events id) else lastTime events id := by
  unfold lastTime
  rw [eventsOn_append]
  by_cases hid : e.id = id
  · cases htime : e.time? <;> simp [hid, htime]
  · simp [hid]

/-- If entries come first then so they do before the last event, which is the first of its row if it
is an entry. -/
theorem EntriesFirst.of_append {events : List RowEvent} {e : RowEvent}
    (h : EntriesFirst (events ++ [e])) :
    EntriesFirst events ∧ (e.isEntry = true → ∀ f ∈ events, f.id < e.id) := by
  obtain ⟨hevents, -, hlast⟩ := List.pairwise_append.1 h
  exact ⟨hevents, fun he f hf => hlast f hf e (List.mem_singleton.2 rfl) he⟩

/-- A row is there exactly if it was put in and not deleted. -/
theorem EntriesFirst.replay_isSome_iff {events : List RowEvent} (h : EntriesFirst events)
    (id : TaskId) :
    (replay events id).isSome = true ↔
      (∃ e ∈ events, e.isEntry = true ∧ e.id = id) ∧ .deleted id ∉ events := by
  induction events using List.reverseRecOn with
  | nil => simp [replay, eventsOn]
  | append_singleton events e ih =>
    obtain ⟨hevents, hentry⟩ := h.of_append
    have ih := ih hevents
    rw [replay_append]
    by_cases hid : e.id = id
    · rw [if_pos hid]
      cases e with
      | entered k now processTime location task =>
        -- a row with this identifier was not there before, so it was not deleted either
        have hnot : .deleted id ∉ events := by
          intro hmem
          have hlt := hentry rfl _ hmem
          rw [hid] at hlt
          exact absurd hlt (Int.lt_irrefl id)
        simp [RowEvent.apply, RowEvent.isEntry, hnot, hid]
      | deleted k =>
        have hk : k = id := hid
        simp [RowEvent.apply, hk]
      | _ => simpa [RowEvent.apply, RowEvent.isEntry, or_and_right, exists_or] using ih
    · have hne : RowEvent.deleted id ≠ e := by
        rintro rfl
        exact hid rfl
      rw [if_neg hid, ih]
      simp [hne, hid, or_and_right, exists_or]

/-- Identifiers that are given are never given again. -/
theorem EntriesFirst.increasing {events : List RowEvent} (h : EntriesFirst events) :
    (events.filterMap fun e => if e.isEntry then some e.id else none).Pairwise (· < ·) := by
  refine List.pairwise_filterMap.2 (h.imp ?_)
  intro e f hlt k hk l hl
  simp only [Option.ite_none_right_eq_some, Option.some.injEq] at hk hl
  rw [← hk.2, ← hl.2]
  exact hlt hl.1

/-- What the events say of a row that they leave behind. -/
structure RecordedIn (events : List RowEvent) (id : TaskId) (location : Location)
    (record : TaskRecord) : Prop where
  /-- The row has what it was put in with. -/
  entered : ∃ now processTime task, .entered id now processTime location task ∈ events ∧
    record.id = id ∧ record.payload = task.payload ∧ record.created = now ∧
    record.correlationId = task.correlationId ∧ record.actor = task.actor
  attempts : record.attempts = min maxWord32 (picksSinceStart events id)
  processTime : lastTime events id = some record.processTime

/-- What a replay makes of a row is recorded in the events. -/
theorem recordedIn_of_replay {events : List RowEvent} {id : TaskId} {location : Location}
    {record : TaskRecord} (h : replay events id = some (location, record)) :
    RecordedIn events id location record := by
  induction events using List.reverseRecOn generalizing location record with
  | nil => cases h
  | append_singleton events e ih =>
    rw [replay_append] at h
    have later : ∀ {r : TaskRecord}, RecordedIn events id location r →
        ∃ now processTime task, .entered id now processTime location task ∈ events ++ [e] ∧
          r.id = id ∧ r.payload = task.payload ∧ r.created = now ∧
          r.correlationId = task.correlationId ∧ r.actor = task.actor := by
      intro r hr
      obtain ⟨now, processTime, task, hmem, hrest⟩ := hr.entered
      exact ⟨now, processTime, task, List.mem_append_left _ hmem, hrest⟩
    by_cases hid : e.id = id
    · rw [if_pos hid] at h
      cases e with
      | entered k now processTime place task =>
        cases h
        have hk : k = id := hid
        subst hk
        refine ⟨⟨now, processTime, task, by simp, rfl, rfl, rfl, rfl, rfl⟩, ?_, ?_⟩
        · simp [picksSinceStart_append, RowEvent.id, RowEvent.isStart]
        · simp [lastTime_append, RowEvent.id, RowEvent.time?]
      | deleted k => cases h
      | picked k processTime =>
        obtain ⟨⟨place, before⟩, hbefore, hafter⟩ := Option.map_eq_some_iff.1 h
        cases hafter
        have hold := ih hbefore
        have hentered := later hold
        refine ⟨hentered, ?_, ?_⟩
        · rw [picksSinceStart_append, if_pos hid, hold.attempts]
          simp only [RowEvent.isStart, RowEvent.isPick, nextAttempts, maxWord32]
          simp
          omega
        · simp [lastTime_append, hid, RowEvent.time?]
      | rescheduled k processTime fresh =>
        obtain ⟨⟨place, before⟩, hbefore, hafter⟩ := Option.map_eq_some_iff.1 h
        cases hafter
        have hold := ih hbefore
        have hentered := later hold
        refine ⟨hentered, ?_, ?_⟩
        · cases fresh with
          | true => simp [picksSinceStart_append, hid, RowEvent.isStart]
          | false =>
            simp [picksSinceStart_append, hid, RowEvent.isStart, RowEvent.isPick, hold.attempts]
        · simp [lastTime_append, hid, RowEvent.time?]
    · rw [if_neg hid] at h
      have hold := ih h
      refine ⟨later hold, ?_, ?_⟩
      · rw [picksSinceStart_append, if_neg hid, hold.attempts]
      · rw [lastTime_append, if_neg hid, hold.processTime]

namespace Store

/-- What an action with its answer tells of a row. -/
def eventOf : Action → Answer → Option RowEvent
  | .enqueue _ now location task, .enqueued (.ok id) =>
    match deadline now task.delay with
    | .ok processTime => some (.entered id now processTime location task)
    | .error _ => none
  | .pick .., .picked (.ok (some record)) => some (.picked record.id record.processTime)
  | .delete _ _ id, .written (some (.ok true)) => some (.deleted id)
  | .reenqueue _ asOf _ id delay fresh, .written (some (.ok true)) =>
    match deadline asOf delay with
    | .ok processTime => some (.rescheduled id processTime fresh)
    | .error _ => none
  | _, _ => none

/-- The transaction that an action commits. -/
def committedBy : Action → Answer → Option TransactionId
  | .commit tx, .ended (.ok _) => some tx
  | _, _ => none

/-- The identifier that the answer of an insertion gives. -/
def Answer.enqueued? : Answer → Option TaskId
  | .enqueued (.ok id) => some id
  | _ => none

/-- The transactions of a history that were committed. -/
def committedTransactions (history : List Call) : List TransactionId :=
  history.filterMap fun c => committedBy c.action c.answer

/-- The identifiers that the insertions of a history gave, in their order. -/
def enqueuedIds (history : List Call) : List TaskId :=
  history.filterMap fun c => c.answer.enqueued?

/-- The events of some transactions of a history. -/
def eventsOf (history : List Call) (txs : TransactionId → Bool) : List RowEvent :=
  (history.filter fun c => c.action.transaction?.any txs).filterMap fun c =>
    eventOf c.action c.answer

/-- The events of the committed transactions of a history. -/
def committedEvents (history : List Call) : List RowEvent :=
  eventsOf history fun tx => tx ∈ committedTransactions history

/-- The rows of a store are the record of the committed events of a history. -/
structure RecordsHistory (history : List Call) (s : Store) : Prop where
  /-- The stored rows are those that were put in and not deleted. -/
  stored : ∀ id, (s.content id).isSome = true ↔
    (∃ e ∈ committedEvents history, e.isEntry = true ∧ e.id = id) ∧
      .deleted id ∉ committedEvents history
  /-- No identifier is given twice, whatever became of its transaction. -/
  increasing : (enqueuedIds history).Pairwise (· < ·)
  recorded : ∀ id location record, s.content id = some (location, record) →
    RecordedIn (committedEvents history) id location record

/-! ## What one action tells -/

/-- What an action does to rows and journals, and what it tells. -/
inductive Told (s : Store) : Action → Answer → Store → Prop
  | nothing {a : Action} {answer : Answer} {s' : Store} (hevent : eventOf a answer = none)
    (hcommit : committedBy a answer = none) (hjournal : ∀ t, s'.journal t = s.journal t)
    (hrows : s'.rows = s.rows) (hid : s'.nextId = s.nextId)
    (hopen : ∀ {t}, s'.isOpen t = true → s.isOpen t = true ∨ s.opened < t)
    (hopened : s.opened ≤ s'.opened) (hcommitted : ∀ id, s'.committed id = s.committed id) :
    Told s a answer s'
  | event {a : Action} {answer : Answer} {s' : Store} {e : RowEvent} {tx : TransactionId}
    {u : Undo} (hevent : eventOf a answer = some e) (hcommit : committedBy a answer = none)
    (ha : a.transaction? = some tx) (h : Touch s tx e.id (some u) s')
    (hcontent : s'.content e.id = e.apply (s.content e.id))
    (hentry : e.isEntry = true → e.id = s.nextId) : Told s a answer s'
  | commit {tx : TransactionId} {s' : Store} (h : Ended s tx s')
    (hcontent : ∀ id, s'.content id = s.content id) : Told s (.commit tx) (.ended (.ok ())) s'
  | takenBack {a : Action} {answer : Answer} {tx : TransactionId} {s' : Store}
    (hevent : eventOf a answer = none) (hcommit : committedBy a answer = none)
    (h : Ended s tx s') (hcommitted : ∀ id, s'.committed id = s.committed id) :
    Told s a answer s'

/-- An answer that tells of no change is no event. -/
theorem eventOf_eq_none {a : Action} {answer : Answer} (h : answer.tellsChange = false) :
    eventOf a answer = none := by
  unfold eventOf
  split <;> first | rfl | cases h

/-- An answer that tells of no change commits nothing. -/
theorem committedBy_eq_none {a : Action} {answer : Answer} (h : answer.tellsChange = false) :
    committedBy a answer = none := by
  unfold committedBy
  split <;> first | rfl | cases h

/-- The content of a row after its record was written anew. -/
theorem content_rewritten {s : Store} {id : TaskId} {tx : TransactionId} {u : Undo} {row' : Row} :
    (note { s with rows := s.rows.insert id row' } tx u).content id = some row'.content := by
  rw [content_note, content_insert, if_pos rfl]

/-- What a step does is what its answer tells, unless a lease has left the calendar. -/
theorem Step.told {s s' : Store} {a : Action} {answer : Answer} (hs : s.WellFormed)
    (h : Step s a answer s') (hlease : answer.overflowsLease = false) : Told s a answer s' := by
  cases h with
  | idle h =>
    exact .nothing (eventOf_eq_none h) (committedBy_eq_none h) (fun _ => rfl) rfl rfl .inl
      (Nat.le_refl _) fun _ => rfl
  | outage on =>
    exact .nothing rfl rfl (fun _ => rfl) rfl rfl .inl (Nat.le_refl _) fun _ => rfl
  | begun =>
    refine .nothing rfl rfl hs.journal_opening rfl rfl (fun {t} ht => ?_) (Nat.le_succ _)
      hs.committed_opening
    have ht : s.opening.isOpen t = true := ht
    rw [isOpen_opening, Bool.or_eq_true, decide_eq_true_eq] at ht
    rcases ht with rfl | ht
    · exact .inr (Nat.lt_succ_self _)
    · exact .inl ht
  | @enqueued tx now processTime location task isOpen hdeadline =>
    refine .event (e := .entered s.nextId now processTime location task) ?_ rfl rfl
      (touch_enqueued hs isOpen now processTime task) ?_ fun _ => rfl
    · simp only [eventOf, hdeadline]
    · rw [content_note, content_insert, RowEvent.id, if_pos rfl]
      rfl
  | @picked tx now processTime location lease row isOpen hcandidate =>
    obtain ⟨hrow, -, hfree, -⟩ := hs.of_candidate hcandidate
    refine .event (e := .picked row.record.id processTime) rfl rfl rfl
      (touch_rewritten hs isOpen hrow hfree rfl rfl rfl) ?_ fun h => by cases h
    rw [RowEvent.id, content_rewritten, content, hrow]
    rfl
  | counted _ _ hdeadline =>
    rw [eq_of_deadline_error hdeadline] at hlease
    cases hlease
  | @deleted tx location id row isOpen haccess =>
    obtain ⟨hrow, -, hfree⟩ := of_access_granted haccess
    refine .event (e := .deleted id) rfl rfl rfl (touch_deleted hs isOpen hrow hfree) ?_
      fun h => by cases h
    rw [content_note, content, OrderedMap.get?_erase, RowEvent.id, if_pos rfl]
    rfl
  | @reenqueued tx asOf processTime location id delay fresh row isOpen hdeadline haccess =>
    obtain ⟨hrow, -, hfree⟩ := of_access_granted haccess
    refine .event (e := .rescheduled id processTime fresh) ?_ rfl rfl
      (touch_rewritten hs isOpen hrow hfree rfl rfl rfl) ?_ fun h => by cases h
    · simp only [eventOf, hdeadline]
    · rw [RowEvent.id, content_rewritten, content, hrow]
      rfl
  | committed isOpen => exact .commit (ended_release hs isOpen) (content_release s _)
  | rolledBack isOpen =>
    have hended := ended_undoAll_release hs isOpen
    exact .takenBack rfl rfl hended
      (hended.committed_of_takenBack hs (content_undoAll_release s _))
  | abandoned isOpen =>
    have hended := ended_undoAll_release hs isOpen
    exact .takenBack rfl rfl hended
      (hended.committed_of_takenBack hs (content_undoAll_release s _))

/-- An insertion that answers with an identifier tells of it. -/
theorem Step.enqueued?_eq {s s' : Store} {a : Action} {answer : Answer} (h : Step s a answer s') :
    answer.enqueued? = (eventOf a answer).bind fun e => if e.isEntry then some e.id else none := by
  cases h with
  | idle h =>
    rw [eventOf_eq_none h, Option.bind_none]
    unfold Answer.enqueued?
    split
    · cases h
    · rfl
  | enqueued isOpen hdeadline =>
    simp [Answer.enqueued?, eventOf, hdeadline, RowEvent.isEntry, RowEvent.id]
  | reenqueued isOpen hdeadline => simp [Answer.enqueued?, eventOf, hdeadline, RowEvent.isEntry]
  | _ => rfl

/-! ## Histories that are told call by call -/

/-- All events of a history, whatever became of their transactions. -/
def allEvents (history : List Call) : List RowEvent :=
  history.filterMap fun c => eventOf c.action c.answer

/-- The events of the committed transactions of a history and of some others. -/
def eventsWith (history : List Call) (txs : TransactionId → Bool) : List RowEvent :=
  eventsOf history fun t => decide (t ∈ committedTransactions history) || txs t

/-- Transactions that have not ended. -/
def Unended (s : Store) (txs : TransactionId → Bool) : Prop :=
  ∀ t, txs t = true → s.isOpen t = true ∨ s.opened < t

/-- A history tells what every set of open transactions sees, on top of what is committed. -/
structure Chronicle (history : List Call) (s : Store) : Prop where
  ended : ∀ tx ∈ committedTransactions history, ¬ s.isOpen tx = true ∧ tx ≤ s.opened
  entriesFirst : EntriesFirst (allEvents history)
  id_lt : ∀ e ∈ allEvents history, e.id < s.nextId
  owned : ∀ {txs tx id}, s.Unended txs → txs tx = true → id ∈ s.touched tx →
    replay (eventsWith history txs) id = s.content id
  others : ∀ {txs id}, s.Unended txs → (∀ tx, txs tx = true → id ∉ s.touched tx) →
    replay (eventsWith history txs) id = s.committed id

/-- One more call adds its event if its transaction is among those looked at. -/
theorem eventsOf_append (history : List Call) (c : Call) (txs : TransactionId → Bool) :
    eventsOf (history ++ [c]) txs =
      if c.action.transaction?.any txs then
        eventsOf history txs ++ (eventOf c.action c.answer).toList
      else eventsOf history txs := by
  unfold eventsOf
  rw [List.filter_append, List.filterMap_append]
  by_cases h : c.action.transaction?.any txs = true
  · cases hevent : eventOf c.action c.answer <;> simp [h, hevent]
  · simp [h]

/-- One more call adds its event. -/
theorem allEvents_append (history : List Call) (c : Call) :
    allEvents (history ++ [c]) = allEvents history ++ (eventOf c.action c.answer).toList := by
  unfold allEvents
  rw [List.filterMap_append]
  cases hevent : eventOf c.action c.answer <;> simp [hevent]

/-- One more call that is no event adds nothing. -/
theorem allEvents_append_of_silent (history : List Call) {c : Call}
    (hevent : eventOf c.action c.answer = none) :
    allEvents (history ++ [c]) = allEvents history := by
  rw [allEvents_append, hevent, Option.toList_none, List.append_nil]

/-- One more call adds the transaction that it commits. -/
theorem committedTransactions_append (history : List Call) (c : Call) :
    committedTransactions (history ++ [c]) =
      committedTransactions history ++ (committedBy c.action c.answer).toList := by
  unfold committedTransactions
  rw [List.filterMap_append]
  cases hcommit : committedBy c.action c.answer <;> simp [hcommit]

/-- A call that tells of no row and commits nothing tells nothing. -/
theorem eventsWith_append_of_silent {history : List Call} {c : Call}
    (hevent : eventOf c.action c.answer = none) (hcommit : committedBy c.action c.answer = none)
    (txs : TransactionId → Bool) : eventsWith (history ++ [c]) txs = eventsWith history txs := by
  unfold eventsWith
  rw [committedTransactions_append, hcommit, Option.toList_none, List.append_nil, eventsOf_append,
    hevent, Option.toList_none, List.append_nil, ite_self]

/-- A commit turns its transaction into a committed one. -/
theorem eventsWith_append_of_commit {history : List Call} {c : Call} {tx : TransactionId}
    (hevent : eventOf c.action c.answer = none)
    (hcommit : committedBy c.action c.answer = some tx) (txs : TransactionId → Bool) :
    eventsWith (history ++ [c]) txs = eventsWith history fun t => decide (t = tx) || txs t := by
  unfold eventsWith
  rw [committedTransactions_append, hcommit, eventsOf_append, hevent, Option.toList_none,
    List.append_nil, ite_self]
  congr 1
  funext t
  simp [Bool.or_assoc]

/-- An event counts for those who see its transaction. -/
theorem replay_eventsWith_append_of_event {history : List Call} {c : Call} {e : RowEvent}
    {tx : TransactionId} (hevent : eventOf c.action c.answer = some e)
    (hcommit : committedBy c.action c.answer = none) (ha : c.action.transaction? = some tx)
    (hended : tx ∉ committedTransactions history) (txs : TransactionId → Bool) (id : TaskId) :
    replay (eventsWith (history ++ [c]) txs) id =
      if txs tx = true ∧ e.id = id then e.apply (replay (eventsWith history txs) id)
      else replay (eventsWith history txs) id := by
  unfold eventsWith
  rw [committedTransactions_append, hcommit, Option.toList_none, List.append_nil, eventsOf_append,
    hevent, ha]
  by_cases htx : txs tx = true
  · simp [hended, htx, replay_append]
  · simp [hended, htx]

/-- The first change of a row finds what is committed, and every later one what its own transaction
made of it. -/
theorem Chronicle.replay_of_touch {history : List Call} {s s' : Store} (hs : s.WellFormed)
    (h : Chronicle history s) {txs : TransactionId → Bool} (htxs : s.Unended txs)
    {tx : TransactionId} (htx : txs tx = true) {id : TaskId} {noted : Option Undo}
    (htouch : Touch s tx id noted s') : replay (eventsWith history txs) id = s.content id := by
  by_cases hid : id ∈ s.touched tx
  · exact h.owned htxs htx hid
  · have hnone : ∀ t, id ∉ s.touched t := by
      intro t
      by_cases ht : t = tx
      · exact ht ▸ hid
      · exact htouch.not_touched hs ht
    rw [h.others htxs fun t _ => hnone t, committed_of_not_touched hnone]

/-- A call that tells nothing leaves everything as it was told, if it leaves the rows of those
transactions alone that may be followed afterwards. -/
theorem Chronicle.silent {history : List Call} {s s' : Store} {a : Action} {answer : Answer}
    (h : Chronicle history s) (hevent : eventOf a answer = none)
    (hcommit : committedBy a answer = none) (hid : s'.nextId = s.nextId)
    (hcommitted : ∀ id, s'.committed id = s.committed id)
    (hback : ∀ {txs}, s'.Unended txs → s.Unended txs)
    (hclosed : ∀ {t}, ¬ s.isOpen t = true → t ≤ s.opened → ¬ s'.isOpen t = true ∧ t ≤ s'.opened)
    (hmine : ∀ {t id}, id ∈ s'.touched t → id ∈ s.touched t ∧ s'.content id = s.content id)
    (hkept : ∀ {txs t id}, s'.Unended txs → txs t = true → id ∈ s.touched t →
      id ∈ s'.touched t) : Chronicle (history ++ [⟨s, a, answer, s'⟩]) s' := by
  constructor
  case ended =>
    rw [committedTransactions_append, hcommit, Option.toList_none, List.append_nil]
    intro t ht
    obtain ⟨hnot, hle⟩ := h.ended t ht
    exact hclosed hnot hle
  case entriesFirst =>
    rw [allEvents_append_of_silent _ hevent]
    exact h.entriesFirst
  case id_lt =>
    rw [allEvents_append_of_silent _ hevent, hid]
    exact h.id_lt
  case owned =>
    intro txs t id htxs ht hmem
    obtain ⟨hmem, hcontent⟩ := hmine hmem
    rw [eventsWith_append_of_silent hevent hcommit, hcontent]
    exact h.owned (hback htxs) ht hmem
  case others =>
    intro txs id htxs hnone
    rw [eventsWith_append_of_silent hevent hcommit, hcommitted]
    exact h.others (hback htxs) fun t ht hmem => hnone t ht (hkept htxs ht hmem)

/-- A call that changes nothing but what is open continues a chronicle. -/
theorem Chronicle.nothing {history : List Call} {s s' : Store} {a : Action} {answer : Answer}
    (h : Chronicle history s) (hevent : eventOf a answer = none)
    (hcommit : committedBy a answer = none) (hjournal : ∀ t, s'.journal t = s.journal t)
    (hrows : s'.rows = s.rows) (hid : s'.nextId = s.nextId)
    (hopen : ∀ {t}, s'.isOpen t = true → s.isOpen t = true ∨ s.opened < t)
    (hopened : s.opened ≤ s'.opened) (hcommitted : ∀ id, s'.committed id = s.committed id) :
    Chronicle (history ++ [⟨s, a, answer, s'⟩]) s' := by
  have htouched : ∀ t, s'.touched t = s.touched t := fun t => by
    unfold touched
    rw [hjournal]
  have hcontent : ∀ id, s'.content id = s.content id := fun id => by
    unfold content
    rw [hrows]
  refine h.silent hevent hcommit hid hcommitted ?_ ?_ ?_ ?_
  · intro txs htxs t ht
    rcases htxs t ht with ht | ht
    · exact hopen ht
    · exact .inr (Nat.lt_of_le_of_lt hopened ht)
  · intro t hclosed hle
    refine ⟨fun ht => ?_, Nat.le_trans hle hopened⟩
    rcases hopen ht with ht | ht
    · exact hclosed ht
    · exact absurd hle (Nat.not_le_of_lt ht)
  · exact fun {t id} hmem => ⟨htouched t ▸ hmem, hcontent id⟩
  · exact fun {_ t _} _ _ hmem => (htouched t).symm ▸ hmem

/-- A call that changes one row continues a chronicle by its event. -/
theorem Chronicle.event {history : List Call} {s s' : Store} {a : Action} {answer : Answer}
    {e : RowEvent} {tx : TransactionId} {u : Undo} (hs : s.WellFormed) (h : Chronicle history s)
    (hevent : eventOf a answer = some e) (hcommit : committedBy a answer = none)
    (ha : a.transaction? = some tx) (htouch : Touch s tx e.id (some u) s')
    (hcontent : s'.content e.id = e.apply (s.content e.id))
    (hentry : e.isEntry = true → e.id = s.nextId) :
    Chronicle (history ++ [⟨s, a, answer, s'⟩]) s' := by
  have hnot : tx ∉ committedTransactions history := fun hmem => (h.ended tx hmem).1 htouch.isOpen
  have hback : ∀ {txs}, s'.Unended txs → s.Unended txs := by
    intro txs htxs t ht
    rw [← htouch.isOpen_eq, ← htouch.opened]
    exact htxs t ht
  constructor
  case ended =>
    rw [committedTransactions_append, hcommit, Option.toList_none, List.append_nil]
    intro t ht
    rw [htouch.isOpen_eq, htouch.opened]
    exact h.ended t ht
  case entriesFirst =>
    rw [allEvents_append, hevent]
    refine List.pairwise_append.2 ⟨h.entriesFirst, List.pairwise_singleton _ _, ?_⟩
    intro f hf e' he' hentry'
    cases List.mem_singleton.1 he'
    rw [hentry hentry']
    exact h.id_lt f hf
  case id_lt =>
    rw [allEvents_append, hevent]
    intro f hf
    rcases List.mem_append.1 hf with hf | hf
    · exact Int.lt_of_lt_of_le (h.id_lt f hf) htouch.nextId_le
    · cases List.mem_singleton.1 hf
      exact htouch.id_lt
  case owned =>
    intro txs t id htxs ht hid
    rw [replay_eventsWith_append_of_event hevent hcommit ha hnot]
    by_cases heq : e.id = id
    · subst heq
      -- the row now belongs to the transaction that acts, so nobody else may have it
      by_cases htx : txs tx = true
      · rw [if_pos ⟨htx, rfl⟩, h.replay_of_touch hs (hback htxs) htx htouch, hcontent]
      · rcases htouch.mem_touched hid with hid | ⟨-, rfl⟩
        · have hne : t ≠ tx := fun heq => htx (heq ▸ ht)
          exact absurd hid (htouch.not_touched hs hne)
        · exact absurd ht htx
    · rw [if_neg fun hand => heq hand.2, htouch.content_of_ne (Ne.symm heq)]
      rcases htouch.mem_touched hid with hid | ⟨hid, -⟩
      · exact h.owned (hback htxs) ht hid
      · exact absurd hid.symm heq
  case others =>
    intro txs id htxs hnone
    rw [replay_eventsWith_append_of_event hevent hcommit ha hnot]
    have hself : ¬ (txs tx = true ∧ e.id = id) := by
      rintro ⟨htx, rfl⟩
      refine hnone tx htx ?_
      unfold touched
      rw [htouch.journal, if_pos rfl]
      simp [htouch.noted_id rfl]
    rw [if_neg hself, htouch.committed_eq hs]
    exact h.others (hback htxs) fun t ht hid => hnone t ht (htouch.touched_of_touched hid)

/-- A commit continues a chronicle: the events of its transaction are those of the rows now. -/
theorem Chronicle.commit {history : List Call} {s s' : Store} {tx : TransactionId}
    (hs : s.WellFormed) (h : Chronicle history s) (hended : Ended s tx s')
    (hcontent : ∀ id, s'.content id = s.content id) :
    Chronicle (history ++ [⟨s, .commit tx, .ended (.ok ()), s'⟩]) s' := by
  -- what is said afterwards of some transactions was said before of them and of this one
  have hback : ∀ {txs}, s'.Unended txs → s.Unended fun t => decide (t = tx) || txs t := by
    intro txs htxs t ht
    rw [Bool.or_eq_true, decide_eq_true_eq] at ht
    rcases ht with rfl | ht
    · exact .inl hended.isOpen
    · have ht := htxs t ht
      rw [hended.isOpen_eq, hended.opened, Bool.and_eq_true] at ht
      exact ht.imp_left And.right
  constructor
  case ended =>
    rw [committedTransactions_append]
    intro t ht
    rw [hended.isOpen_eq, hended.opened]
    rcases List.mem_append.1 ht with ht | ht
    · obtain ⟨hclosed, hle⟩ := h.ended t ht
      exact ⟨by simp [hclosed], hle⟩
    · cases List.mem_singleton.1 ht
      exact ⟨by simp, hs.open_le hended.isOpen⟩
  case entriesFirst =>
    rw [allEvents_append_of_silent _ rfl]
    exact h.entriesFirst
  case id_lt =>
    rw [allEvents_append_of_silent _ rfl, hended.nextId]
    exact h.id_lt
  case owned =>
    intro txs t id htxs ht hid
    rw [eventsWith_append_of_commit rfl rfl, hcontent]
    exact h.owned (hback htxs) (by simp [ht]) (hended.mem_touched.1 hid).2
  case others =>
    intro txs id htxs hnone
    rw [eventsWith_append_of_commit rfl rfl, hended.committed_eq hs, hcontent]
    split
    · next hid => exact h.owned (hback htxs) (by simp) hid
    · next hid =>
      refine h.others (hback htxs) fun t ht hid' => ?_
      rw [Bool.or_eq_true, decide_eq_true_eq] at ht
      rcases ht with rfl | ht
      · exact hid hid'
      · refine hnone t ht (hended.mem_touched.2 ⟨?_, hid'⟩)
        rintro rfl
        exact hid hid'

/-- The end of a transaction without a commit continues a chronicle. -/
theorem Chronicle.takenBack {history : List Call} {s s' : Store} {a : Action} {answer : Answer}
    {tx : TransactionId} (hs : s.WellFormed) (h : Chronicle history s)
    (hevent : eventOf a answer = none) (hcommit : committedBy a answer = none)
    (hended : Ended s tx s') (hcommitted : ∀ id, s'.committed id = s.committed id) :
    Chronicle (history ++ [⟨s, a, answer, s'⟩]) s' := by
  -- a transaction that has been taken back is not followed any more
  have htx : ∀ {txs}, s'.Unended txs → ¬ txs tx = true := by
    intro txs htxs ht
    have ht := htxs tx ht
    rw [hended.isOpen_eq, hended.opened] at ht
    rcases ht with ht | ht
    · simp at ht
    · exact absurd (hs.open_le hended.isOpen) (Nat.not_le_of_lt ht)
  refine h.silent hevent hcommit hended.nextId hcommitted ?_ ?_ ?_ ?_
  · intro txs htxs t ht
    have ht := htxs t ht
    rw [hended.isOpen_eq, hended.opened, Bool.and_eq_true] at ht
    exact ht.imp_left And.right
  · intro t hclosed hle
    rw [hended.isOpen_eq, hended.opened]
    exact ⟨by simp [hclosed], hle⟩
  · intro t id hmem
    obtain ⟨hne, hmem⟩ := hended.mem_touched.1 hmem
    have hother : id ∉ s.touched tx := fun hmem' => hne (hs.disjoint hmem hmem')
    exact ⟨hmem, hended.content_of_not_touched hother⟩
  · intro txs t id htxs ht hmem
    refine hended.mem_touched.2 ⟨?_, hmem⟩
    rintro rfl
    exact htx htxs ht

/-- Any call that does what its answer tells continues a chronicle. -/
theorem Chronicle.told {history : List Call} {s s' : Store} {a : Action} {answer : Answer}
    (hs : s.WellFormed) (h : Chronicle history s) (htold : Told s a answer s') :
    Chronicle (history ++ [⟨s, a, answer, s'⟩]) s' := by
  cases htold with
  | nothing hevent hcommit hjournal hrows hid hopen hopened hcommitted =>
    exact h.nothing hevent hcommit hjournal hrows hid hopen hopened hcommitted
  | event hevent hcommit ha htouch hcontent hentry =>
    exact h.event hs hevent hcommit ha htouch hcontent hentry
  | commit hended hcontent => exact h.commit hs hended hcontent
  | takenBack hevent hcommit hended hcommitted =>
    exact h.takenBack hs hevent hcommit hended hcommitted

/-- A run without leases that leave the calendar continues a chronicle. -/
theorem Chronicle.run {history : List Call} {s : Store} (hs : s.WellFormed)
    (h : Chronicle history s) {actions : List Action}
    (hlease : ∀ c ∈ s.calls actions, c.answer.overflowsLease = false) :
    Chronicle (history ++ s.calls actions) (s.run actions) := by
  induction actions generalizing s history with
  | nil => rwa [calls, List.append_nil]
  | cons a rest ih =>
    have hstep := perform_step s a
    have htold := hstep.told hs (hlease _ List.mem_cons_self)
    have hrest := ih (hs.step hstep) (h.told hs htold) fun c hc =>
      hlease c (List.mem_cons_of_mem _ hc)
    rwa [List.append_assoc] at hrest

/-- The chronicle of an empty store is empty. -/
theorem chronicle_empty : Chronicle [] empty where
  ended _ h := by cases h
  entriesFirst := .nil
  id_lt _ h := by cases h
  owned _ _ h := by cases h
  others _ _ := rfl

/-! ## The rows and the committed events -/

/-- The tasks that calls have put in are those of the entries among their events. -/
theorem enqueuedIds_eq {s : Store} (actions : List Action) :
    enqueuedIds (s.calls actions) = (allEvents (s.calls actions)).filterMap fun e =>
      if e.isEntry then some e.id else none := by
  unfold enqueuedIds allEvents
  rw [List.filterMap_filterMap]
  induction actions generalizing s with
  | nil => rfl
  | cons a rest ih =>
    rw [calls, List.filterMap_cons, List.filterMap_cons, (perform_step s a).enqueued?_eq, ih]

/-- Entries come first also among the events of some of the transactions. -/
theorem entriesFirst_eventsOf {history : List Call} (h : EntriesFirst (allEvents history))
    (txs : TransactionId → Bool) : EntriesFirst (eventsOf history txs) :=
  List.Pairwise.sublist (List.filter_sublist.filterMap _) h

/-- In every run without a lease that would be too long: once no transaction is open, the rows are
the record of the committed events. -/
theorem rows_record_committed_history (actions : List Action)
    (hlease : ∀ c ∈ empty.calls actions, c.answer.overflowsLease = false)
    (hclosed : ∀ tx, (empty.run actions).isOpen tx = false) :
    RecordsHistory (empty.calls actions) (empty.run actions) := by
  have h := chronicle_empty.run wellFormed_empty hlease
  rw [List.nil_append] at h
  have hnone : ∀ id tx, id ∉ (empty.run actions).touched tx := by
    intro id tx hid
    have hopen := isOpen_of_touched hid
    rw [hclosed tx] at hopen
    cases hopen
  have hreplay : ∀ id, replay (committedEvents (empty.calls actions)) id =
      (empty.run actions).content id := by
    intro id
    have hunended : (empty.run actions).Unended fun _ => false := fun t ht => by cases ht
    have hothers := h.others hunended fun tx _ => hnone id tx
    rw [committed_of_not_touched (hnone id)] at hothers
    rw [← hothers]
    simp [committedEvents, eventsWith]
  have hfirst := entriesFirst_eventsOf h.entriesFirst fun tx =>
    tx ∈ committedTransactions (empty.calls actions)
  refine ⟨fun id => ?_, ?_, fun id location record hrow => ?_⟩
  · rw [← hreplay id]
    exact hfirst.replay_isSome_iff id
  · rw [enqueuedIds_eq]
    exact EntriesFirst.increasing h.entriesFirst
  · rw [← hreplay id] at hrow
    exact recordedIn_of_replay hrow

/-- A task is picked once; a fresh start for it and a second task are taken back, and a third task
is put in and deleted by one transaction. -/
def pickedOnce : List Action :=
  stock .epoch ++ [
    .begin, .pick 2 .epoch someQueue (.fixed (.ofSeconds 60)), .commit 2,
    .begin, .reenqueue 3 .epoch someQueue 1 .zero true,
    .enqueue 3 .epoch someQueue ⟨none, .zero, none, none⟩, .rollback 3,
    .begin, .enqueue 4 .epoch someQueue ⟨none, .zero, none, none⟩, .delete 4 someQueue 3, .commit 4]

/-- What `rows_record_committed_history` says of this run. -/
theorem record_of_picked_once :
    (∀ c ∈ empty.calls pickedOnce, c.answer.overflowsLease = false) ∧
    (∀ tx, (empty.run pickedOnce).isOpen tx = false) ∧
    enqueuedIds (empty.calls pickedOnce) = [1, 2, 3] ∧
    (empty.run pickedOnce).records.map TaskRecord.attempts = [1] ∧
    RecordsHistory (empty.calls pickedOnce) (empty.run pickedOnce) := by
  have hlease : ∀ c ∈ empty.calls pickedOnce, c.answer.overflowsLease = false := by decide
  have hclosed : ∀ tx, (empty.run pickedOnce).isOpen tx = false := fun _ => rfl
  exact ⟨hlease, hclosed, rfl, rfl, rows_record_committed_history pickedOnce hlease hclosed⟩

end Store

end LeaseQueue
