import LeaseQueue.Proofs.SoleRuns
import LeaseQueue.Proofs.StoreChanges
import LeaseQueue.Proofs.TransactionStages

/-!
# What a verdict does to the row of its task

A verdict removes the row of its task, moves it to a later time, or leaves it alone (`RowEffect`).
`Recorder.ComesTo` is the table that says which, by the verdict, the schedule and the clock, and
whether recording the verdict fails; it fails only if there is no delay or the delay has no end, and
then the rows stay as they are.  The table does not look at the rows: a row that is gone, or belongs
to another queue, is left alone.

Main statement: `World.verdict_takes_effect`.  As long as no other open transaction holds the row,
recording a verdict comes to an end and has the effect of the table, in a given transaction or in
one of its own; recording it again changes nothing more; and it makes no difference to the committed
rows whether a transaction was given.
-/

set_option autoImplicit false

namespace LeaseQueue

variable {ω β : Type}

/-! ## Effects on a row -/

/-- What becomes of the row of a task. -/
inductive RowEffect
  | untouched
  | removed
  /-- The task runs again at a time, as a fresh one or with its attempts kept. -/
  | movedTo (t : Instant) (fresh : Bool)

namespace RowEffect

/-- The row afterwards, if there is one.  A row that is moved is held from then on as given. -/
def onRow (effect : RowEffect) (holder : Option TransactionId) (row : Row) : Option Row :=
  match effect with
  | untouched => some row
  | removed => none
  | movedTo t fresh => some { row with
      record := { row.record with
        processTime := t
        attempts := if fresh then 0 else row.record.attempts }
      holder := holder }

/-- The rows afterwards: there is an effect on the row with an identifier, if it belongs to the
queue, and on no other. -/
def onRows (effect : RowEffect) (holder : Option TransactionId) (location : Location) (id : TaskId)
    (rows : OrderedMap TaskId Row) (k : TaskId) : Option Row :=
  (rows.get? k).bind fun row =>
    if k = id ∧ row.location = location then effect.onRow holder row else some row

variable {effect : RowEffect} {holder : Option TransactionId} {location : Location} {id : TaskId}
  {rows rows' : OrderedMap TaskId Row}

/-- An effect on a row that is not there changes no row. -/
theorem onRows_of_absent (h : ∀ row, rows.get? id = some row → row.location ≠ location)
    (k : TaskId) : effect.onRows holder location id rows k = rows.get? k := by
  unfold onRows
  cases hk : rows.get? k with
  | none => rfl
  | some row =>
    have hother : ¬ (k = id ∧ row.location = location) := by
      rintro ⟨rfl, hlocation⟩
      exact h row hk hlocation
    rw [Option.bind_some, if_neg hother]

/-- An effect on a row that is there changes this one only. -/
theorem onRows_of_present {row : Row} (hrow : rows.get? id = some row)
    (hlocation : row.location = location) (k : TaskId) :
    effect.onRows holder location id rows k =
      if k = id then effect.onRow holder row else rows.get? k := by
  unfold onRows
  by_cases hk : k = id
  · rw [hk, hrow, Option.bind_some, if_pos ⟨rfl, hlocation⟩, if_pos rfl]
  · rw [if_neg hk]
    cases rows.get? k <;> simp [hk]

/-- An effect that leaves the row untouched changes no row. -/
theorem onRows_untouched (k : TaskId) :
    untouched.onRows holder location id rows k = rows.get? k := by
  unfold onRows onRow
  cases rows.get? k <;> simp

/-- The same effect once more changes nothing. -/
theorem onRows_again (h : ∀ k, rows'.get? k = effect.onRows holder location id rows k)
    (k : TaskId) : effect.onRows holder location id rows' k = rows'.get? k := by
  have hk := h k
  unfold onRows at hk ⊢
  rw [hk]
  cases rows.get? k with
  | none => rfl
  | some row =>
    rw [Option.bind_some]
    by_cases hhere : k = id ∧ row.location = location
    · rw [if_pos hhere]
      cases effect with
      | untouched => simp [onRow]
      | removed => rfl
      | movedTo t fresh => cases fresh <;> simp [onRow, hhere]
    · rw [if_neg hhere, Option.bind_some, if_neg hhere]

/-- What the rows say afterwards depends on what they say and not on who holds them. -/
theorem content_onRows {holder' : Option TransactionId} {k : TaskId}
    (h : (rows.get? k).map Row.content = (rows'.get? k).map Row.content) :
    (effect.onRows holder location id rows k).map Row.content =
      (effect.onRows holder' location id rows' k).map Row.content := by
  unfold onRows
  cases hrow : rows.get? k with
  | none =>
    rw [hrow, Option.map_none, eq_comm, Option.map_eq_none_iff] at h
    rw [h]
    rfl
  | some row =>
    rw [hrow, Option.map_some, eq_comm, Option.map_eq_some_iff] at h
    obtain ⟨row', hrow', hsame⟩ := h
    obtain ⟨location', record', holder₀⟩ := row
    obtain ⟨_, _, holder₁⟩ := row'
    cases hsame
    rw [hrow', Option.bind_some, Option.bind_some]
    dsimp only
    by_cases hhere : k = id ∧ location' = location
    · rw [if_pos hhere, if_pos hhere]
      cases effect <;> rfl
    · rw [if_neg hhere, if_neg hhere]
      rfl

/-- The effect in a transaction that ends is the effect without one on the rows that it leaves. -/
theorem onRows_freed {tx : TransactionId} {k : TaskId}
    (h : rows'.get? k = (rows.get? k).map fun row =>
      if row.holder = some tx then { row with holder := none } else row) :
    ((effect.onRows (some tx) location id rows k).map fun row =>
      if row.holder = some tx then { row with holder := none } else row) =
      effect.onRows none location id rows' k := by
  unfold onRows
  rw [h]
  cases rows.get? k with
  | none => rfl
  | some row =>
    rw [Option.map_some, Option.bind_some, Option.bind_some]
    have hlocation : (if row.holder = some tx then { row with holder := none } else row).location =
        row.location := by
      split <;> rfl
    rw [hlocation]
    by_cases hhere : k = id ∧ row.location = location
    · rw [if_pos hhere, if_pos hhere]
      cases effect with
      | untouched => rfl
      | removed => rfl
      | movedTo t fresh => split <;> simp [onRow]
    · rw [if_neg hhere, if_neg hhere, Option.map_some]

end RowEffect

/-! ## Effects on a store -/

namespace Store

/-- No open transaction but the given one holds the row of a task.  A row that an open transaction
has touched is held by it, if it is still there. -/
def FreeFor (s : Store) (tx : Option TransactionId) (location : Location) (id : TaskId) : Prop :=
  ∀ row, s.rows.get? id = some row → row.location = location → row.holder = none ∨ row.holder = tx

/-- The given transaction is open, or one can be opened if none is given. -/
def Admits (s : Store) : Option TransactionId → Prop
  | none => s.unavailable = false
  | some tx => s.isOpen tx = true

/-- One row of a store is affected, and nothing else. -/
structure Affected (s s' : Store) (tx : Option TransactionId) (location : Location) (id : TaskId)
    (effect : RowEffect) : Prop where
  wellFormed : s'.WellFormed
  isOpen : ∀ t, s'.isOpen t = s.isOpen t
  unavailable : s'.unavailable = s.unavailable
  rows : ∀ k, s'.rows.get? k = effect.onRows tx location id s.rows k

section Affected

variable {s s' : Store} {tx : TransactionId} {holder : Option TransactionId} {location : Location}
  {id : TaskId} {effect : RowEffect}

/-- A store with the same rows and transactions is affected by nothing. -/
theorem Affected.of_rows (hs : s'.WellFormed) (hopen : ∀ t, s'.isOpen t = s.isOpen t)
    (havailable : s'.unavailable = s.unavailable) (hrows : ∀ k, s'.rows.get? k = s.rows.get? k) :
    s.Affected s' holder location id .untouched :=
  ⟨hs, hopen, havailable, fun k => (hrows k).trans (RowEffect.onRows_untouched k).symm⟩

/-- Where the row is not there, the store is affected as it is. -/
theorem Affected.of_absent (hs : s.WellFormed)
    (h : ∀ row, s.rows.get? id = some row → row.location ≠ location) :
    s.Affected s holder location id effect :=
  ⟨hs, fun _ => rfl, rfl, fun k => (RowEffect.onRows_of_absent h k).symm⟩

/-- A transaction that is admitted stays so. -/
theorem Affected.admits (h : s.Affected s' holder location id effect) (hadmits : s.Admits holder) :
    s'.Admits holder := by
  cases holder with
  | none => exact h.unavailable.trans hadmits
  | some tx => exact (h.isOpen tx).trans hadmits

/-- A row that is free for a transaction stays so. -/
theorem Affected.freeFor (h : s.Affected s' holder location id effect)
    (hfree : s.FreeFor holder location id) : s'.FreeFor holder location id := by
  intro row hrow hlocation
  rw [h.rows] at hrow
  cases hbefore : s.rows.get? id with
  | none =>
    unfold RowEffect.onRows at hrow
    rw [hbefore] at hrow
    cases hrow
  | some before =>
    by_cases hhere : before.location = location
    · rw [RowEffect.onRows_of_present hbefore hhere, if_pos rfl] at hrow
      cases effect with
      | untouched =>
        cases hrow
        exact hfree row hbefore hhere
      | removed => cases hrow
      | movedTo t fresh =>
        cases hrow
        exact .inr rfl
    · unfold RowEffect.onRows at hrow
      rw [hbefore, Option.bind_some, if_neg fun h => hhere h.2] at hrow
      cases hrow
      exact hfree row hbefore hlocation

/-- The row is there for the transaction or it is missing, so there is nothing to wait for. -/
theorem FreeFor.access (h : s.FreeFor (some tx) location id) :
    (s.access tx location id = .missing ∧
        ∀ row, s.rows.get? id = some row → row.location ≠ location) ∨
      ∃ row, s.access tx location id = .granted row := by
  unfold Store.access
  cases hrow : s.rows.get? id with
  | none => exact .inl ⟨rfl, fun row h => by cases h⟩
  | some row =>
    by_cases hlocation : row.location = location
    · have hholder : row.holder.all (· == tx) = true := by
        rcases h row hrow hlocation with hholder | hholder <;> simp [hholder]
      exact .inr ⟨row, by simp [hlocation, hholder]⟩
    · refine .inl ⟨by simp [hlocation], ?_⟩
      rintro row' ⟨⟩
      exact hlocation

/-- A deletion in an open transaction removes a free row at once. -/
theorem exists_delete (hs : s.WellFormed) (isOpen : s.isOpen tx = true)
    (hfree : s.FreeFor (some tx) location id) :
    ∃ s' found, s.delete tx location id = (s', some (.ok found)) ∧
      s.Affected s' (some tx) location id .removed := by
  unfold Store.delete
  rw [if_pos isOpen]
  rcases hfree.access with ⟨haccess, habsent⟩ | ⟨row, haccess⟩
  · rw [haccess]
    exact ⟨s, false, rfl, .of_absent hs habsent⟩
  · rw [haccess]
    obtain ⟨hrow, hlocation, hholder⟩ := of_access_granted haccess
    have htouch := touch_deleted hs isOpen hrow hholder
    refine ⟨_, true, rfl, hs.touch htouch, htouch.isOpen_eq, rfl, fun k => ?_⟩
    rw [RowEffect.onRows_of_present hrow hlocation]
    exact OrderedMap.get?_erase _ _ _

/-- A rescheduling in an open transaction moves a free row at once. -/
theorem exists_reenqueue (hs : s.WellFormed) (isOpen : s.isOpen tx = true)
    (hfree : s.FreeFor (some tx) location id) {asOf t : Instant} {delay : Duration}
    (ht : t.nanos = asOf.nanos + delay.nanos) (fresh : Bool) :
    ∃ s' found, s.reenqueue tx asOf location id delay fresh = (s', some (.ok found)) ∧
      s.Affected s' (some tx) location id (.movedTo t fresh) := by
  unfold Store.reenqueue
  rw [if_pos isOpen, deadline_eq_ok ht]
  dsimp only
  rcases hfree.access with ⟨haccess, habsent⟩ | ⟨row, haccess⟩
  · rw [haccess]
    exact ⟨s, false, rfl, .of_absent hs habsent⟩
  · rw [haccess]
    obtain ⟨hrow, hlocation, hholder⟩ := of_access_granted haccess
    have htouch : Touch s tx id _
        (note { s with rows := s.rows.insert id (rescheduled tx t fresh row) }
          tx (.updated row.record)) := touch_rewritten hs isOpen hrow hholder rfl rfl rfl
    refine ⟨_, true, rfl, hs.touch htouch, htouch.isOpen_eq, rfl, fun k => ?_⟩
    rw [RowEffect.onRows_of_present hrow hlocation]
    exact OrderedMap.get?_insert _ _ _ _

/-- What a transaction of its own has done is there once it is committed. -/
theorem Affected.separately (hs : s.WellFormed) {left : Store}
    (h : s.opening.Affected left (some (s.opened + 1)) location id effect) :
    s.Affected (left.release (s.opened + 1)) none location id effect := by
  have hopen : left.isOpen (s.opened + 1) = true := by
    rw [h.isOpen]
    exact s.isOpen_opening_self
  refine ⟨h.wellFormed.ended (ended_release h.wellFormed hopen), fun t => ?_, h.unavailable,
    fun k => ?_⟩
  · rw [isOpen_release, h.isOpen]
    exact hs.isOpen_opening_ended t
  · rw [get?_release, h.rows]
    exact RowEffect.onRows_freed (hs.freed_opening k).symm

/-- A transaction that is abandoned as soon as it is open leaves nothing behind. -/
theorem Affected.abandoned (hs : s.WellFormed) :
    s.Affected (s.opening.abandon (s.opened + 1)) none location id .untouched := by
  have hended := ended_undoAll_release hs.opening s.isOpen_opening_self
  have htouched : ∀ k, k ∉ s.opening.touched (s.opened + 1) := by
    intro k hk
    have hnew := hs.not_isOpen_next
    rw [hs.touched_opening] at hk
    rw [isOpen_of_touched hk] at hnew
    cases hnew
  unfold Store.abandon
  rw [if_pos s.isOpen_opening_self]
  refine .of_rows (hs.opening.ended hended) (fun t => ?_) rfl fun k => ?_
  · rw [hended.isOpen_eq]
    exact hs.isOpen_opening_ended t
  · rw [hended.others (htouched k)]
    exact hs.freed_opening k

end Affected

end Store

/-- The commit of an open transaction. -/
theorem ends_commit {home : ShardId} {s : Scene} {store : Store} {tx : TransactionId}
    (hopen : store.isOpen tx = true) :
    (storing (Session.commit ⟨home, tx⟩) : Action ω QueueError Unit).run.Ends home (s.on store)
      (.ok (.ok ())) (s.on (store.release tx)) := by
  have hcommit : (Session.commit ⟨home, tx⟩ : Action ω StoreError Unit).run.Ends home (s.on store)
      (.ok (store.commit tx).2) (s.on (store.commit tx).1) := Session.ends_commit
  rw [Store.commit_of_isOpen hopen] at hcommit
  exact Action.ends_storing hcommit

/-! ## What a verdict comes to -/

/-- Whether the task begins anew, with its attempts forgotten. -/
def Verdict.startsAfresh : Verdict → Bool
  | .reenqueue _ => true
  | _ => false

namespace Recorder

/-- The delay after which a verdict lets its task run again. -/
inductive Delays (r : Recorder) (record : TaskRecord) : Verdict → Duration → Prop
  | given {d : Duration} : Delays r record (.reenqueue (some d)) d
  | scheduled {d : Duration} (h : r.reenqueue.delay record.id record.attempts = .ok d) :
    Delays r record (.reenqueue none) d
  | afterFailure {d : Duration} : Delays r record (.fail (some d)) d

/-- How recording a verdict ends, and what it does to the row of its task. -/
inductive ComesTo (r : Recorder) (now : Instant) (record : TaskRecord) :
    Verdict → Except QueueError Unit → RowEffect → Prop
  | finished : ComesTo r now record .finish (.ok ()) .removed
  | kept : ComesTo r now record (.fail none) (.ok ()) .untouched
  | moved {verdict : Verdict} {d : Duration} {t : Instant} (hdelay : r.Delays record verdict d)
    (ht : t.nanos = now.nanos + d.nanos) :
    ComesTo r now record verdict (.ok ()) (.movedTo t verdict.startsAfresh)
  | noDelay {e : RetryError} (h : r.reenqueue.delay record.id record.attempts = .error e) :
    ComesTo r now record (.reenqueue none) (.error (.retry e)) .untouched
  | noEnd {verdict : Verdict} {d : Duration} (hdelay : r.Delays record verdict d)
    (hend : calendarEnd < now.nanos + d.nanos) :
    ComesTo r now record verdict (.error (.store (.delayOutOfRange d))) .untouched

section Table

variable {r : Recorder} {now : Instant} {record : TaskRecord} {verdict : Verdict}

/-- A delay that is known brings a verdict to some result. -/
theorem Delays.exists_comesTo {d : Duration} (h : r.Delays record verdict d) :
    ∃ result effect, r.ComesTo now record verdict result effect := by
  cases hafter : now.after? d with
  | some t => exact ⟨_, _, .moved h (Instant.after?_eq_some.1 hafter)⟩
  | none => exact ⟨_, _, .noEnd h (Instant.after?_eq_none.1 hafter)⟩

/-- The table says something about every verdict. -/
theorem exists_comesTo (r : Recorder) (now : Instant) (record : TaskRecord) (verdict : Verdict) :
    ∃ result effect, r.ComesTo now record verdict result effect := by
  cases verdict with
  | finish => exact ⟨_, _, .finished⟩
  | reenqueue delay =>
    cases delay with
    | some d => exact Delays.given.exists_comesTo
    | none =>
      cases hdelay : r.reenqueue.delay record.id record.attempts with
      | ok d => exact (Delays.scheduled hdelay).exists_comesTo
      | error e => exact ⟨_, _, .noDelay hdelay⟩
  | fail delay =>
    cases delay with
    | some d => exact Delays.afterFailure.exists_comesTo
    | none => exact ⟨_, _, .kept⟩

/-- A delay that is known is the one of the outcome. -/
theorem Delays.outcome {d : Duration} (h : r.Delays record verdict d) :
    r.outcome record verdict = .ok (.reschedule d verdict.startsAfresh) := by
  cases h with
  | given => rfl
  | scheduled h =>
    unfold Recorder.outcome
    rw [h]
    rfl
  | afterFailure => rfl

end Table

/-! ## Recording a verdict -/

section Recording

open Process

variable {r : Recorder} {s : Scene} {id : TaskId} {outcome : Outcome} {tx : TransactionId}
  {holder : Option TransactionId} {effect : RowEffect}

/-- A verdict that asks for a change is recorded in the given transaction or in one of its own. -/
theorem record_of_outcome {record : TaskRecord} {verdict : Verdict}
    (h : r.outcome record verdict = .ok outcome) (hkeep : outcome ≠ .keep) (tx : Option Handle) :
    (r.record record verdict tx : Action ω QueueError Unit) =
      tx.elim (r.separately record.id outcome) fun tx => r.apply tx record.id outcome := by
  unfold Recorder.record
  rw [h]
  cases outcome with
  | keep => exact absurd rfl hkeep
  | delete => cases tx <;> rfl
  | reschedule delay fresh => cases tx <;> rfl

/-- The effect of a change, if the end of its delay exists. -/
inductive Gives (now : Instant) : Outcome → RowEffect → Prop
  | delete : Gives now .delete .removed
  | reschedule {d : Duration} {fresh : Bool} {t : Instant} (ht : t.nanos = now.nanos + d.nanos) :
    Gives now (.reschedule d fresh) (.movedTo t fresh)

/-- An open transaction changes a row that no other one holds. -/
theorem ends_apply (ω : Type) (r : Recorder) (home : ShardId) (s : Scene)
    (h : Gives s.clock outcome effect) (hs : s.store.WellFormed)
    (hopen : s.store.isOpen tx = true) (hfree : s.store.FreeFor (some tx) r.location id) :
    ∃ store, (r.apply ⟨home, tx⟩ id outcome : Action ω QueueError Unit).run.Ends home s
        (.ok (.ok ())) (s.on store) ∧
      s.store.Affected store (some tx) r.location id effect := by
  cases h with
  | delete =>
    obtain ⟨store, found, hdelete, haffected⟩ := Store.exists_delete hs hopen hfree
    refine ⟨store, ?_, haffected⟩
    exact Action.ends_bind (Action.ends_storing (Session.ends_delete hdelete)) .done
  | @reschedule d fresh t ht =>
    obtain ⟨store, found, hreenqueue, haffected⟩ :=
      Store.exists_reenqueue hs hopen hfree ht fresh
    refine ⟨store, ?_, haffected⟩
    exact Action.ends_bind (Action.ends_storing (Session.ends_reenqueue hreenqueue)) .done

/-- A delay whose end does not exist leaves everything as it is. -/
theorem ends_apply_error (ω : Type) (r : Recorder) (home : ShardId) (s : Scene) (id : TaskId)
    {d : Duration} (fresh : Bool) (hend : calendarEnd < s.clock.nanos + d.nanos)
    (hopen : s.store.isOpen tx = true) :
    (r.apply ⟨home, tx⟩ id (.reschedule d fresh) : Action ω QueueError Unit).run.Ends home s
      (.ok (.error (.store (.delayOutOfRange d)))) s := by
  have hreenqueue : s.store.reenqueue tx s.clock r.location id d fresh =
      (s.store, some (.error (.delayOutOfRange d))) := by
    unfold Store.reenqueue
    rw [if_pos hopen, Store.deadline_eq_error hend]
  exact Action.ends_bind_error (Action.ends_storing (Session.ends_reenqueue hreenqueue))

/-- An outcome that is applied in a transaction of its own takes its effect. -/
theorem ends_separately (hs : s.store.WellFormed) (havailable : s.store.unavailable = false)
    (hfree : s.store.FreeFor none r.location id) (h : Gives s.clock outcome effect) :
    ∃ store, (r.separately id outcome : Action ω QueueError Unit).run.Ends r.shard s
        (.ok (.ok ())) (s.on store) ∧
      s.store.Affected store none r.location id effect := by
  have hopened := s.store.isOpen_opening_self
  have hfree' : s.store.opening.FreeFor (some (s.store.opened + 1)) r.location id :=
    fun row hrow hlocation => .inl (or_self_iff.1 (hfree row hrow hlocation))
  obtain ⟨left, happly, haffected⟩ :=
    ends_apply ω r r.shard (s.on s.store.opening) h hs.opening hopened hfree'
  have hopen : left.isOpen (s.store.opened + 1) = true := by
    rw [haffected.isOpen]
    exact hopened
  have hends : (r.separately id outcome : Action ω QueueError Unit).run.Ends r.shard s
      (.ok (.ok ())) _ :=
    ends_withTransaction (Store.begin_of_available havailable)
      (Action.ends_bind happly (ends_commit hopen))
  -- the transaction is over, so abandoning it has no effect
  have hended : ¬ (left.release (s.store.opened + 1)).isOpen (s.store.opened + 1) = true := by
    rw [Store.isOpen_release]
    simp
  rw [Scene.on_store, Store.abandon_of_not_isOpen hended] at hends
  exact ⟨_, hends, haffected.separately hs⟩

/-- A delay past the end of the calendar fails and leaves the row untouched. -/
theorem ends_separately_error (hs : s.store.WellFormed) (havailable : s.store.unavailable = false)
    {d : Duration} (fresh : Bool) (hend : calendarEnd < s.clock.nanos + d.nanos) :
    ∃ store, (r.separately id (.reschedule d fresh) : Action ω QueueError Unit).run.Ends r.shard s
        (.ok (.error (.store (.delayOutOfRange d)))) (s.on store) ∧
      s.store.Affected store none r.location id .untouched := by
  have hopened := s.store.isOpen_opening_self
  have happly := ends_apply_error ω r r.shard (s.on s.store.opening) id fresh hend hopened
  have hends : (r.separately id (.reschedule d fresh) : Action ω QueueError Unit).run.Ends r.shard s
      (.ok (.error (.store (.delayOutOfRange d)))) _ :=
    ends_withTransaction (Store.begin_of_available havailable) (Action.ends_bind_error happly)
  exact ⟨_, hends, .abandoned hs⟩

/-- Recording a verdict ends as the table says and has the effect that it says. -/
theorem ends_record (ω : Type) {record : TaskRecord} {verdict : Verdict}
    {result : Except QueueError Unit} (h : r.ComesTo s.clock record verdict result effect)
    (hs : s.store.WellFormed) (hadmits : s.store.Admits holder)
    (hfree : s.store.FreeFor holder r.location record.id) :
    ∃ store, (r.record record verdict (holder.map (Handle.mk r.shard)) :
        Action ω QueueError Unit).run.Ends r.shard s (.ok result) (s.on store) ∧
      s.store.Affected store holder r.location record.id effect := by
  -- a change is made in the given transaction or in one of its own, to the same effect
  have hwrites : ∀ {outcome}, r.outcome record verdict = .ok outcome → outcome ≠ .keep →
      Gives s.clock outcome effect →
      ∃ store, (r.record record verdict (holder.map (Handle.mk r.shard)) :
          Action ω QueueError Unit).run.Ends r.shard s (.ok (.ok ())) (s.on store) ∧
        s.store.Affected store holder r.location record.id effect := by
    intro outcome houtcome hkeep hgives
    rw [record_of_outcome houtcome hkeep]
    cases holder with
    | none => exact ends_separately hs hadmits hfree hgives
    | some tx => exact ends_apply ω r r.shard s hgives hs hadmits hfree
  have hsame : s.store.Affected s.store holder r.location record.id .untouched :=
    .of_rows hs (fun _ => rfl) rfl fun _ => rfl
  cases h with
  | finished => exact hwrites rfl (by simp) .delete
  | kept => exact ⟨s.store, .done, hsame⟩
  | moved hdelay ht => exact hwrites hdelay.outcome (by simp) (.reschedule ht)
  | noDelay h =>
    refine ⟨s.store, ?_, hsame⟩
    unfold Recorder.record Recorder.outcome
    rw [h]
    exact .done
  | noEnd hdelay hend =>
    rw [record_of_outcome hdelay.outcome (by simp)]
    cases holder with
    | none => exact ends_separately_error hs hadmits _ hend
    | some tx =>
      have hends := ends_apply_error ω r r.shard s record.id verdict.startsAfresh hend hadmits
      exact ⟨s.store, hends, hsame⟩

end Recording

end Recorder

/-! ## In a world -/

namespace World

/-- The store of a shard has come about by its use, and no call of it is made to fail. -/
structure Intact (w : World ω β) (home : ShardId) : Prop where
  shard : ∃ shard, w.shards.get? home = some shard ∧ ∀ point, shard.faults point = 0
  reachable : (w.store home).Reachable

/-- A turn records a verdict, with a result and an effect on the rows of the shard, in a given
transaction or in one of its own.  To do so again has the same result and no more effect. -/
structure Records (w w' : World ω β) (jobProgram : ω → Process ω Unit) (fiber : FiberId)
    (r : Recorder) (record : TaskRecord) (verdict : Verdict) (tx : Option TransactionId)
    (result : Except QueueError Unit) (effect : RowEffect) : Prop where
  run : w.run jobProgram fiber (r.record record verdict (tx.map (Handle.mk r.shard)) :
    Action ω QueueError Unit).run = (w', .ended (.ok result))
  clock : w'.clock = w.clock
  isOpen : ∀ t, (w'.store r.shard).isOpen t = (w.store r.shard).isOpen t
  rows : ∀ k, (w'.store r.shard).rows.get? k =
    effect.onRows tx r.location record.id (w.store r.shard).rows k
  again : ∃ w'', w'.run jobProgram fiber
      (r.record record verdict (tx.map (Handle.mk r.shard)) : Action ω QueueError Unit).run =
        (w'', .ended (.ok result)) ∧ (w''.store r.shard).rows = (w'.store r.shard).rows

/-- In `w'` a verdict has been recorded in a transaction.  To commit it leaves what the same verdict
leaves when it is recorded without a transaction, with the same result, in every world with the
clock of `w` whose rows say what those of `w` say.  If the rows there are those that a commit leaves
in `w`, they are the same afterwards, holders included. -/
def CommitsAlike (w w' : World ω β) (jobProgram : ω → Process ω Unit) (fiber : FiberId)
    (r : Recorder) (record : TaskRecord) (verdict : Verdict) (tx : TransactionId)
    (result : Except QueueError Unit) : Prop :=
  ∃ kept : World ω β, w'.run jobProgram fiber
      (storing (Session.commit ⟨r.shard, tx⟩) : Action ω QueueError Unit).run =
        (kept, .ended (.ok (.ok ()))) ∧
    ∀ v : World ω β, v.Intact r.shard → v.clock = w.clock → (v.store r.shard).Admits none →
      (v.store r.shard).FreeFor none r.location record.id →
      (∀ k, (v.store r.shard).content k = (w.store r.shard).content k) →
      ∃ v' : World ω β,
        v.run jobProgram fiber (r.record record verdict none : Action ω QueueError Unit).run =
          (v', .ended (.ok result)) ∧
        (∀ k, (v'.store r.shard).content k = (kept.store r.shard).content k) ∧
        ((v.store r.shard).rows = ((w.store r.shard).release tx).rows →
          (v'.store r.shard).rows = (kept.store r.shard).rows)

section Verdicts

variable {w : World ω β} {r : Recorder} {record : TaskRecord} {verdict : Verdict}
  {tx : Option TransactionId} {result : Except QueueError Unit} {effect : RowEffect}

/-- A verdict can be recorded, with its result and its effect. -/
theorem exists_records (h : r.ComesTo w.clock record verdict result effect) (hw : w.Intact r.shard)
    (hadmits : (w.store r.shard).Admits tx)
    (hfree : (w.store r.shard).FreeFor tx r.location record.id) (jobProgram : ω → Process ω Unit)
    (fiber : FiberId) :
    ∃ w' store, w.Records w' jobProgram fiber r record verdict tx result effect ∧
      w'.Shows r.shard ((w.scene r.shard).on store) ∧
      (w.store r.shard).Affected store tx r.location record.id effect := by
  have hcomes : r.ComesTo (w.scene r.shard).clock record verdict result effect := h
  obtain ⟨store, hends, haffected⟩ :=
    Recorder.ends_record ω hcomes hw.reachable.wellFormed hadmits hfree
  obtain ⟨w', hrun, hshows, -⟩ := run_of_ends hends (shows_scene hw.shard) fiber
  have hstore : w'.store r.shard = store := hshows.store
  refine ⟨w', store, ?_, hshows, haffected⟩
  constructor
  case run => exact hrun
  case clock => exact hshows.clock
  case isOpen =>
    intro t
    rw [hstore]
    exact haffected.isOpen t
  case rows =>
    intro k
    rw [hstore]
    exact haffected.rows k
  case again =>
    -- the first time leaves everything that the second time relies on
    have hcomes' : r.ComesTo ((w.scene r.shard).on store).clock record verdict result effect := h
    obtain ⟨store', hends', haffected'⟩ := Recorder.ends_record ω hcomes' haffected.wellFormed
      (haffected.admits hadmits) (haffected.freeFor hfree)
    obtain ⟨w'', hrun', hshows', -⟩ := run_of_ends hends' hshows fiber
    refine ⟨w'', hrun', ?_⟩
    rw [hshows'.store, hstore]
    refine OrderedMap.ext_get? fun k => ?_
    rw [Scene.on_store, haffected'.rows]
    exact RowEffect.onRows_again haffected.rows k

/-- The verdict that the lease decides when the task runs again needs no store. -/
theorem run_record_kept (w : World ω β) (jobProgram : ω → Process ω Unit) (fiber : FiberId)
    (r : Recorder) (record : TaskRecord) (handle : Option Handle) :
    w.run jobProgram fiber (r.record record (.fail none) handle : Action ω QueueError Unit).run =
      (w, .ended (.ok (.ok ()))) := rfl

/-- A verdict is recorded with the result and the effect of the table. -/
theorem verdict_takes_effect (hw : w.Intact r.shard) (record : TaskRecord)
    (hadmits : (w.store r.shard).Admits tx)
    (hfree : (w.store r.shard).FreeFor tx r.location record.id) (verdict : Verdict)
    (jobProgram : ω → Process ω Unit) (fiber : FiberId) :
    (∀ (v : World ω β) (handle : Option Handle),
      v.run jobProgram fiber (r.record record (.fail none) handle : Action ω QueueError Unit).run =
        (v, .ended (.ok (.ok ())))) ∧
    ∃ result effect w', r.ComesTo w.clock record verdict result effect ∧
      w.Records w' jobProgram fiber r record verdict tx result effect ∧
      ∀ t, tx = some t → w.CommitsAlike w' jobProgram fiber r record verdict t result := by
  refine ⟨fun v handle => run_record_kept v jobProgram fiber r record handle, ?_⟩
  obtain ⟨result, effect, hcomes⟩ := r.exists_comesTo w.clock record verdict
  obtain ⟨w', store, hrecords, hshows, haffected⟩ :=
    exists_records hcomes hw hadmits hfree jobProgram fiber
  refine ⟨result, effect, w', hcomes, hrecords, ?_⟩
  rintro t rfl
  have hopen : store.isOpen t = true := haffected.admits hadmits
  have hcommit : (storing (Session.commit ⟨r.shard, t⟩) : Action ω QueueError Unit).run.Ends r.shard
      ((w.scene r.shard).on store) (.ok (.ok ())) _ := ends_commit (s := w.scene r.shard) hopen
  obtain ⟨kept, hkept, hshows', -⟩ := run_of_ends hcommit hshows fiber
  refine ⟨kept, hkept, fun v hv hclock hadmits' hfree' hcontent => ?_⟩
  rw [← hclock] at hcomes
  obtain ⟨v', left, hrecords', -, -⟩ := exists_records hcomes hv hadmits' hfree' jobProgram fiber
  refine ⟨v', hrecords'.run, fun k => ?_, fun hrows => OrderedMap.ext_get? fun k => ?_⟩
  · rw [hshows'.store, Scene.on_store, Store.content_release]
    unfold Store.content
    rw [hrecords'.rows, haffected.rows]
    exact RowEffect.content_onRows (hcontent k)
  · rw [hshows'.store, Scene.on_store, Store.get?_release, hrecords'.rows, haffected.rows, hrows]
    exact (RowEffect.onRows_freed (Store.get?_release _ _ _)).symm

end Verdicts

/-- A world in which the second transaction is open and has picked the only task. -/
def withPickedTask : World Unit Unit :=
  { initial .epoch [] [] with
    shards := .ofList [(default, ⟨Store.empty.run (Store.stock .epoch ++
      [.begin, .pick 2 .epoch Store.someQueue (.fixed (.ofSeconds 60))]), fun _ => 0⟩)] }

/-- A recorder that lets tasks wait ten seconds, and five more after every attempt. -/
def patientRecorder : Recorder where
  shard := default
  location := Store.someQueue
  reenqueue := .arithmetic (.ofSeconds 10) (.ofSeconds 5)

/-- The picked task, as if it were picked for the second time. -/
def pickedTwice : TaskRecord := ⟨1, none, 2, .epoch, .epoch, none, none⟩

/-- What `verdict_takes_effect` says of a task that is put back in the transaction of its pick. -/
theorem put_back_takes_effect :
    withPickedTask.Intact patientRecorder.shard ∧
    (withPickedTask.store patientRecorder.shard).Admits (some 2) ∧
    (withPickedTask.store patientRecorder.shard).FreeFor (some 2) Store.someQueue 1 ∧
    (∀ (v : World Unit Unit) (handle : Option Handle),
      v.run .done 0 (patientRecorder.record pickedTwice (.fail none) handle :
        Action Unit QueueError Unit).run = (v, .ended (.ok (.ok ())))) ∧
    ∃ result effect w',
      patientRecorder.ComesTo .epoch pickedTwice (.reenqueue none) result effect ∧
      withPickedTask.Records w' .done 0 patientRecorder pickedTwice (.reenqueue none) (some 2) result
        effect ∧
      ∀ t, some 2 = some t → withPickedTask.CommitsAlike w' .done 0 patientRecorder pickedTwice
        (.reenqueue none) t result := by
  have hintact : withPickedTask.Intact patientRecorder.shard :=
    ⟨⟨_, rfl, fun _ => rfl⟩, Store.Reachable.run .empty _⟩
  have hadmits : (withPickedTask.store patientRecorder.shard).Admits (some 2) := rfl
  have hfree : (withPickedTask.store patientRecorder.shard).FreeFor (some 2) Store.someQueue 1 := by
    rintro row ⟨⟩ -
    exact .inr rfl
  exact ⟨hintact, hadmits, hfree,
    verdict_takes_effect hintact pickedTwice hadmits hfree (.reenqueue none) .done 0⟩

/-- The task is to run again after fifteen seconds, with no attempt counted. -/
example : (((withPickedTask.run .done 0 (patientRecorder.record pickedTwice (.reenqueue none)
    (some ⟨default, 2⟩) : Action Unit QueueError Unit).run).1.store default).find 1).map
      (fun record => (record.attempts, record.processTime.nanos)) = some (0, 15000000000) := by
  decide

end World

end LeaseQueue
