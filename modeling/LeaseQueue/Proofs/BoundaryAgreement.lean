import LeaseQueue.Proofs.NoTaskLost
import LeaseQueue.Proofs.OwnTransactions
import LeaseQueue.Proofs.VerdictEffects

/-!
# The boundaries of transactions do not matter to a poll that runs alone

Whether a runner commits its pick before the work, does all in one transaction or hands the work
over: if nothing else happens meanwhile, the poll comes to the same end, gives the same notices and
leaves the same rows (`World.boundaries_agree`).

The proof runs the work of two polls side by side.  In the one the pick has been committed and no
transaction is open, in the other its transaction is (`Alongside`); the rows say the same in both.
Nothing but the outcome depends on the transaction, and it changes the same row in the same way,
in a transaction of its own or in that of the pick.
-/

set_option autoImplicit false

namespace LeaseQueue

variable {ω α β : Type}

/-! ## Stores with one transaction at most -/

namespace Store

/-- No transaction is open, and one can be opened. -/
structure Quiet (s : Store) : Prop where
  wellFormed : s.WellFormed
  closed : ∀ t, ¬ s.isOpen t = true
  available : s.unavailable = false

/-- There is one open transaction. -/
structure Sole (s : Store) (tx : TransactionId) : Prop where
  wellFormed : s.WellFormed
  isOpen : ∀ t, s.isOpen t = true ↔ t = tx
  available : s.unavailable = false

/-- In a quiet store nobody holds a row. -/
theorem Quiet.free {s : Store} (h : s.Quiet) {id : TaskId} {row : Row}
    (hrow : s.rows.get? id = some row) : row.holder = none := by
  cases hholder : row.holder with
  | none => rfl
  | some t => exact absurd (h.wellFormed.holder_open hrow hholder) (h.closed t)

/-- While no transaction is open, a row is what it says. -/
theorem Quiet.get? {s : Store} (h : s.Quiet) (id : TaskId) :
    s.rows.get? id = (s.content id).map fun content => ⟨content.1, content.2, none⟩ := by
  unfold content
  cases hrow : s.rows.get? id with
  | none => rfl
  | some row =>
    have hfree := h.free hrow
    obtain ⟨location, record, holder⟩ := row
    cases hfree
    rfl

/-- Quiet stores with the same content have the same rows. -/
theorem Quiet.rows_eq {s s' : Store} (h : s.Quiet) (h' : s'.Quiet)
    (hcontent : ∀ id, s'.content id = s.content id) : s'.rows = s.rows := by
  refine OrderedMap.ext_get? fun id => ?_
  rw [h'.get?, h.get?, hcontent]

/-- Nothing but an outage makes a store unavailable. -/
theorem unavailable_perform {s : Store} {a : Action} (h : ∀ on, a ≠ .outage on) :
    (s.perform a).1.unavailable = s.unavailable := by
  have hstep := perform_step s a
  generalize s.perform a = outcome at hstep
  obtain ⟨s', answer⟩ := outcome
  cases hstep with
  | outage on => exact absurd rfl (h on)
  | _ => rfl

/-- A transaction that begins in a quiet store is alone in it. -/
theorem Quiet.opening {s : Store} (h : s.Quiet) : s.opening.Sole (s.opened + 1) where
  wellFormed := h.wellFormed.opening
  isOpen t := by
    rw [isOpen_opening]
    simp [h.closed t]
  available := h.available

/-- A quiet store begins the transaction that is next. -/
theorem Quiet.begin {s : Store} (h : s.Quiet) : s.begin = (s.opening, .ok (s.opened + 1)) :=
  begin_of_available h.available

/-- What the transaction does before its end keeps it the only one. -/
theorem Sole.perform {s : Store} {tx : TransactionId} (h : s.Sole tx) {a : Action}
    (ha : a.transaction? = some tx)
    (hgoesOn : a ≠ .commit tx ∧ a ≠ .rollback tx ∧ a ≠ .abandon tx) :
    (s.perform a).1.Sole tx := by
  have hchange := step_change h.wellFormed (perform_step s a)
  refine ⟨h.wellFormed.change hchange, fun t => ?_, ?_⟩
  · rcases hchange.touch_or_same ha hgoesOn with hsame | ⟨id, noted, htouch⟩
    · rw [hsame]
      exact h.isOpen t
    · rw [htouch.isOpen_eq]
      exact h.isOpen t
  · rw [unavailable_perform, h.available]
    rintro on rfl
    cases ha

/-- In a transaction that has just been opened a task is picked. -/
theorem Quiet.pick {s store : Store} (h : s.Quiet) {now : Instant} {location : Location}
    {lease : LeaseSchedule} {answer : Except StoreError (Option TaskRecord)}
    (hpick : s.opening.pick (s.opened + 1) now location lease = (store, answer)) :
    store.Sole (s.opened + 1) := by
  have hsole := h.opening.perform (a := .pick (s.opened + 1) now location lease) rfl (by simp)
  simp only [Store.perform, hpick] at hsole
  exact hsole

/-- It is then in its row, which the transaction holds. -/
theorem Quiet.get?_pick {s store : Store} (h : s.Quiet) {now : Instant} {location : Location}
    {lease : LeaseSchedule} {record : TaskRecord}
    (hpick : s.opening.pick (s.opened + 1) now location lease = (store, .ok (some record))) :
    store.rows.get? record.id = some ⟨location, record, some (s.opened + 1)⟩ := by
  have hanswer : (s.opening.perform (.pick (s.opened + 1) now location lease)).2 =
      .picked (.ok (some record)) := by
    simp only [Store.perform, hpick]
    rfl
  have hafter := (pickStep_of_perform h.opening.wellFormed hanswer).after
  simp only [Store.perform, hpick] at hafter
  exact hafter

/-- When the only transaction is committed the store is quiet. -/
theorem Sole.release {s : Store} {tx : TransactionId} (h : s.Sole tx) : (s.release tx).Quiet where
  wellFormed := h.wellFormed.ended (ended_release h.wellFormed ((h.isOpen tx).2 rfl))
  closed t := by
    rw [isOpen_release]
    simp [h.isOpen t]
  available := h.available

/-- When the only transaction is abandoned the store is quiet. -/
theorem Sole.abandon {s : Store} {tx : TransactionId} (h : s.Sole tx) : (s.abandon tx).Quiet := by
  have hopen := (h.isOpen tx).2 rfl
  unfold Store.abandon
  rw [if_pos hopen]
  have hended := ended_undoAll_release h.wellFormed hopen
  refine ⟨h.wellFormed.ended hended, fun t => ?_, h.available⟩
  rw [hended.isOpen_eq]
  simp [h.isOpen t]

/-- In a quiet store there is nothing to abandon. -/
theorem Quiet.abandon {s : Store} (h : s.Quiet) (tx : TransactionId) : s.abandon tx = s :=
  abandon_of_not_isOpen (h.closed tx)

/-- Two stores say the same, one without an open transaction and one with. -/
structure Alongside (tx : TransactionId) (a b : Store) : Prop where
  left : a.Quiet
  right : b.Sole tx
  content : ∀ id, b.content id = a.content id

/-- Beside its only transaction a store looks like the one after the commit. -/
theorem Sole.alongside {s : Store} {tx : TransactionId} (h : s.Sole tx) :
    Alongside tx (s.release tx) s :=
  ⟨h.release, h, fun id => (content_release s tx id).symm⟩

end Store

/-! ## Recording a verdict in one transaction or in another -/

/-- Two processes come to the same end and leave the same scene but for the store; in the store of
the second one a transaction is open. -/
def Alike (home : ShardId) (tx : TransactionId) (p q : Process ω α) (s : Scene) (a b : Store)
    (o : Except Panic α) (s' : Scene) : Prop :=
  ∃ a' b', Store.Alongside tx a' b' ∧ p.Ends home (s.on a) o (s'.on a') ∧
    q.Ends home (s.on b) o (s'.on b')

namespace Recorder

open Process

variable {tx : TransactionId} {a b : Store}

/-- A verdict is recorded in the same way in a transaction of its own as in the one that has picked
the task. -/
theorem alike_record (ω : Type) (r : Recorder) (record : TaskRecord) (verdict : Verdict)
    (h : Store.Alongside tx a b)
    (hrow : b.rows.get? record.id = some ⟨r.location, record, some tx⟩) (s : Scene) :
    ∃ o, Alike r.shard tx (r.record record verdict none : Action ω QueueError Unit).run
      (r.record record verdict (some ⟨r.shard, tx⟩) : Action ω QueueError Unit).run s a b (.ok o)
      s := by
  have hfree : a.FreeFor none r.location record.id :=
    fun row hget _ => .inl (h.left.free hget)
  have hfree' : b.FreeFor (some tx) r.location record.id := by
    intro row hget _
    rw [hrow] at hget
    cases hget
    exact .inr rfl
  obtain ⟨result, effect, hcomes⟩ := r.exists_comesTo s.clock record verdict
  have hleft : r.ComesTo (s.on a).clock record verdict result effect := hcomes
  have hright : r.ComesTo (s.on b).clock record verdict result effect := hcomes
  have hadmits : (s.on a).store.Admits none := h.left.available
  have hadmits' : (s.on b).store.Admits (some tx) := (h.right.isOpen tx).2 rfl
  obtain ⟨a', hends, haffected⟩ := ends_record ω hleft h.left.wellFormed hadmits hfree
  obtain ⟨b', hends', haffected'⟩ := ends_record ω hright h.right.wellFormed hadmits' hfree'
  refine ⟨result, a', b', ⟨?_, ?_, fun k => ?_⟩, hends, hends'⟩
  · refine ⟨haffected.wellFormed, fun t => ?_, haffected.unavailable.trans h.left.available⟩
    rw [haffected.isOpen]
    exact h.left.closed t
  · refine ⟨haffected'.wellFormed, fun t => ?_, haffected'.unavailable.trans h.right.available⟩
    rw [haffected'.isOpen]
    exact h.right.isOpen t
  · unfold Store.content
    rw [haffected.rows, haffected'.rows]
    exact RowEffect.content_onRows (h.content k)

end Recorder

/-! ## Working on a task -/

instance : LawfulMonad (Process ω) := by
  refine LawfulMonad.mk' (Process ω) ?_ (fun _ _ => rfl) ?_
  · intro α p
    show p.bind Process.done = p
    induction p with
    | done a => rfl
    | panic cause => rfl
    | call r next ih => exact congrArg (Process.call r) (funext ih)
  · exact fun p f g => Process.bind_bind p f g

/-- An observer that never panics. -/
def TaskListener.Calm (listener : TaskListener) : Prop :=
  ∀ shard location event, (listener shard location event).panic = none

/-- A consumer that leaves the stores alone and does not wait for long. -/
def Consumer.Harmless (c : Consumer α) (home : ShardId) (gates : List String) : Prop :=
  ∀ calls task, ∀ effect ∈ (c.handle calls task).effects, effect.Harmless home gates

namespace Processor

open Process

/-- The work on a task without the recording of the verdict. -/
def consult (p : Processor α) (record : TaskRecord) : Action ω QueueError Verdict := do
  let task ← p.task record
  let start ← Session.now
  let verdict ← p.consumer.execute task
  let stop ← Session.now
  ExceptT.lift (p.tell (.executed record verdict (stop.elapsed start)))
  pure verdict

/-- To execute a task is to consult the consumer and to record its verdict. -/
theorem execute_eq (p : Processor α) (record : TaskRecord) (tx : Option Handle) :
    (p.execute record tx : Action ω QueueError Unit) =
      p.consult record >>= fun verdict => p.recorder.record record verdict tx := by
  simp only [execute, consult, bind_assoc, pure_bind]

variable {p : Processor α} {home : ShardId} {tx : TransactionId} {a b : Store}

/-- A consultation does nothing but what a harmless consumer may do. -/
theorem only_consult (ω : Type) {gates : List String} (hconsumer : p.consumer.Harmless home gates)
    (record : TaskRecord) :
    (p.consult record : Action ω QueueError Verdict).run.Only (·.Harmless home gates) := by
  have hnow : (Session.now : Action ω QueueError Instant).run.Only (·.Harmless home gates) :=
    only_lift (only_ask trivial)
  refine only_run_bind ?_ fun task => only_run_bind hnow fun start =>
    only_run_bind ?_ fun verdict => only_run_bind hnow fun stop => only_run_bind ?_ fun _ => trivial
  · unfold Processor.task
    split <;> trivial
  · refine only_run_bind (only_lift (only_ask trivial)) fun calls => ?_
    refine only_run_bind (only_lift (only_processAll (hconsumer calls task))) fun _ => ?_
    cases (p.consumer.handle calls task).ending <;> trivial
  · exact only_lift (only_react (fun _ => trivial) _)

/-- The work on a task comes to the same end, whether a transaction of its own records the verdict
or the one that has picked the task. -/
theorem alike_execute (ω : Type) (s : Scene) (hconsumer : p.consumer.Harmless p.shard s.gates)
    (record : TaskRecord) (h : Store.Alongside tx a b)
    (hrow : b.rows.get? record.id = some ⟨p.location, record, some tx⟩) :
    ∃ o s', s'.gates = s.gates ∧ Alike p.shard tx (p.execute record none : Action ω _ _).run
      (p.execute record (some ⟨p.shard, tx⟩) : Action ω _ _).run s a b o s' := by
  obtain ⟨o, s', hgates, hconsult⟩ := ends_of_harmless (only_consult ω hconsumer record)
  simp only [execute_eq]
  rcases o with cause | e | verdict
  · exact ⟨.error cause, s', hgates, a, b, h, Action.ends_bind_panic (hconsult a),
      Action.ends_bind_panic (hconsult b)⟩
  · exact ⟨.ok (.error e), s', hgates, a, b, h, Action.ends_bind_error (hconsult a),
      Action.ends_bind_error (hconsult b)⟩
  · obtain ⟨o, a', b', h', hleft, hright⟩ :=
      p.recorder.alike_record ω record verdict h hrow s'
    exact ⟨.ok o, s', hgates, a', b', h', Action.ends_bind (hconsult a) hleft,
      Action.ends_bind (hconsult b) hright⟩

/-- So all of it comes to its end, whatever goes wrong with the task. -/
theorem alike_process (ω : Type) (s : Scene) (hlistener : p.listener.Calm)
    (hconsumer : p.consumer.Harmless p.shard s.gates) (record : TaskRecord)
    (h : Store.Alongside tx a b)
    (hrow : b.rows.get? record.id = some ⟨p.location, record, some tx⟩) :
    ∃ s', Alike p.shard tx (p.process record none : Process ω Unit)
      (p.process record (some ⟨p.shard, tx⟩)) s a b (.ok ()) s' := by
  have htell : ∀ (s : Scene) (event : TaskEvent), ∃ s' : Scene, s'.gates = s.gates ∧
      ∀ store, (p.tell event : Process ω Unit).Ends p.shard (s.on store) (.ok ()) (s'.on store) :=
    fun s event => ends_react (hlistener p.shard p.location event) s
  obtain ⟨begun, hgates, hstarted⟩ := htell s (.started record)
  obtain ⟨o, worked, -, a', b', h', hleft, hright⟩ :=
    alike_execute ω begun (hgates ▸ hconsumer) record h hrow
  have hcrashes : ∀ error, ∃ s' : Scene, ∀ store,
      ((p.tell (.crashed record error) : Process ω Unit).bind fun _ =>
        p.tell (.finished record)).Ends p.shard (worked.on store) (.ok ()) (s'.on store) := by
    intro error
    obtain ⟨told, -, hcrashed⟩ := htell worked (.crashed record error)
    obtain ⟨s', -, hfinished⟩ := htell told (.finished record)
    exact ⟨s', fun store => ends_bind (hcrashed store) (hfinished store)⟩
  rcases o with cause | e | u
  · obtain ⟨s', hends⟩ := hcrashes (.panic cause)
    exact ⟨s', a', b', h', ends_bind (hstarted a) (ends_bind (ends_attempt hleft) (hends a')),
      ends_bind (hstarted b) (ends_bind (ends_attempt hright) (hends b'))⟩
  · obtain ⟨s', hends⟩ := hcrashes e
    exact ⟨s', a', b', h', ends_bind (hstarted a) (ends_bind (ends_attempt hleft) (hends a')),
      ends_bind (hstarted b) (ends_bind (ends_attempt hright) (hends b'))⟩
  · obtain ⟨s', -, hends⟩ := htell worked (.finished record)
    exact ⟨s', a', b', h', ends_bind (hstarted a) (ends_bind (ends_attempt hleft) (hends a')),
      ends_bind (hstarted b) (ends_bind (ends_attempt hright) (hends b'))⟩

end Processor

/-! ## Polls -/

section Picking

open Process

variable {home : ShardId} {location : Location} {lease : LeaseSchedule} {listener : TaskListener}
  {s : Scene} {store : Store} {tx : TransactionId}

/-- A pick that fails ends in the store that it leaves. -/
theorem ends_pickTask_error {e : StoreError}
    (h : s.store.pick tx s.clock location lease = (store, .error e)) :
    (pickTask home location lease listener ⟨home, tx⟩ : Action ω _ _).run.Ends home s
      (.ok (.error e)) (s.on store) := by
  have hpick : (Session.pick ⟨home, tx⟩ location lease : Action ω _ _).run.Ends home s _ _ :=
    Session.ends_pick
  rw [h] at hpick
  refine Action.ends_bind Session.ends_now ?_
  exact Action.ends_bind_error hpick

/-- A pick that finds nothing ends in the store that it leaves, and nobody is told. -/
theorem ends_pickTask_none
    (h : s.store.pick tx s.clock location lease = (store, .ok none)) :
    (pickTask home location lease listener ⟨home, tx⟩ : Action ω _ _).run.Ends home s
      (.ok (.ok none)) (s.on store) := by
  have hpick : (Session.pick ⟨home, tx⟩ location lease : Action ω _ _).run.Ends home s _ _ :=
    Session.ends_pick
  rw [h] at hpick
  refine Action.ends_bind Session.ends_now (Action.ends_bind hpick ?_)
  exact .done

/-- The observer is told of a task that has been picked. -/
theorem ends_pickTask_some (ω : Type) (hlistener : listener.Calm) {record : TaskRecord}
    (h : s.store.pick tx s.clock location lease = (store, .ok (some record))) :
    ∃ s' : Scene, s'.gates = s.gates ∧
      (pickTask home location lease listener ⟨home, tx⟩ : Action ω _ _).run.Ends home s
        (.ok (.ok (some record))) (s'.on store) := by
  have hpick : (Session.pick ⟨home, tx⟩ location lease : Action ω _ _).run.Ends home s _ _ :=
    Session.ends_pick
  rw [h] at hpick
  obtain ⟨s', hgates, htold⟩ :=
    ends_react (hlistener home location (.picked record (s.clock.elapsed s.clock))) s
  refine ⟨s', hgates, ?_⟩
  refine Action.ends_bind Session.ends_now (Action.ends_bind hpick ?_)
  refine Action.ends_bind Session.ends_now (Action.ends_bind (Action.ends_lift (htold store)) ?_)
  exact .done

end Picking

namespace Runner

open Process

/-- How a poll ends that commits its pick first. -/
inductive Polled (r : Runner α) (s : Scene) : Except QueueError PollStatus → Scene → Prop
  | failed {e : QueueError} {s' : Scene}
    (hpick : (r.pickAndCommit : Action (Job α) _ _).run.Ends r.processor.shard s
      (.ok (.error e)) s') : Polled r s (.error e) s'
  | skipped {s' : Scene}
    (hpick : (r.pickAndCommit : Action (Job α) _ _).run.Ends r.processor.shard s
      (.ok (.ok none)) s') : Polled r s (.ok .skipped) s'
  | processed {record : TaskRecord} {mid s' : Scene}
    (hpick : (r.pickAndCommit : Action (Job α) _ _).run.Ends r.processor.shard s
      (.ok (.ok (some record))) mid)
    (hprocess : (r.processor.process record none : Process (Job α) Unit).Ends r.processor.shard mid
      (.ok ()) s') : Polled r s (.ok .processed) s'

variable {r : Runner α} {s s' : Scene}

/-- A poll in separate transactions ends as the rules for polls say. -/
theorem Polled.ends_separate {o : Except QueueError PollStatus} (h : r.Polled s o s') :
    (r.pollSeparate : Action (Job α) _ _).run.Ends r.processor.shard s (.ok o) s' := by
  cases h with
  | failed hpick => exact Action.ends_bind_error hpick
  | skipped hpick => exact Action.ends_bind hpick .done
  | processed hpick hprocess =>
    refine Action.ends_bind hpick ?_
    exact Action.ends_bind (Action.ends_lift hprocess) .done

/-- What happens then does not depend on the boundary that is drawn. -/
theorem Polled.withBoundary {o : Except QueueError PollStatus} (h : r.Polled s o s')
    (boundary : Boundary) : Polled { r with boundary := boundary } s o s' := by
  cases h with
  | failed hpick => exact .failed hpick
  | skipped hpick => exact .skipped hpick
  | processed hpick hprocess => exact .processed hpick hprocess

/-- What a pick has found is committed. -/
theorem ends_pickAndCommit {mid : Scene} {store : Store} {picked : Option TaskRecord}
    (hs : s.store.Quiet) (hsole : store.Sole (s.store.opened + 1))
    (hpick : (r.pick ⟨r.processor.shard, s.store.opened + 1⟩ : Action ω _ _).run.Ends
      r.processor.shard (s.on s.store.opening) (.ok (.ok picked)) (mid.on store)) :
    (r.pickAndCommit : Action ω _ _).run.Ends r.processor.shard s (.ok (.ok picked))
      (mid.on (store.release (s.store.opened + 1))) := by
  have hends : (r.pickAndCommit : Action ω _ _).run.Ends r.processor.shard s (.ok (.ok picked)) _ :=
    ends_withTransaction hs.begin
      (Action.ends_bind hpick (Action.ends_bind (ends_commit ((hsole.isOpen _).2 rfl)) .done))
  rwa [Scene.on_store, hsole.release.abandon] at hends

/-- A poll that commits its pick first and one that does all in one transaction come to the same end
and leave the same rows. -/
theorem exists_polled (hlistener : r.processor.listener.Calm)
    (hconsumer : r.processor.consumer.Harmless r.processor.shard s.gates) (hs : s.store.Quiet) :
    ∃ (o : Except QueueError PollStatus) (s' : Scene) (a b : Store), r.Polled s o (s'.on a) ∧
      (r.pollShared : Action (Job α) _ _).run.Ends r.processor.shard s (.ok o) (s'.on b) ∧
      a.Quiet ∧ b.Quiet ∧ a.rows = b.rows := by
  generalize hpick :
    s.store.opening.pick (s.store.opened + 1) s.clock r.processor.location r.lease = outcome
  obtain ⟨store, answer⟩ := outcome
  have hsole := hs.pick hpick
  rcases answer with e | _ | record
  · have hpicked : (r.pick ⟨r.processor.shard, s.store.opened + 1⟩ : Action (Job α) _ _).run.Ends
        r.processor.shard (s.on s.store.opening) (.ok (.error (.store e))) (s.on store) :=
      Action.ends_storing (ends_pickTask_error hpick)
    have hleft : (r.pickAndCommit : Action (Job α) _ _).run.Ends r.processor.shard s
        (.ok (.error (.store e))) _ :=
      ends_withTransaction hs.begin (Action.ends_bind_error hpicked)
    have hright : (r.pollShared : Action (Job α) _ _).run.Ends r.processor.shard s
        (.ok (.error (.store e))) _ :=
      ends_withTransaction hs.begin (Action.ends_bind_error hpicked)
    exact ⟨_, s, _, _, .failed hleft, hright, hsole.abandon, hsole.abandon, rfl⟩
  · have hpicked : (r.pick ⟨r.processor.shard, s.store.opened + 1⟩ : Action (Job α) _ _).run.Ends
        r.processor.shard (s.on s.store.opening) (.ok (.ok none)) (s.on store) :=
      Action.ends_storing (ends_pickTask_none hpick)
    have hright : (r.pollShared : Action (Job α) _ _).run.Ends r.processor.shard s
        (.ok (.ok .skipped)) _ :=
      ends_withTransaction hs.begin
        (Action.ends_bind hpicked (Action.ends_bind (ends_commit ((hsole.isOpen _).2 rfl)) .done))
    rw [Scene.on_store, hsole.release.abandon] at hright
    exact ⟨_, s, _, _, .skipped (ends_pickAndCommit hs hsole hpicked), hright, hsole.release,
      hsole.release, rfl⟩
  · obtain ⟨mid, hgates, htask⟩ :=
      ends_pickTask_some (s := s.on s.store.opening) (Job α) hlistener hpick
    have hpicked : (r.pick ⟨r.processor.shard, s.store.opened + 1⟩ : Action (Job α) _ _).run.Ends
        r.processor.shard (s.on s.store.opening) (.ok (.ok (some record))) (mid.on store) :=
      Action.ends_storing htask
    obtain ⟨s', a, b, hboth, hleft, hright⟩ :=
      Processor.alike_process (Job α) mid hlistener (hgates ▸ hconsumer) record hsole.alongside
        (hs.get?_pick hpick)
    have hshared : (r.pollShared : Action (Job α) _ _).run.Ends r.processor.shard s
        (.ok (.ok .processed)) _ :=
      ends_withTransaction hs.begin (Action.ends_bind hpicked
        (Action.ends_bind (Action.ends_lift hright)
          (Action.ends_bind (ends_commit ((hboth.right.isOpen _).2 rfl)) .done)))
    rw [Scene.on_store, hboth.right.release.abandon] at hshared
    refine ⟨_, s', a, _, .processed (ends_pickAndCommit hs hsole hpicked) hleft, hshared,
      hboth.left, hboth.right.release, hboth.right.release.rows_eq hboth.left fun k => ?_⟩
    rw [Store.content_release, hboth.content]

/-- What a poll that hands its work over does with what it has picked. -/
def handOver (r : Runner α) (executor : ExecutorId) (record : TaskRecord) :
    Action (Job α) QueueError PollStatus := do
  let granted : Bool ← ExceptT.lift (.ask (.slot executor))
  if granted then
    ExceptT.lift (.ask (.handOver executor ⟨r.processor, record⟩))
    pure .processed
  else throw .executorClosed

end Runner

/-! ## Polls that run alone -/

namespace World

/-- What can be told of a poll, once it and the job that it may have handed over have ended. -/
structure PollReport where
  outcome : Except QueueError PollStatus
  clock : Instant
  trace : List (Tick × Notice)
  calls : OrderedMap Nat Nat
  rows : OrderedMap TaskId Row

/-- Lets a runner poll and then the job that it has handed over, if there is one, have its turn,
with nothing else in between. -/
def pollAlone (w : World (Job α) β) (id : FiberId) (r : Runner α) : Option PollReport :=
  match w.run Job.work id r.poll.run with
  | (mid, .ended (.ok outcome)) =>
    let after := mid.turn Job.work w.nextFiber
    if after.fibers.contains w.nextFiber then none
    else some {
      outcome := outcome
      clock := after.clock
      trace := after.trace
      calls := after.calls
      rows := (after.store r.processor.shard).rows }
  | _ => none

/-- A runner can poll alone: no transaction is open in its store, no operation of the store is made
to fail, and neither its observer nor its consumer gets in the way. -/
structure Alone (w : World (Job α) β) (r : Runner α) : Prop where
  shard : ∃ shard, w.shards.get? r.processor.shard = some shard ∧ ∀ point, shard.faults point = 0
  reachable : Store.Reachable (w.store r.processor.shard)
  closed : ∀ t, ¬ (w.store r.processor.shard).isOpen t = true
  available : (w.store r.processor.shard).unavailable = false
  listener : r.processor.listener.Calm
  consumer : r.processor.consumer.Harmless r.processor.shard w.gates
  unused : w.fibers.get? w.nextFiber = none

section Alone

variable {w : World (Job α) β} {r : Runner α} {s : Scene} {id : FiberId}

/-- A world with nothing else going on shows the scene of each shard. -/
theorem Alone.shows (h : w.Alone r) :
    w.Shows r.processor.shard (w.scene r.processor.shard) :=
  shows_scene h.shard

/-- Before a poll that is alone its store is quiet. -/
theorem Alone.quiet (h : w.Alone r) : (w.scene r.processor.shard).store.Quiet :=
  ⟨h.reachable.wellFormed, h.closed, h.available⟩

/-- What a scene tells of a poll that has ended in it. -/
def PollReport.ofScene (outcome : Except QueueError PollStatus) (s : Scene) : PollReport :=
  ⟨outcome, s.clock, s.trace, s.calls, s.store.rows⟩

/-- A poll that runs to its end, after which its job has one turn, leaves what is shown then. -/
theorem pollAlone_of_run {mid : World (Job α) β} {outcome : Except QueueError PollStatus}
    (hrun : w.run Job.work id r.poll.run = (mid, .ended (.ok outcome)))
    (hshows : (mid.turn Job.work w.nextFiber).Shows r.processor.shard s)
    (hgone : (mid.turn Job.work w.nextFiber).fibers.get? w.nextFiber = none) :
    w.pollAlone id r = some (.ofScene outcome s) := by
  have hdone : ¬ (mid.turn Job.work w.nextFiber).fibers.contains w.nextFiber = true := by
    unfold OrderedMap.contains
    simp [hgone]
  unfold pollAlone
  rw [hrun]
  simp only
  rw [if_neg hdone, hshows.clock, hshows.trace, hshows.calls, hshows.store]
  rfl

/-- The turn of a process that is gone changes nothing. -/
theorem turn_of_none {jobProgram : ω → Process ω Unit} {w : World ω β} {k : FiberId}
    (h : w.fibers.get? k = none) : w.turn jobProgram k = w := by
  unfold turn
  rw [h]

/-- A poll that comes to its end without handing a job over. -/
theorem pollAlone_of_ends {outcome : Except QueueError PollStatus}
    (hends : r.poll.run.Ends r.processor.shard (w.scene r.processor.shard) (.ok outcome) s)
    (h : w.Alone r) : w.pollAlone id r = some (.ofScene outcome s) := by
  obtain ⟨mid, hrun, hshows, hsame⟩ := run_of_ends hends h.shows id
  have hnone : mid.fibers.get? w.nextFiber = none := hsame.fibers h.unused
  have hturn : mid.turn Job.work w.nextFiber = mid := turn_of_none hnone
  refine pollAlone_of_run hrun ?_ ?_
  · rw [hturn]
    exact hshows
  · rw [hturn]
    exact hnone

/-- A job comes to its end in its turn. -/
theorem turn_job (jobProgram : ω → Process ω Unit) {w : World ω β} {k : FiberId}
    {executor : ExecutorId} {program : Process ω Unit} {home : ShardId} {s' : Scene}
    {o : Except Panic Unit} (hw : w.Shows home s)
    (hfiber : w.fibers.get? k = some ⟨.job executor program, [], false⟩)
    (hends : program.Ends home s o s') :
    (w.turn jobProgram k).Shows home s' ∧ (w.turn jobProgram k).fibers.get? k = none := by
  obtain ⟨w', hrun, hshows, -⟩ : ∃ w', w.run jobProgram k program = (w', .ended o) ∧
      w'.Shows home s' ∧ SameAside w w' := run_of_ends hends hw k
  have hturn : w.turn jobProgram k =
      (w'.setExecutor executor (w'.executor executor).finish).dismiss k := by
    unfold turn
    rw [hfiber]
    simp only [Bool.false_eq_true, if_false, hrun]
  rw [hturn]
  refine ⟨⟨hshows.clock, hshows.time, hshows.trace, hshows.gates, hshows.calls, hshows.shard⟩, ?_⟩
  show (w'.fibers.erase k).get? k = none
  rw [OrderedMap.get?_erase, if_pos rfl]

/-- A job is handed over to an executor that has a slot for it. -/
theorem run_handOver {executor : ExecutorId}
    (haccepts : ((w.executor executor).request id).2 = .granted) (record : TaskRecord)
    {home : ShardId} (hw : w.Shows home s) :
    ∃ w', w.run Job.work id (r.handOver executor record).run =
          (w', .ended (.ok (.ok .processed))) ∧
      w'.Shows home s ∧ w'.fibers.get? w.nextFiber =
        some ⟨.job executor (r.processor.process record none), [], false⟩ := by
  generalize hrequest : (w.executor executor).request id = answer at haccepts
  obtain ⟨e, answer⟩ := answer
  cases haccepts
  have hslot : w.perform Job.work id (.slot executor) =
      (w.setExecutor executor e, .answer true) := by
    simp only [perform, hrequest]
  -- the executor with one slot less, then with one job more
  have hrun : w.run Job.work id (r.handOver executor record).run =
      (w.setExecutor executor e).wake.run Job.work id
        (.call (.handOver executor ⟨r.processor, record⟩) fun _ => .done (.ok .processed)) := by
    show w.run Job.work id (.call (.slot executor) fun granted => _) = _
    rw [run, hslot]
    rfl
  refine ⟨_, hrun.trans rfl, ?_, ?_⟩
  · exact ⟨hw.clock, hw.time, hw.trace, hw.gates, hw.calls, hw.shard⟩
  · show (OrderedMap.insert _ w.nextFiber _).get? w.nextFiber = _
    rw [OrderedMap.get?_insert, if_pos rfl]
    rfl

/-- A poll that hands its work over comes to the same end as one that does the work itself. -/
theorem pollAlone_of_polled {executor : ExecutorId} {outcome : Except QueueError PollStatus}
    (hboundary : r.boundary = .handedOver executor) (h : w.Alone r)
    (haccepts : ((w.executor executor).request id).2 = .granted)
    (hpolled : r.Polled (w.scene r.processor.shard) outcome s) :
    w.pollAlone id r = some (.ofScene outcome s) := by
  have hpoll : r.poll = r.pollHandingOver executor := by
    unfold Runner.poll
    rw [hboundary]
  cases hpolled with
  | failed hpick =>
    refine pollAlone_of_ends ?_ h
    rw [hpoll]
    exact Action.ends_bind_error hpick
  | skipped hpick =>
    refine pollAlone_of_ends ?_ h
    rw [hpoll]
    exact Action.ends_bind hpick .done
  | @processed record _ _ hpick hprocess =>
    obtain ⟨mid, hrun, hshows, hsame⟩ := run_of_ends hpick h.shows id
    have haccepts' : ((mid.executor executor).request id).2 = .granted := by
      unfold World.executor at haccepts ⊢
      rw [hsame.executors]
      exact haccepts
    obtain ⟨w', hrun', hshows', hfiber⟩ := run_handOver (r := r) haccepts' record hshows
    rw [hsame.nextFiber] at hfiber
    obtain ⟨hended, hgone⟩ := turn_job Job.work hshows' hfiber hprocess
    refine pollAlone_of_run ?_ hended hgone
    rw [hpoll]
    exact (run_bind hrun).trans hrun'

end Alone

/-- The three ways to draw the boundaries of transactions agree: a poll that runs alone comes to the
same end, gives the same notices at the same times and leaves the same rows, whether it commits its
pick before the work, does all in one transaction, or hands the work over to an executor that
accepts it and has it done at once. -/
theorem boundaries_agree {w : World (Job α) β} {r : Runner α} (h : w.Alone r) (id : FiberId)
    {executor : ExecutorId} (haccepts : ((w.executor executor).request id).2 = .granted) :
    ∃ report, (∀ row ∈ report.rows.values, row.holder = none) ∧
      ∀ boundary ∈ [.separate, .shared, .handedOver executor],
        w.pollAlone id { r with boundary := boundary } = some report := by
  obtain ⟨outcome, s, a, b, hpolled, hshared, ha, -, hrows⟩ :=
    Runner.exists_polled h.listener h.consumer h.quiet
  have halone : ∀ boundary, w.Alone { r with boundary := boundary } := fun _ =>
    ⟨h.shard, h.reachable, h.closed, h.available, h.listener, h.consumer, h.unused⟩
  have hsame : PollReport.ofScene outcome (s.on b) = .ofScene outcome (s.on a) := by
    unfold PollReport.ofScene
    simp only [Scene.on_store, hrows]
    rfl
  refine ⟨.ofScene outcome (s.on a), fun row hrow => ?_, fun boundary hboundary => ?_⟩
  · obtain ⟨k, hget⟩ := OrderedMap.mem_values.1 hrow
    exact ha.free hget
  · simp only [List.mem_cons, List.not_mem_nil, or_false] at hboundary
    rcases hboundary with rfl | rfl | rfl
    · exact pollAlone_of_ends hpolled.ends_separate (halone _)
    · rw [← hsame]
      exact pollAlone_of_ends hshared (halone _)
    · exact pollAlone_of_polled rfl (halone _) haccepts (hpolled.withBoundary _)

/-- A world with one task, an executor and no processes. -/
def withOneTask : World (Job String) Unit :=
  { initial .epoch [] [.make 1] with
    shards := .ofList [(default, ⟨Store.empty.run (Store.stock .epoch), fun _ => 0⟩)] }

/-- A runner whose consumer works for five seconds and wants the task to come back after a minute,
and whose observer takes note of everything. -/
def returningRunner : Runner String :=
  { Engine.finishingRunner with
    processor := { Engine.finishingRunner.processor with
      listener := fun shard location event => ⟨[.task shard location event], none⟩
      consumer := { Engine.finishingRunner.processor.consumer with
        handle := fun _ _ =>
          ⟨[.advance (.ofSeconds 5)], .verdict (.reenqueue (some (.ofSeconds 60)))⟩ } } }

/-- What `boundaries_agree` says of this poll, which gives four notices and sets the attempts of its
task back. -/
theorem returning_boundaries_agree :
    withOneTask.Alone returningRunner ∧
    ((withOneTask.executor 0).request 0).2 = .granted ∧
    ((withOneTask.pollAlone 0 returningRunner).map fun report =>
      (report.outcome.toOption, report.trace.length,
        report.rows.values.map fun row => row.record.attempts)) =
      some (some .processed, 4, [0]) ∧
    ∃ report, (∀ row ∈ report.rows.values, row.holder = none) ∧
      ∀ boundary ∈ [.separate, .shared, .handedOver 0],
        withOneTask.pollAlone 0 { returningRunner with boundary := boundary } = some report := by
  have halone : withOneTask.Alone returningRunner := {
    shard := ⟨_, rfl, fun _ => rfl⟩
    reachable := Store.Reachable.run .empty _
    closed := fun t ht => by cases ht
    available := rfl
    listener := fun _ _ _ => rfl
    consumer := fun calls task effect heffect => by
      rw [List.mem_singleton.1 heffect]
      trivial
    unused := rfl }
  exact ⟨halone, rfl, rfl, boundaries_agree halone 0 rfl⟩

end World

end LeaseQueue
