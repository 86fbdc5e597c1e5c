import LeaseQueue.Proofs.ProcessRuns
import LeaseQueue.Runner

/-!
# Who asks for a deletion

The engine asks a store to delete a row at one place only, where the verdict of a consumer is
recorded.  `asks_delete_execute` follows a run of the work on a task to that place: before it the
payload was read and the consumer came to the verdict that the task is done.  The polls of the three
boundaries, the jobs and the producers follow from it.
-/

set_option autoImplicit false

namespace LeaseQueue

variable {ω α : Type}

open Process

/-- A request to delete a row. -/
def Request.isDelete : Request ω → Prop
  | .delete .. => True
  | _ => False

/-- The processes that delete nothing. -/
abbrev Process.DeletesNothing {β : Type} (p : Process ω β) : Prop := p.Only fun r => ¬ r.isDelete

/-- A process that deletes nothing never asks for a delete. -/
theorem Process.DeletesNothing.not_asks {β : Type} {p : Process ω β} (h : p.DeletesNothing)
    {es : List (Exchange ω)} {tx : Handle} {location : Location} {id : TaskId} :
    ¬ Asks p es (.delete tx location id) :=
  fun hasks => h.of_asks hasks trivial

/-! ## Stores and consumers -/

namespace Session

/-- A probe deletes nothing. -/
theorem probe_deletesNothing (shard : ShardId) (point : StorePoint) :
    (probe shard point : Action ω StoreError Unit).run.DeletesNothing :=
  only_ask not_false

/-- A look at the clock deletes nothing. -/
theorem now_deletesNothing {ε : Type} : (now : Action ω ε Instant).run.DeletesNothing :=
  only_lift (only_ask not_false)

/-- The begin of a transaction deletes nothing. -/
theorem begin_deletesNothing (shard : ShardId) :
    (begin shard : Action ω StoreError Handle).run.DeletesNothing :=
  only_run_bind (probe_deletesNothing _ _) fun _ => only_ask not_false

/-- To put a task in deletes nothing. -/
theorem enqueue_deletesNothing (tx : Handle) (location : Location) (task : NewTask) :
    (enqueue tx location task : Action ω StoreError TaskId).run.DeletesNothing :=
  only_run_bind (probe_deletesNothing _ _) fun _ => only_ask not_false

/-- A pick deletes nothing. -/
theorem pick_deletesNothing (tx : Handle) (location : Location) (lease : LeaseSchedule) :
    (pick tx location lease : Action ω StoreError (Option TaskRecord)).run.DeletesNothing :=
  only_run_bind (probe_deletesNothing _ _) fun _ => only_ask not_false

/-- To reschedule a task deletes nothing. -/
theorem reenqueue_deletesNothing (tx : Handle) (location : Location) (id : TaskId)
    (delay : Duration) (fresh : Bool) :
    (reenqueue tx location id delay fresh : Action ω StoreError Bool).run.DeletesNothing :=
  only_run_bind (probe_deletesNothing _ _) fun _ =>
    only_run_bind now_deletesNothing fun _ => only_ask not_false

/-- A commit deletes nothing by itself. -/
theorem commit_deletesNothing (tx : Handle) :
    (commit tx : Action ω StoreError Unit).run.DeletesNothing :=
  only_run_bind (probe_deletesNothing _ _) fun _ => only_ask not_false

/-- A delete asks for just the row that it is to delete. -/
theorem asks_delete {tx h : Handle} {location loc : Location} {id k : TaskId}
    {es : List (Exchange ω)} (hasks : Asks (delete tx location id).run es (.delete h loc k)) :
    h = tx ∧ loc = location ∧ k = id := by
  rcases asks_run_bind hasks with hasks | ⟨xs, ys, _, -, -, hasks⟩
  · exact absurd hasks (probe_deletesNothing _ _).not_asks
  · obtain ⟨-, heq⟩ := asks_ask hasks
    cases heq
    exact ⟨rfl, rfl, rfl⟩

/-- A begin that has succeeded was told of its transaction. -/
theorem returns_begin {shard : ShardId} {tx : Handle} {es : List (Exchange ω)}
    (h : Returns (begin shard).run es (.ok tx)) : ⟨.begin shard, .ok tx⟩ ∈ es := by
  obtain ⟨xs, ys, _, rfl, -, h⟩ := returns_run_bind h
  rw [returns_ask h]
  simp

/-- A pick that has succeeded was told of its record. -/
theorem returns_pick {tx : Handle} {location : Location} {lease : LeaseSchedule}
    {picked : Option TaskRecord} {es : List (Exchange ω)}
    (h : Returns (pick tx location lease).run es (.ok picked)) :
    ⟨.pick tx location lease, .ok picked⟩ ∈ es := by
  obtain ⟨xs, ys, _, rfl, -, h⟩ := returns_run_bind h
  rw [returns_ask h]
  simp

end Session

/-- What a consumer does on the side deletes nothing. -/
theorem Effect.process_deletesNothing (e : Effect) :
    (e.process : Process ω Unit).DeletesNothing := by
  cases e <;> exact only_ask not_false

/-- All that a consumer does on the side deletes nothing. -/
theorem Effect.processAll_deletesNothing (effects : List Effect) :
    (Effect.processAll effects : Process ω Unit).DeletesNothing := by
  induction effects with
  | nil => trivial
  | cons e rest ih => exact only_bind e.process_deletesNothing fun _ => ih

/-- A consumer cannot delete rows, whatever it does. -/
theorem Consumer.execute_deletesNothing (c : Consumer α) (task : Task α) :
    (c.execute task : Action ω QueueError Verdict).run.DeletesNothing := by
  refine only_run_bind (only_lift (only_ask not_false)) fun calls => ?_
  refine only_run_bind (only_lift (Effect.processAll_deletesNothing _)) fun _ => ?_
  cases (c.handle calls task).ending <;> trivial

/-- A producer deletes nothing. -/
theorem Producer.enqueue_deletesNothing (p : Producer α) (task : Submission α) :
    (p.enqueue task : Action ω QueueError Receipt).run.DeletesNothing := by
  unfold Producer.enqueue
  dsimp only
  split
  · split
    · trivial
    · refine only_withTransaction (Session.begin_deletesNothing _) (fun tx => ?_)
        fun _ => not_false
      exact only_run_bind (only_storing (Session.enqueue_deletesNothing _ _ _)) fun _ =>
        only_run_bind (only_storing (Session.commit_deletesNothing _)) fun _ => trivial
  · trivial

/-! ## Recording a verdict -/

/-- Only a task that is done with is deleted. -/
theorem Recorder.outcome_eq_delete {r : Recorder} {record : TaskRecord} {verdict : Verdict}
    (h : r.outcome record verdict = .ok .delete) : verdict = .finish := by
  cases verdict with
  | finish => rfl
  | reenqueue delay =>
    cases delay with
    | some d => cases h
    | none =>
      simp only [outcome] at h
      cases hdelay : r.reenqueue.delay record.id record.attempts <;> rw [hdelay] at h <;> cases h
  | fail delay => cases delay <;> cases h

/-- The change of a row asks for a delete only if it is one, and only of its row. -/
theorem Recorder.asks_delete_apply {r : Recorder} {tx h : Handle} {id k : TaskId}
    {outcome : Outcome} {loc : Location} {es : List (Exchange ω)}
    (hasks : Asks (r.apply tx id outcome).run es (.delete h loc k)) :
    outcome = .delete ∧ h = tx ∧ loc = r.location ∧ k = id := by
  cases outcome with
  | delete =>
    rcases asks_run_bind hasks with hasks | ⟨xs, ys, _, -, -, hasks⟩
    · exact ⟨rfl, Session.asks_delete (asks_storing hasks)⟩
    · exact absurd hasks not_asks_pure
  | reschedule delay fresh =>
    have hnothing : (r.apply tx id (.reschedule delay fresh) :
        Action ω QueueError Unit).run.DeletesNothing :=
      only_run_bind (only_storing (Session.reenqueue_deletesNothing _ _ _ _ _)) fun _ => trivial
    exact absurd hasks hnothing.not_asks
  | keep => exact absurd hasks not_asks_pure

/-- Only the verdict that the task is done makes for a deletion, in the transaction that is given or
in one that is opened for it. -/
theorem Recorder.asks_delete_record {r : Recorder} {record : TaskRecord} {verdict : Verdict}
    {tx : Option Handle} {h : Handle} {loc : Location} {k : TaskId} {es : List (Exchange ω)}
    (hasks : Asks (r.record record verdict tx).run es (.delete h loc k)) :
    verdict = .finish ∧ loc = r.location ∧ k = record.id ∧
      (tx = some h ∨ ⟨.begin r.shard, .ok h⟩ ∈ es) := by
  unfold Recorder.record at hasks
  cases houtcome : r.outcome record verdict with
  | error e =>
    rw [houtcome] at hasks
    exact absurd hasks not_asks_throw
  | ok outcome =>
    rw [houtcome] at hasks
    cases tx with
    | some tx =>
      have hasks : Asks (r.apply tx record.id outcome).run es (.delete h loc k) := by
        cases outcome with
        | keep => exact absurd hasks not_asks_pure
        | delete => exact hasks
        | reschedule delay fresh => exact hasks
      obtain ⟨rfl, rfl, hloc, hk⟩ := asks_delete_apply hasks
      exact ⟨outcome_eq_delete houtcome, hloc, hk, .inl rfl⟩
    | none =>
      have hasks : Asks (withTransaction r.shard fun tx => do
          r.apply tx record.id outcome
          storing (Session.commit tx)).run es (.delete h loc k) := by
        cases outcome with
        | keep => exact absurd hasks not_asks_pure
        | delete => exact hasks
        | reschedule delay fresh => exact hasks
      rcases asks_withTransaction hasks with hbegin | ⟨xs, ys, tx, rfl, hbegin, hbody | hlast⟩
      · exact absurd hbegin (Session.begin_deletesNothing _).not_asks
      · rcases asks_run_bind hbody with happly | ⟨xs', ys', _, -, -, hcommit⟩
        · obtain ⟨rfl, rfl, hloc, hk⟩ := asks_delete_apply happly
          have hmem := Session.returns_begin hbegin
          exact ⟨outcome_eq_delete houtcome, hloc, hk, .inr (List.mem_append_left _ hmem)⟩
        · exact absurd (asks_storing hcommit) (Session.commit_deletesNothing _).not_asks
      · cases hlast

/-! ## Working on a task -/

namespace Processor

/-- In these exchanges the payload of a task has been read and the consumer called with it, and the
consumer has come to the verdict that the task is done. -/
def Finished (p : Processor α) (record : TaskRecord) (es : List (Exchange ω)) : Prop :=
  ∃ before during after payload, es = before ++ (during ++ after) ∧
    p.consumer.codec.read record.payload = .value payload ∧
    Returns (p.consumer.execute (.ofRecord p.shard payload record)).run during (.ok .finish)

/-- A task that is finished is so whatever was said before. -/
theorem Finished.append_left {p : Processor α} {record : TaskRecord} {es : List (Exchange ω)}
    (h : p.Finished record es) (xs : List (Exchange ω)) : p.Finished record (xs ++ es) := by
  obtain ⟨before, during, after, payload, rfl, hread, hreturns⟩ := h
  exact ⟨xs ++ before, during, after, payload, (List.append_assoc _ _ _).symm, hread, hreturns⟩

/-- A task that is finished is so whatever is said after it. -/
theorem Finished.append_right {p : Processor α} {record : TaskRecord} {es : List (Exchange ω)}
    (h : p.Finished record es) (ys : List (Exchange ω)) : p.Finished record (es ++ ys) := by
  obtain ⟨before, during, after, payload, rfl, hread, hreturns⟩ := h
  exact ⟨before, during, after ++ ys, payload, by simp only [List.append_assoc], hread, hreturns⟩

/-- To tell the observer deletes nothing. -/
theorem tell_deletesNothing (p : Processor α) (event : TaskEvent) :
    (p.tell event : Process ω Unit).DeletesNothing :=
  only_react (fun _ => not_false) _

/-- To read the task of a row deletes nothing. -/
theorem task_deletesNothing (p : Processor α) (record : TaskRecord) :
    (p.task record : Action ω QueueError (Task α)).run.DeletesNothing := by
  unfold task
  split <;> trivial

/-- The task of a row is the row with its payload read. -/
theorem returns_task {p : Processor α} {record : TaskRecord} {task : Task α}
    {es : List (Exchange ω)} (h : Returns (p.task record).run es (.ok task)) :
    ∃ payload, p.consumer.codec.read record.payload = .value payload ∧
      task = .ofRecord p.shard payload record := by
  unfold Processor.task at h
  cases hread : p.consumer.codec.read record.payload with
  | value payload =>
    rw [hread] at h
    exact ⟨payload, rfl, (returns_pure h).2⟩
  | unreadable =>
    rw [hread] at h
    exact absurd h not_returns_throw
  | panics cause =>
    rw [hread] at h
    cases h

/-- What is known when the work on a task asks for a deletion: the consumer has come to the verdict
that the task is done, and the deletion is that of its row, in the given transaction or in one that
was opened for it. -/
structure AsksDelete (p : Processor α) (record : TaskRecord) (tx : Option Handle)
    (es : List (Exchange ω)) (h : Handle) (location : Location) (id : TaskId) : Prop where
  finished : p.Finished record es
  location_eq : location = p.location
  id_eq : id = record.id
  transaction : tx = some h ∨ ⟨.begin p.shard, .ok h⟩ ∈ es

/-- Who asks for a delete does so whatever was said before. -/
theorem AsksDelete.append_left {p : Processor α} {record : TaskRecord} {tx : Option Handle}
    {es : List (Exchange ω)} {h : Handle} {location : Location} {id : TaskId}
    (hasks : p.AsksDelete record tx es h location id) (xs : List (Exchange ω)) :
    p.AsksDelete record tx (xs ++ es) h location id where
  finished := hasks.finished.append_left xs
  location_eq := hasks.location_eq
  id_eq := hasks.id_eq
  transaction := hasks.transaction.imp_right fun hmem => List.mem_append_right _ hmem

/-- The work on a task asks for a deletion only after the consumer's verdict. -/
theorem asks_delete_execute {p : Processor α} {record : TaskRecord} {tx : Option Handle}
    {es : List (Exchange ω)} {h : Handle} {location : Location} {id : TaskId}
    (hasks : Asks (p.execute record tx).run es (.delete h location id)) :
    p.AsksDelete record tx es h location id := by
  -- nothing that comes before the recording of the verdict deletes anything
  rcases asks_run_bind hasks with hasks | ⟨reading, es, task, rfl, htask, hasks⟩
  · exact absurd hasks (p.task_deletesNothing record).not_asks
  rcases asks_run_bind hasks with hasks | ⟨clock, es, start, rfl, -, hasks⟩
  · exact absurd hasks Session.now_deletesNothing.not_asks
  rcases asks_run_bind hasks with hasks | ⟨during, es, verdict, rfl, hverdict, hasks⟩
  · exact absurd hasks (p.consumer.execute_deletesNothing task).not_asks
  rcases asks_run_bind hasks with hasks | ⟨clock', es, stop, rfl, -, hasks⟩
  · exact absurd hasks Session.now_deletesNothing.not_asks
  rcases asks_run_bind hasks with hasks | ⟨notices, es, _, rfl, -, hasks⟩
  · exact absurd (asks_lift hasks) (p.tell_deletesNothing _).not_asks
  obtain ⟨rfl, hlocation, hid, htransaction⟩ := Recorder.asks_delete_record hasks
  obtain ⟨payload, hread, rfl⟩ := returns_task htask
  refine ⟨⟨reading ++ clock, during, clock' ++ (notices ++ es), payload, ?_, hread, hverdict⟩,
    hlocation, hid, htransaction.imp_right fun hmem => ?_⟩
  · simp only [List.append_assoc]
  · simp only [List.mem_append]
    exact .inr (.inr (.inr (.inr (.inr hmem))))

/-- So does all that is done about a task, whatever goes wrong with it. -/
theorem asks_delete_process {p : Processor α} {record : TaskRecord} {tx : Option Handle}
    {es : List (Exchange ω)} {h : Handle} {location : Location} {id : TaskId}
    (hasks : Asks (p.process record tx) es (.delete h location id)) :
    p.AsksDelete record tx es h location id := by
  rcases asks_bind hasks with hasks | ⟨started, es, _, rfl, -, hasks⟩
  · exact absurd hasks (p.tell_deletesNothing _).not_asks
  refine AsksDelete.append_left ?_ started
  rcases asks_bind hasks with hasks | ⟨xs, ys, outcome, rfl, -, hasks⟩
  · exact asks_delete_execute (asks_attempt hasks)
  -- whatever the work has come to, it is only told to the listener
  refine absurd hasks (Process.DeletesNothing.not_asks ?_)
  rcases outcome with cause | e | ⟨⟩
  · exact only_bind (p.tell_deletesNothing _) fun _ => p.tell_deletesNothing _
  · exact only_bind (p.tell_deletesNothing _) fun _ => p.tell_deletesNothing _
  · exact p.tell_deletesNothing _

end Processor

/-! ## Polls -/

/-- A pick with its observer deletes nothing. -/
theorem pickTask_deletesNothing (shard : ShardId) (location : Location) (lease : LeaseSchedule)
    (listener : TaskListener) (tx : Handle) :
    (pickTask shard location lease listener tx :
      Action ω StoreError (Option TaskRecord)).run.DeletesNothing := by
  refine only_run_bind Session.now_deletesNothing fun start => ?_
  refine only_run_bind (Session.pick_deletesNothing _ _ _) fun picked => ?_
  cases picked with
  | none => trivial
  | some record =>
    exact only_run_bind Session.now_deletesNothing fun stop =>
      only_run_bind (only_lift (only_react (fun _ => not_false) _)) fun _ => trivial

/-- A task that is picked is one that the store has given. -/
theorem returns_pickTask {shard : ShardId} {location : Location} {lease : LeaseSchedule}
    {listener : TaskListener} {tx : Handle} {record : TaskRecord} {es : List (Exchange ω)}
    (h : Returns (pickTask shard location lease listener tx).run es (.ok (some record))) :
    ⟨.pick tx location lease, .ok (some record)⟩ ∈ es := by
  obtain ⟨clock, es, start, rfl, -, h⟩ := returns_run_bind h
  obtain ⟨xs, ys, picked, rfl, hpick, h⟩ := returns_run_bind h
  have hmem := Session.returns_pick hpick
  cases picked with
  | none => cases (returns_pure h).2
  | some found =>
    obtain ⟨clock', es, stop, rfl, -, h⟩ := returns_run_bind h
    obtain ⟨notices, es, _, rfl, -, h⟩ := returns_run_bind h
    cases (returns_pure h).2
    simp only [List.mem_append]
    exact .inr (.inl hmem)

namespace Runner

/-- In these exchanges a task with this identifier has been picked, and then the consumer has come
to the verdict that it is done. -/
def Finished (r : Runner α) (id : TaskId) (es : List (Exchange ω)) : Prop :=
  ∃ picking working record tx, es = picking ++ working ∧ record.id = id ∧
    ⟨.pick tx r.processor.location r.lease, .ok (some record)⟩ ∈ picking ∧
    r.processor.Finished record working

/-- A poll has finished a task whatever is said after it. -/
theorem Finished.append_right {r : Runner α} {id : TaskId} {es : List (Exchange ω)}
    (h : r.Finished id es) (ys : List (Exchange ω)) : r.Finished id (es ++ ys) := by
  obtain ⟨picking, working, record, tx, rfl, hid, hmem, hfinished⟩ := h
  exact ⟨picking, working ++ ys, record, tx, List.append_assoc _ _ _, hid, hmem,
    hfinished.append_right ys⟩

/-- The pick of a runner deletes nothing. -/
theorem pick_deletesNothing (r : Runner α) (tx : Handle) :
    (r.pick tx : Action ω QueueError (Option TaskRecord)).run.DeletesNothing :=
  only_storing (pickTask_deletesNothing _ _ _ _ _)

/-- A pick with its commit deletes nothing. -/
theorem pickAndCommit_deletesNothing (r : Runner α) :
    (r.pickAndCommit : Action ω QueueError (Option TaskRecord)).run.DeletesNothing := by
  refine only_withTransaction (Session.begin_deletesNothing _) (fun tx => ?_) fun _ => not_false
  exact only_run_bind (r.pick_deletesNothing tx) fun picked =>
    only_run_bind (only_storing (Session.commit_deletesNothing tx)) fun _ => trivial

/-- A pick with its commit that has found a record was told of it. -/
theorem returns_pickAndCommit {r : Runner α} {record : TaskRecord} {es : List (Exchange ω)}
    (h : Returns r.pickAndCommit.run es (.ok (some record))) :
    ∃ tx, ⟨.pick tx r.processor.location r.lease, .ok (some record)⟩ ∈ es := by
  obtain ⟨xs, ys, zs, tx, rfl, -, h⟩ := returns_withTransaction h
  obtain ⟨picking, ys, picked, rfl, hpick, h⟩ := returns_run_bind h
  obtain ⟨committing, ys, _, rfl, -, h⟩ := returns_run_bind h
  cases (returns_pure h).2
  have hmem := returns_pickTask (returns_storing hpick)
  refine ⟨tx, ?_⟩
  simp only [List.mem_append]
  exact .inr (.inl (.inl hmem))

/-- A poll in separate transactions deletes only a task that is finished, in its queue and in a
transaction of its own. -/
theorem asks_delete_pollSeparate {r : Runner α} {es : List (Exchange ω)} {h : Handle}
    {location : Location} {id : TaskId}
    (hasks : Asks r.pollSeparate.run es (.delete h location id)) :
    r.Finished id es ∧ location = r.processor.location ∧
      ⟨.begin r.processor.shard, .ok h⟩ ∈ es := by
  rcases asks_run_bind hasks with hasks | ⟨picking, working, picked, rfl, hpick, hasks⟩
  · exact absurd hasks r.pickAndCommit_deletesNothing.not_asks
  cases picked with
  | none => exact absurd hasks not_asks_pure
  | some record =>
    obtain ⟨tx, hmem⟩ := returns_pickAndCommit hpick
    rcases asks_run_bind hasks with hasks | ⟨xs, ys, _, -, -, hasks⟩
    · obtain ⟨hfinished, hlocation, hid, htransaction⟩ :=
        Processor.asks_delete_process (asks_lift hasks)
      refine ⟨⟨picking, working, record, tx, rfl, hid.symm, hmem, hfinished⟩, hlocation, ?_⟩
      rcases htransaction with hnone | hbegin
      · cases hnone
      · exact List.mem_append_right _ hbegin
    · exact absurd hasks not_asks_pure

/-- A poll in one transaction deletes only a task that is finished, in its queue and in a
transaction of its own. -/
theorem asks_delete_pollShared {r : Runner α} {es : List (Exchange ω)} {h : Handle}
    {location : Location} {id : TaskId}
    (hasks : Asks r.pollShared.run es (.delete h location id)) :
    r.Finished id es ∧ location = r.processor.location ∧
      ⟨.begin r.processor.shard, .ok h⟩ ∈ es := by
  rcases asks_withTransaction hasks with hbegin | ⟨opening, es, tx, rfl, hbegin, hbody | hlast⟩
  · exact absurd hbegin (Session.begin_deletesNothing _).not_asks
  · rcases asks_run_bind hbody with hasks | ⟨picking, working, picked, rfl, hpick, hasks⟩
    · exact absurd hasks (r.pick_deletesNothing tx).not_asks
    cases picked with
    | none =>
      rcases asks_run_bind hasks with hasks | ⟨xs, ys, _, -, -, hasks⟩
      · exact absurd (asks_storing hasks) (Session.commit_deletesNothing tx).not_asks
      · exact absurd hasks not_asks_pure
    | some record =>
      rcases asks_run_bind hasks with hasks | ⟨xs, ys, _, -, -, hasks⟩
      · obtain ⟨hfinished, hlocation, hid, htransaction⟩ :=
          Processor.asks_delete_process (asks_lift hasks)
        have hmem := returns_pickTask (returns_storing hpick)
        refine ⟨⟨opening ++ picking, working, record, tx, (List.append_assoc _ _ _).symm, hid.symm,
          List.mem_append_right _ hmem, hfinished⟩, hlocation, ?_⟩
        rcases htransaction with hgiven | hopened
        · cases hgiven
          exact List.mem_append_left _ (Session.returns_begin hbegin)
        · exact List.mem_append_right _ (List.mem_append_right _ hopened)
      · rcases asks_run_bind hasks with hasks | ⟨xs, ys, _, -, -, hasks⟩
        · exact absurd (asks_storing hasks) (Session.commit_deletesNothing tx).not_asks
        · exact absurd hasks not_asks_pure
  · cases hlast

/-- A poll that hands its task over deletes nothing. -/
theorem pollHandingOver_deletesNothing (r : Runner α) (executor : ExecutorId) :
    (r.pollHandingOver executor).run.DeletesNothing := by
  refine only_run_bind r.pickAndCommit_deletesNothing fun picked => ?_
  cases picked with
  | none => trivial
  | some record =>
    refine only_run_bind (only_lift (only_ask not_false)) fun granted => ?_
    split
    · exact only_run_bind (only_lift (only_ask not_false)) fun _ => trivial
    · trivial

/-- A poll asks for a deletion only in a transaction of its shard, of the row of its queue that it
has picked, and after the consumer's verdict. -/
theorem asks_delete_poll {r : Runner α} {es : List (Exchange (Job α))} {h : Handle}
    {location : Location} {id : TaskId} (hasks : Asks r.poll.run es (.delete h location id)) :
    r.Finished id es ∧ location = r.processor.location ∧
      ⟨.begin r.processor.shard, .ok h⟩ ∈ es := by
  unfold poll at hasks
  split at hasks
  · exact asks_delete_pollSeparate hasks
  · exact asks_delete_pollShared hasks
  · next executor _ => exact absurd hasks (r.pollHandingOver_deletesNothing executor).not_asks

end Runner

end LeaseQueue
