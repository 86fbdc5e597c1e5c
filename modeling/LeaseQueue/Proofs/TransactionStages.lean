import LeaseQueue.Proofs.EngineRuns
import LeaseQueue.Proofs.ProcessProtocols

/-!
# How the engine uses transactions

A process of the engine has at most one transaction at a time, and in it does one thing only: it
picks a task, puts one in, or records an outcome.  Only of the row that the same transaction has
picked may the outcome be recorded there too.  `Standing` is what the exchanges of a process say of
its transaction and of its pick, and `Deed.follows` says that every producer, poll and job keeps to
this.

A process may have to wait in its consumer, for a row or for a slot of an executor.  `Deed.waits` is
how it stands then, which depends on the boundary of its transactions.
-/

set_option autoImplicit false

namespace LeaseQueue

variable {ω α : Type}

/-- How far a process has come with its transaction. -/
inductive Stage
  | outside
  /-- The transaction holds nothing. -/
  | opened (tx : Handle)
  | picked (tx : Handle) (location : Location) (record : TaskRecord)
  /-- The transaction has done what it was opened for, and may have ended. -/
  | spent (tx : Handle)

/-- The transaction of a stage. -/
def Stage.handle? : Stage → Option Handle
  | outside => none
  | opened tx => some tx
  | picked tx _ _ => some tx
  | spent tx => some tx

/-- Only outside a transaction there is no handle. -/
theorem Stage.handle?_eq_none {stage : Stage} : stage.handle? = none ↔ stage = .outside := by
  cases stage <;> simp [handle?]

/-- Whether a row has been picked in the transaction. -/
def Stage.hasPicked : Stage → Bool
  | picked .. => true
  | _ => false

/-- What a process has picked, and in which transaction. -/
structure Catch where
  tx : Handle
  location : Location
  record : TaskRecord

/-- How a process stands after its exchanges. -/
structure Standing where
  stage : Stage
  pick : Option Catch
  /-- The pick has been committed, and nothing else since. -/
  leased : Bool
  /-- The consumer has been called, or the task has been handed over. -/
  served : Bool

namespace Standing

def initial : Standing := ⟨.outside, none, false, false⟩

/-- How a process stands once it has been told what a pick has found. -/
def afterPick (s : Standing) (tx : Handle) (location : Location) : Option TaskRecord → Standing
  | none => s
  | some record =>
    { s with stage := .picked tx location record, pick := some ⟨tx, location, record⟩ }

/-- How a process stands after one more exchange. -/
def after (s : Standing) : Exchange ω → Standing
  | ⟨.begin _, reply⟩ =>
    match (reply : Except StoreError Handle) with
    | .ok tx => { s with stage := .opened tx }
    | .error _ => s
  | ⟨.enqueue tx _ _, _⟩ => { s with stage := .spent tx }
  | ⟨.pick tx location _, reply⟩ =>
    match (reply : Except StoreError (Option TaskRecord)) with
    | .ok picked => s.afterPick tx location picked
    | .error _ => { s with stage := .spent tx }
  | ⟨.delete tx _ _, _⟩ => { s with stage := .spent tx }
  | ⟨.reenqueue tx _ _ _ _ _, _⟩ => { s with stage := .spent tx }
  | ⟨.commit tx, reply⟩ =>
    match (reply : Except StoreError Unit) with
    | .ok () => { s with stage := .spent tx, leased := s.stage.hasPicked }
    | .error _ => { s with stage := .spent tx }
  | ⟨.rollback tx, _⟩ => { s with stage := .spent tx }
  | ⟨.abandon _, _⟩ => { s with stage := .outside }
  | ⟨.invocation _, _⟩ => { s with served := true }
  | ⟨.handOver _ _, _⟩ => { s with served := true }
  | _ => s

/-- A row may be changed in a transaction that holds nothing, or in the one that has picked it. -/
def MayWrite (s : Standing) (tx : Handle) (location : Location) (id : TaskId) : Prop :=
  s.stage = .opened tx ∨ ∃ record, s.stage = .picked tx location record ∧ record.id = id

/-- What may be written is written in the transaction at hand. -/
theorem MayWrite.handle? {s : Standing} {tx : Handle} {location : Location} {id : TaskId}
    (h : s.MayWrite tx location id) : s.stage.handle? = some tx := by
  rcases h with hstage | ⟨record, hstage, -⟩
  · rw [hstage]
    rfl
  · rw [hstage]
    rfl

/-- The requests that are permitted to a process that uses one shard; where it may have to wait, it
stands as it has to. -/
def Permits (home : ShardId) (waits : Standing → Prop) (s : Standing) : Request ω → Prop
  | .begin shard => s.stage = .outside ∧ shard = home
  | .enqueue tx _ _ => s.stage = .opened tx
  | .pick tx _ _ => s.stage = .opened tx ∧ s.pick = none
  | .delete tx location id => s.MayWrite tx location id ∧ waits s
  | .reenqueue tx _ location id _ _ => s.MayWrite tx location id ∧ waits s
  | .commit tx => s.stage.handle? = some tx
  | .rollback tx => s.stage.handle? = some tx
  | .abandon tx => s.stage.handle? = some tx
  | .pass _ => waits s
  | .slot _ => waits s
  | .passBefore _ _ | .drained _ _ => False
  | .sleepUntil _ => False
  | .pauseUntil _ => False
  | .ended _ _ => False
  | .abort _ => False
  | _ => True

/-- A transaction that was opened for a shard is one of this shard. -/
def Trusts : Exchange ω → Prop
  | ⟨.begin shard, reply⟩ =>
    match (reply : Except StoreError Handle) with
    | .ok tx => tx.shard = shard
    | .error _ => True
  | _ => True

/-- The protocol of the processes that use one shard. -/
def protocol (home : ShardId) (waits : Standing → Prop) : Protocol ω Standing where
  permits := Permits home waits
  after := after
  trusts := Trusts

end Standing

section Parts

open Process

variable {home : ShardId} {waits : Standing → Prop} {s : Standing}

/-! ## The operations of a store -/

namespace Session

/-- A probe leaves the transactions where they stand. -/
theorem follows_probe (shard : ShardId) (point : StorePoint) :
    Action.Follows (Standing.protocol home waits) (fun _ s' => s' = s) (fun s' => s' = s)
      (probe shard point : Action ω StoreError Unit) s := by
  refine ⟨trivial, ?_⟩
  rintro (e | u) -
  · exact rfl
  · exact rfl

/-- Reading the clock leaves the transactions where they stand. -/
theorem follows_now {ε : Type} :
    Action.Follows (Standing.protocol home waits) (fun _ s' => s' = s) (fun s' => s' = s)
      (now : Action ω ε Instant) s :=
  ⟨trivial, fun _ _ => rfl⟩

/-- An operation of a store asks for a failure first, which changes nothing, and then for the
operation. -/
theorem follows_probed {β : Type} {shard : ShardId} {point : StorePoint}
    {operation : Action ω StoreError β} {Q : β → Standing → Prop} {E : Standing → Prop}
    (hE : E s) (h : Action.Follows (Standing.protocol home waits) Q E operation s) :
    Action.Follows (Standing.protocol home waits) Q E (probe shard point >>= fun _ => operation)
      s := by
  refine Action.follows_bind (R := fun _ s' => s' = s) ?_ ?_
  · refine (follows_probe shard point).mono (fun _ _ heq => heq) ?_
    rintro s' rfl
    exact hE
  · rintro _ s' rfl
    exact h

/-- A transaction is begun outside of any other. -/
theorem follows_begin (hstage : s.stage = .outside) :
    Action.Follows (Standing.protocol home waits)
      (fun tx s' => s' = { s with stage := .opened tx } ∧ tx.shard = home) (fun s' => s' = s)
      (begin home : Action ω StoreError Handle) s := by
  refine follows_probed rfl ⟨⟨hstage, rfl⟩, ?_⟩
  rintro (e | tx) htrusts
  · exact rfl
  · exact ⟨rfl, htrusts⟩

/-- An insertion keeps to the open transaction. -/
theorem follows_enqueue {tx : Handle} {location : Location} {task : NewTask}
    (hstage : s.stage = .opened tx) :
    Action.Follows (Standing.protocol home waits) (fun _ s' => s'.stage.handle? = some tx)
      (fun s' => s'.stage.handle? = some tx)
      (enqueue tx location task : Action ω StoreError TaskId) s := by
  refine follows_probed (by rw [hstage]; rfl) ⟨hstage, ?_⟩
  rintro (e | id) -
  · exact rfl
  · exact rfl

/-- A pick keeps to the open transaction, and there is one at most. -/
theorem follows_pick {tx : Handle} {location : Location} {lease : LeaseSchedule}
    (hstage : s.stage = .opened tx) (hpick : s.pick = none) :
    Action.Follows (Standing.protocol home waits)
      (fun picked s' => s' = s.afterPick tx location picked)
      (fun s' => s'.stage.handle? = some tx)
      (pick tx location lease : Action ω StoreError (Option TaskRecord)) s := by
  refine follows_probed (by rw [hstage]; rfl) ⟨⟨hstage, hpick⟩, ?_⟩
  rintro (e | picked) -
  · exact rfl
  · exact rfl

/-- A deletion keeps to the transaction that may write the row. -/
theorem follows_delete {tx : Handle} {location : Location} {id : TaskId}
    (hwrite : s.MayWrite tx location id) (hwaits : waits s) :
    Action.Follows (Standing.protocol home waits) (fun _ s' => s'.stage.handle? = some tx)
      (fun s' => s'.stage.handle? = some tx)
      (delete tx location id : Action ω StoreError Bool) s := by
  refine follows_probed hwrite.handle? ⟨⟨hwrite, hwaits⟩, ?_⟩
  rintro (e | found) -
  · exact rfl
  · exact rfl

/-- A rescheduling keeps to the transaction that may write the row. -/
theorem follows_reenqueue {tx : Handle} {location : Location} {id : TaskId} {delay : Duration}
    {fresh : Bool} (hwrite : s.MayWrite tx location id) (hwaits : waits s) :
    Action.Follows (Standing.protocol home waits) (fun _ s' => s'.stage.handle? = some tx)
      (fun s' => s'.stage.handle? = some tx)
      (reenqueue tx location id delay fresh : Action ω StoreError Bool) s := by
  refine follows_probed hwrite.handle? ?_
  refine Action.follows_bind (R := fun _ s' => s' = s) ?_ ?_
  · refine follows_now.mono (fun _ _ heq => heq) ?_
    rintro s' rfl
    exact hwrite.handle?
  · rintro asOf s' rfl
    refine ⟨⟨hwrite, hwaits⟩, ?_⟩
    rintro (e | found) -
    · exact rfl
    · exact rfl

/-- A commit leaves the transaction, or is left in it by an error. -/
theorem follows_commit {tx : Handle} (hstage : s.stage.handle? = some tx) :
    Action.Follows (Standing.protocol home waits)
      (fun _ s' => s' = { s with stage := .spent tx, leased := s.stage.hasPicked })
      (fun s' => s'.stage.handle? = some tx) (commit tx : Action ω StoreError Unit) s := by
  refine follows_probed hstage ⟨hstage, ?_⟩
  rintro (e | u) -
  · exact rfl
  · exact rfl

end Session

/-- In a transaction for one part the part has the stage to itself, and the stage is empty
afterwards. -/
theorem follows_withTransaction {β : Type} {body : Handle → Action ω QueueError β}
    {Q : β → Standing → Prop} {E : Standing → Prop} (hstage : s.stage = .outside) (hE : E s)
    (hbody : ∀ tx, tx.shard = home → Action.Follows (Standing.protocol home waits)
      (fun b s' => s'.stage.handle? = some tx ∧ Q b { s' with stage := .outside })
      (fun s' => s'.stage.handle? = some tx ∧ E { s' with stage := .outside })
      (body tx) { s with stage := .opened tx }) :
    Action.Follows (Standing.protocol home waits) Q E (withTransaction home body) s := by
  refine Action.follows_bind (R := fun tx s' => s' = { s with stage := .opened tx } ∧
    tx.shard = home) (Action.follows_storing ?_) ?_
  · refine (Session.follows_begin hstage).mono (fun _ _ h => h) ?_
    rintro s' rfl
    exact hE
  · rintro tx s' ⟨rfl, hhome⟩
    refine follows_followedBy (hbody tx hhome) ?_
    rintro (cause | e | b) s' ⟨hhandle, hend⟩
    · exact ⟨hhandle, fun _ _ => ⟨rfl, hend⟩⟩
    · exact ⟨hhandle, fun _ _ => ⟨rfl, hend⟩⟩
    · exact ⟨hhandle, fun _ _ => ⟨rfl, hend⟩⟩

/-! ## Recording an outcome -/

namespace Standing

/-- A process may work on a task and record the outcome in a transaction that has picked it, or else
in one of its own, and may wait where it has to. -/
structure Equipped (waits : Standing → Prop) (s : Standing) (tx : Option Handle)
    (location : Location) (id : TaskId) : Prop where
  handle : s.stage.handle? = tx
  here : waits s
  given : ∀ h, tx = some h → s.MayWrite h location id
  own : tx = none → ∀ h, waits { s with stage := .opened h }

end Standing

namespace Recorder

/-- Applying an outcome keeps to the transaction that may write the row. -/
theorem follows_apply {r : Recorder} {tx : Handle} {id : TaskId} (outcome : Outcome)
    (hwrite : s.MayWrite tx r.location id) (hwaits : waits s) :
    Action.Follows (Standing.protocol home waits) (fun _ s' => s'.stage.handle? = some tx)
      (fun s' => s'.stage.handle? = some tx)
      (r.apply tx id outcome : Action ω QueueError Unit) s := by
  cases outcome with
  | delete =>
    exact Action.follows_bind (Action.follows_storing (Session.follows_delete hwrite hwaits))
      fun _ _ h => h
  | reschedule delay fresh =>
    exact Action.follows_bind (Action.follows_storing (Session.follows_reenqueue hwrite hwaits))
      fun _ _ h => h
  | keep => exact hwrite.handle?

/-- An outcome is recorded in a transaction of its own. -/
def separately (r : Recorder) (id : TaskId) (outcome : Outcome) : Action ω QueueError Unit :=
  withTransaction r.shard fun tx => do
    r.apply tx id outcome
    storing (Session.commit tx)

/-- An outcome that is applied in a transaction of its own ends outside of it. -/
theorem follows_separately {r : Recorder} {id : TaskId} (outcome : Outcome) (hhome : r.shard = home)
    (h : s.Equipped waits none r.location id) :
    Action.Follows (Standing.protocol home waits) (fun _ s' => s'.stage.handle? = none)
      (fun s' => s'.stage.handle? = none)
      (r.separately id outcome : Action ω QueueError Unit) s := by
  have hstage := Stage.handle?_eq_none.1 h.handle
  subst hhome
  refine follows_withTransaction hstage h.handle fun tx _ => ?_
  refine Action.follows_bind (R := fun _ s' => s'.stage.handle? = some tx) ?_ ?_
  · refine (follows_apply outcome (.inl rfl) (h.own rfl tx)).mono (fun _ _ h => h) ?_
    exact fun s' hs' => ⟨hs', rfl⟩
  · intro _ s' hs'
    refine (Action.follows_storing (Session.follows_commit hs')).mono ?_ ?_
    · rintro _ s'' rfl
      exact ⟨rfl, rfl⟩
    · exact fun s'' hs'' => ⟨hs'', rfl⟩

/-- Recording a verdict ends in the transaction in which it began. -/
theorem follows_record {r : Recorder} {record : TaskRecord} {verdict : Verdict}
    {tx : Option Handle} (hhome : r.shard = home)
    (h : s.Equipped waits tx r.location record.id) :
    Action.Follows (Standing.protocol home waits) (fun _ s' => s'.stage.handle? = tx)
      (fun s' => s'.stage.handle? = tx)
      (r.record record verdict tx : Action ω QueueError Unit) s := by
  unfold Recorder.record
  cases r.outcome record verdict with
  | error e => exact h.handle
  | ok outcome =>
    -- a verdict that changes something is recorded in the given transaction or in one of its own
    cases tx with
    | some tx =>
      have hmay := h.given tx rfl
      cases outcome with
      | keep => exact h.handle
      | delete => exact follows_apply .delete hmay h.here
      | reschedule delay fresh => exact follows_apply (.reschedule delay fresh) hmay h.here
    | none =>
      cases outcome with
      | keep => exact h.handle
      | delete => exact follows_separately .delete hhome h
      | reschedule delay fresh => exact follows_separately (.reschedule delay fresh) hhome h

end Recorder

/-! ## Working on a task -/

/-- A report leaves the transactions where they stand. -/
theorem idle_report (notice : Notice) :
    (Standing.protocol home waits : Protocol ω Standing).Idle s (.report notice) :=
  ⟨trivial, fun _ => rfl⟩

/-- What a consumer does leaves its process where it is; it may have to wait there. -/
theorem Effect.processAll_idle (hwaits : waits s) (effects : List Effect) :
    (Effect.processAll effects : Process ω Unit).Only
      ((Standing.protocol home waits).Idle s) := by
  induction effects with
  | nil => trivial
  | cons e rest ih =>
    refine only_bind ?_ fun _ => ih
    cases e with
    | announce notice => exact only_ask ⟨trivial, fun _ => rfl⟩
    | advance duration => exact only_ask ⟨trivial, fun _ => rfl⟩
    | outage shard on => exact only_ask ⟨trivial, fun _ => rfl⟩
    | pass gate => exact only_ask ⟨hwaits, fun _ => rfl⟩

/-- A consumer leaves the transactions where they stand, and has served the task. -/
theorem Consumer.follows_execute {E : Standing → Prop} (hE : E { s with served := true })
    (hwaits : waits { s with served := true }) (c : Consumer α) (task : Task α) :
    Action.Follows (Standing.protocol home waits) (fun _ s' => s' = { s with served := true }) E
      (c.execute task : Action ω QueueError Verdict) s := by
  refine Action.follows_bind (R := fun _ s' => s' = { s with served := true }) ?_ ?_
  · exact Action.follows_lift ⟨trivial, fun _ _ => rfl⟩
  · rintro calls s' rfl
    have honly : ((c.handle calls task).process : Action ω QueueError Verdict).run.Only
        ((Standing.protocol home waits).Idle { s with served := true }) := by
      refine only_run_bind (only_lift (Effect.processAll_idle hwaits _)) fun _ => ?_
      cases (c.handle calls task).ending <;> trivial
    refine (Action.follows_of_only honly).mono (fun _ _ heq => heq) ?_
    rintro s' rfl
    exact hE

namespace Processor

variable {p : Processor α}

/-- Telling an observer leaves the transactions where they stand. -/
theorem follows_tell (event : TaskEvent) :
    (p.tell event : Process ω Unit).Follows (Standing.protocol home waits)
      (fun _ s' => s' = s) s :=
  follows_of_only (only_react idle_report _)

/-- Reading a task leaves the transactions where they stand. -/
theorem follows_task (record : TaskRecord) :
    Action.Follows (Standing.protocol home waits) (fun _ s' => s' = s) (fun s' => s' = s)
      (p.task record : Action ω QueueError (Task α)) s := by
  refine Action.follows_of_only ?_
  unfold Processor.task
  split <;> trivial

/-- A task ends in the transaction in which it began. -/
theorem follows_execute {record : TaskRecord} {tx : Option Handle} (hhome : p.shard = home)
    (h : { s with served := true : Standing }.Equipped waits tx p.location record.id) :
    Action.Follows (Standing.protocol home waits) (fun _ s' => s'.stage.handle? = tx)
      (fun s' => s'.stage.handle? = tx)
      (p.execute record tx : Action ω QueueError Unit) s := by
  have hs : ∀ s', s' = s → s'.stage.handle? = tx := by
    rintro s' rfl
    exact h.handle
  refine Action.follows_bind ((follows_task record).mono (fun _ _ heq => heq) hs) ?_
  rintro task s' rfl
  refine Action.follows_bind (Session.follows_now.mono (fun _ _ heq => heq) hs) ?_
  rintro start s' rfl
  refine Action.follows_bind (p.consumer.follows_execute h.handle h.here task) ?_
  rintro verdict s' rfl
  generalize { s' with served := true : Standing } = s at h
  have hserved : ∀ s', s' = s → s'.stage.handle? = tx := by
    rintro s' rfl
    exact h.handle
  refine Action.follows_bind (Session.follows_now.mono (fun _ _ heq => heq) hserved) ?_
  rintro stop s' rfl
  refine Action.follows_bind (R := fun _ s'' => s'' = s') (Action.follows_lift ?_) ?_
  · refine (follows_tell _).mono ?_
    rintro (cause | u) s'' heq
    · exact hserved s'' heq
    · exact heq
  · rintro _ s'' rfl
    exact Recorder.follows_record hhome h

/-- Working on a task leaves its process in the transaction that it was in, whatever goes wrong. -/
theorem follows_process {record : TaskRecord} {tx : Option Handle} (hhome : p.shard = home)
    (h : { s with served := true : Standing }.Equipped waits tx p.location record.id) :
    (p.process record tx : Process ω Unit).Follows (Standing.protocol home waits)
      (fun _ s' => s'.stage.handle? = tx) s := by
  have htell : ∀ {s' : Standing} (event : TaskEvent), s'.stage.handle? = tx →
      (p.tell event : Process ω Unit).Follows (Standing.protocol home waits)
        (fun _ s'' => s''.stage.handle? = tx) s' := by
    intro s' event hs'
    refine (follows_tell event).mono ?_
    rintro o s'' rfl
    exact hs'
  refine Process.follows_bind (follows_tell _) ?_ ?_
  · rintro _ s' rfl
    refine Process.follows_bind (R := fun _ s' => s'.stage.handle? = tx)
      (follows_attempt (follows_execute hhome h) ?_) ?_ fun _ _ hs' => hs'
    · rintro (cause | e | u) s'' hs''
      · exact hs''
      · exact hs''
      · exact hs''
    · -- whatever the work has come to, it is only told to the observer
      rintro (cause | e | u) s'' hs''
      · exact Process.follows_bind (htell _ hs'') (fun _ _ hs' => htell _ hs') fun _ _ hs' => hs'
      · exact Process.follows_bind (htell _ hs'') (fun _ _ hs' => htell _ hs') fun _ _ hs' => hs'
      · exact htell _ hs''
  · rintro cause s' rfl
    exact h.handle

end Processor

/-! ## Polls -/

/-- A pick stays in its transaction. -/
theorem Standing.handle?_afterPick {tx : Handle} (h : s.stage = .opened tx) (location : Location)
    (picked : Option TaskRecord) : (s.afterPick tx location picked).stage.handle? = some tx := by
  cases picked with
  | none => exact congrArg Stage.handle? h
  | some record => rfl

namespace Runner

variable {r : Runner α}

/-- The pick of a runner keeps to the open transaction. -/
theorem follows_pick {tx : Handle} (hstage : s.stage = .opened tx) (hpick : s.pick = none) :
    Action.Follows (Standing.protocol home waits)
      (fun picked s' => s' = s.afterPick tx r.processor.location picked)
      (fun s' => s'.stage.handle? = some tx)
      (r.pick tx : Action ω QueueError (Option TaskRecord)) s := by
  have hhandle : s.stage.handle? = some tx := congrArg Stage.handle? hstage
  refine Action.follows_storing (Action.follows_bind (R := fun _ s' => s' = s) ?_ ?_)
  · refine Session.follows_now.mono (fun _ _ heq => heq) ?_
    rintro s' rfl
    exact hhandle
  rintro start s' rfl
  refine Action.follows_bind (Session.follows_pick hstage hpick) ?_
  rintro picked s'' rfl
  have hpicked := Standing.handle?_afterPick hstage r.processor.location picked
  cases picked with
  | none => exact rfl
  | some record =>
    refine Action.follows_bind (R := fun _ s'' => s'' = s'.afterPick tx r.processor.location record)
      ?_ ?_
    · refine Session.follows_now.mono (fun _ _ heq => heq) ?_
      rintro s'' rfl
      exact hpicked
    rintro stop s'' rfl
    refine Action.follows_bind (R := fun _ s'' => s'' = s'.afterPick tx r.processor.location record)
      (Action.follows_lift ?_) ?_
    · refine (follows_of_only (only_react idle_report _)).mono ?_
      rintro (cause | u) s'' rfl
      · exact hpicked
      · exact rfl
    · rintro _ s'' rfl
      exact rfl

/-- The lease of a task that was picked is committed. -/
structure Leased (r : Runner α) (home : ShardId) (served : Bool) (record : TaskRecord)
    (s : Standing) : Prop where
  pick : ∃ tx, tx.shard = home ∧ s.pick = some ⟨tx, r.processor.location, record⟩
  leased : s.leased = true
  served : s.served = served

/-- A pick that is committed by itself ends outside of its transaction, with the row leased. -/
theorem follows_pickAndCommit (hhome : r.processor.shard = home) (hstage : s.stage = .outside)
    (hpick : s.pick = none) :
    Action.Follows (Standing.protocol home waits)
      (fun picked s' => s'.stage = .outside ∧
        ∀ record, picked = some record → r.Leased home s.served record s')
      (fun s' => s'.stage = .outside)
      (r.pickAndCommit : Action ω QueueError (Option TaskRecord)) s := by
  subst hhome
  refine follows_withTransaction hstage hstage fun tx hshard => ?_
  refine Action.follows_bind
    (R := fun picked s' => s' = ({ s with stage := .opened tx } : Standing).afterPick tx
      r.processor.location picked) ?_ ?_
  · exact (follows_pick (s := { s with stage := .opened tx }) rfl hpick).mono (fun _ _ heq => heq)
      fun _ h => ⟨h, rfl⟩
  rintro picked s' rfl
  have hhandle := Standing.handle?_afterPick (s := { s with stage := .opened tx }) rfl
    r.processor.location picked
  refine Action.follows_bind (R := fun _ s' => s'.stage.handle? = some tx ∧
    ∀ record, picked = some record → r.Leased r.processor.shard s.served record s')
    (Action.follows_storing ((Session.follows_commit hhandle).mono ?_ fun _ h => ⟨h, rfl⟩)) ?_
  · rintro _ s' rfl
    refine ⟨rfl, ?_⟩
    rintro record rfl
    exact ⟨⟨tx, hshard, rfl⟩, rfl, rfl⟩
  · rintro _ s' ⟨hs', hleased⟩
    refine ⟨hs', rfl, fun record hrecord => ?_⟩
    obtain ⟨hpick, hcommitted, hserved⟩ := hleased record hrecord
    exact ⟨hpick, hcommitted, hserved⟩

end Runner

end Parts

/-! ## Deeds -/

/-- How a poll stands while it waits. -/
def Boundary.Waits : Boundary → Catch → Standing → Prop
  | .separate, _, s => s.leased = true ∧ (s.stage = .outside ∨ ∃ tx, s.stage = .opened tx)
  | .shared, c, s => s.stage = .picked c.tx c.location c.record
  | .handedOver _, _, s => s.leased = true ∧ s.stage = .outside ∧ s.served = false

/-- A poll waits only after it has picked. -/
def Runner.Waits (r : Runner α) (s : Standing) : Prop :=
  ∃ c, s.pick = some c ∧ c.tx.shard = r.processor.shard ∧ c.location = r.processor.location ∧
    r.boundary.Waits c s

namespace Deed

/-- The shard that a deed is about. -/
def home : Deed α → ShardId
  | produce producer task => producer.router.route task
  | poll runner => runner.processor.shard
  | work job => job.processor.shard

/-- How the process of a deed stands while it waits. -/
def Waits : Deed α → Standing → Prop
  | produce .., _ => False
  | poll runner, s => runner.Waits s
  | work _, s => s.stage = .outside ∨ ∃ tx, s.stage = .opened tx

/-- The protocol of a deed. -/
def protocol (deed : Deed α) : Protocol (Job α) Standing := Standing.protocol deed.home deed.Waits

end Deed

namespace Runner

open Process

variable {r : Runner α}

/-- A poll in separate transactions keeps to its protocol. -/
theorem follows_pollSeparate (hboundary : r.boundary = .separate) :
    Action.Follows (Deed.poll r).protocol (fun _ s => s.stage = .outside)
      (fun s => s.stage = .outside) r.pollSeparate .initial := by
  refine Action.follows_bind (follows_pickAndCommit rfl rfl rfl) ?_
  rintro picked s ⟨hstage, hleased⟩
  cases picked with
  | none => exact hstage
  | some record =>
    obtain ⟨⟨tx, hshard, hpick⟩, hcommitted, -⟩ := hleased record rfl
    have hwaits : ∀ stage, (stage = .outside ∨ ∃ h, stage = .opened h) →
        (Deed.poll r).Waits { s with stage := stage, served := true } := by
      intro stage hwhere
      refine ⟨_, hpick, hshard, rfl, ?_⟩
      rw [hboundary]
      exact ⟨hcommitted, hwhere⟩
    have hequipped : { s with served := true : Standing }.Equipped (Deed.poll r).Waits none
        r.processor.location record.id := by
      refine ⟨Stage.handle?_eq_none.2 hstage, hwaits _ (.inl hstage), ?_, ?_⟩
      · intro h heq
        cases heq
      · intro _ h
        exact hwaits _ (.inr ⟨h, rfl⟩)
    refine Action.follows_bind (R := fun _ (s : Standing) => s.stage = .outside)
      (Action.follows_lift ?_) fun _ _ h => h
    refine (Processor.follows_process rfl hequipped).mono ?_
    rintro (cause | u) s' hs'
    · exact Stage.handle?_eq_none.1 hs'
    · exact Stage.handle?_eq_none.1 hs'

/-- A poll in a shared transaction keeps to its protocol. -/
theorem follows_pollShared (hboundary : r.boundary = .shared) :
    Action.Follows (Deed.poll r).protocol (fun _ s => s.stage = .outside)
      (fun s => s.stage = .outside) r.pollShared .initial := by
  have houtside : Standing.initial.stage = .outside := rfl
  refine follows_withTransaction houtside houtside fun tx hshard => ?_
  refine Action.follows_bind
    (R := fun picked s => s = ({ Standing.initial with stage := .opened tx } : Standing).afterPick tx
      r.processor.location picked) ?_ ?_
  · exact (follows_pick (s := { Standing.initial with stage := .opened tx }) rfl rfl).mono
      (fun _ _ heq => heq) fun _ h => ⟨h, rfl⟩
  rintro picked s rfl
  -- the last thing in the transaction is its commit, whether a task was picked or not
  have hcommit : ∀ (status : PollStatus) (s : Standing), s.stage.handle? = some tx →
      Action.Follows (Deed.poll r).protocol
        (fun _ s' => s'.stage.handle? = some tx ∧ { s' with stage := .outside }.stage = .outside)
        (fun s' => s'.stage.handle? = some tx ∧ { s' with stage := .outside }.stage = .outside)
        (do storing (Session.commit tx); pure status : Action (Job α) QueueError PollStatus) s := by
    intro status s hs
    refine Action.follows_bind (R := fun _ s' => s'.stage.handle? = some tx)
      (Action.follows_storing ((Session.follows_commit hs).mono ?_ fun _ h => ⟨h, rfl⟩))
      fun _ _ h => ⟨h, rfl⟩
    rintro _ s' rfl
    exact rfl
  cases picked with
  | none => exact hcommit .skipped _ rfl
  | some record =>
    have hequipped : { (Standing.initial.afterPick tx r.processor.location (some record)) with
        served := true : Standing }.Equipped (Deed.poll r).Waits (some tx)
        r.processor.location record.id := by
      refine ⟨rfl, ⟨_, rfl, hshard, rfl, ?_⟩, ?_, ?_⟩
      · rw [hboundary]
        exact rfl
      · rintro h heq
        cases heq
        exact .inr ⟨record, rfl, rfl⟩
      · intro heq
        cases heq
    refine Action.follows_bind (R := fun _ s => s.stage.handle? = some tx) (Action.follows_lift ?_)
      fun _ s' hs' => hcommit .processed s' hs'
    refine (Processor.follows_process rfl hequipped).mono ?_
    rintro (cause | u) s' hs'
    · exact ⟨hs', rfl⟩
    · exact hs'

/-- A poll that hands over keeps to its protocol. -/
theorem follows_pollHandingOver {executor : ExecutorId}
    (hboundary : r.boundary = .handedOver executor) :
    Action.Follows (Deed.poll r).protocol (fun _ s => s.stage = .outside)
      (fun s => s.stage = .outside) (r.pollHandingOver executor) .initial := by
  refine Action.follows_bind (follows_pickAndCommit rfl rfl rfl) ?_
  rintro picked s ⟨hstage, hleased⟩
  cases picked with
  | none => exact hstage
  | some record =>
    obtain ⟨⟨tx, hshard, hpick⟩, hcommitted, hserved⟩ := hleased record rfl
    have hwaits : (Deed.poll r).Waits s := by
      refine ⟨_, hpick, hshard, rfl, ?_⟩
      rw [hboundary]
      exact ⟨hcommitted, hstage, hserved⟩
    refine Action.follows_bind (R := fun _ s' => s' = s)
      (Action.follows_lift ⟨hwaits, fun _ _ => rfl⟩) ?_
    rintro granted s' rfl
    cases granted with
    | true =>
      exact Action.follows_bind (R := fun _ (s : Standing) => s.stage = .outside)
        (Action.follows_lift ⟨trivial, fun _ _ => hstage⟩) fun _ _ h => h
    | false => exact hstage

/-- Every poll keeps to its protocol. -/
theorem follows_poll (r : Runner α) :
    Action.Follows (Deed.poll r).protocol (fun _ s => s.stage = .outside)
      (fun s => s.stage = .outside) r.poll .initial := by
  unfold Runner.poll
  split
  · next h => exact follows_pollSeparate h
  · next h => exact follows_pollShared h
  · next executor h => exact follows_pollHandingOver h

end Runner

/-- Every call of a producer keeps to its protocol. -/
theorem Producer.follows_enqueue (producer : Producer α) (task : Submission α) :
    Action.Follows (Deed.produce producer task).protocol (fun _ s => s.stage = .outside)
      (fun s => s.stage = .outside)
      (producer.enqueue task : Action (Job α) QueueError Receipt) .initial := by
  unfold Producer.enqueue
  simp only
  split
  · cases producer.codec.write task.payload with
    | error e => exact rfl
    | ok payload =>
      have houtside : Standing.initial.stage = .outside := rfl
      refine follows_withTransaction houtside houtside fun tx _ => ?_
      refine Action.follows_bind (R := fun _ s => s.stage.handle? = some tx)
        (Action.follows_storing ((Session.follows_enqueue rfl).mono (fun _ _ h => h)
          fun _ h => ⟨h, rfl⟩)) ?_
      intro id s hs
      refine Action.follows_bind (R := fun _ s => s.stage.handle? = some tx)
        (Action.follows_storing ((Session.follows_commit hs).mono ?_ fun _ h => ⟨h, rfl⟩))
        fun _ _ h => ⟨h, rfl⟩
      rintro _ s' rfl
      exact rfl
  · exact rfl

/-- Every job keeps to its protocol. -/
theorem Job.follows_work (job : Job α) :
    job.work.Follows (Deed.work job).protocol (fun _ s => s.stage = .outside) .initial := by
  have hequipped : { Standing.initial with served := true : Standing }.Equipped
      (Deed.work job).Waits none job.processor.location job.record.id := by
    refine ⟨rfl, .inl rfl, ?_, ?_⟩
    · intro h heq
      cases heq
    · intro _ h
      exact .inr ⟨h, rfl⟩
  have hprocess : job.work.Follows (Deed.work job).protocol (fun _ s => s.stage.handle? = none)
      .initial := Processor.follows_process rfl hequipped
  exact hprocess.mono fun _ s' hs' => Stage.handle?_eq_none.1 hs'

/-- Whatever happens to it, the process of a deed asks only what its standing permits, and when it
ends it has no transaction. -/
theorem Deed.follows (deed : Deed α) :
    deed.program.Follows deed.protocol (fun _ s => s.stage = .outside) .initial := by
  have hignoring : ∀ {β : Type} {x : Action (Job α) QueueError β},
      Action.Follows deed.protocol (fun _ s => s.stage = .outside) (fun s => s.stage = .outside) x
        .initial → x.run.ignoring.Follows deed.protocol (fun _ s => s.stage = .outside) .initial := by
    intro β x h
    refine Process.follows_bind h ?_ fun _ _ hs => hs
    rintro (e | b) s hs
    · exact hs
    · exact hs
  cases deed with
  | produce producer task => exact hignoring (producer.follows_enqueue task)
  | poll runner => exact hignoring runner.follows_poll
  | work job => exact job.follows_work

end LeaseQueue
