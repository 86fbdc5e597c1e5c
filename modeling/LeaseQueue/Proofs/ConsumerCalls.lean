import LeaseQueue.Proofs.LoopRounds
import LeaseQueue.Proofs.TransactionStages

/-!
# Which tasks consumers are called with

A loop or a job picks rows, and calls its consumer with what it reads from a row that was picked.
It uses only transactions that have been opened for it, and puts nothing in.  `Knowledge` is what a
process has been told so far: its transactions and its rows.  `Process.Serves` says that a process
asks nothing beyond its knowledge, and that every call of the consumer is one with the task of a row
that it knows (`Processor.Delivers`).

Main statements: `PollLoop.serves_round` and `Job.serves_work`.
-/

set_option autoImplicit false

namespace LeaseQueue

variable {α β γ ω ε : Type}

open Process

/-! ## Calls of consumers -/

/-- What is left of a process is a call of a consumer with a task, and then something that goes on
with what comes of it. -/
def Process.Hands (c : Consumer α) (task : Task α) (p : Process ω β) : Prop :=
  ∃ rest : Except Panic (Except QueueError Verdict) → Process ω β,
    p = (c.execute task).run.attempt.bind rest

namespace Process

/-- What catches panics does not panic itself. -/
theorem attempt_attempt_bind (p : Process ω α) (f : Except Panic α → Process ω β) :
    (p.attempt.bind f).attempt = p.attempt.bind fun outcome => (f outcome).attempt := by
  induction p with
  | done a => rfl
  | panic cause => rfl
  | call r next ih => exact congrArg (Process.call r) (funext ih)

/-- A panic that was caught is thrown again. -/
theorem attempt_bind_rethrow (p : Process ω α) :
    (p.attempt.bind fun
      | .ok a => .done a
      | .error cause => .panic cause) = p := by
  induction p with
  | done a => rfl
  | panic cause => rfl
  | call r next ih => exact congrArg (Process.call r) (funext ih)

variable {c : Consumer α} {task : Task α}

/-- A consumer that is called is handed its task. -/
theorem hands_execute : (c.execute task : Action ω QueueError Verdict).run.Hands c task :=
  ⟨_, (attempt_bind_rethrow _).symm⟩

/-- What a process hands to the consumer it also does with something after it. -/
theorem Hands.bind {p : Process ω β} (h : p.Hands c task) (f : β → Process ω γ) :
    (p.bind f).Hands c task := by
  obtain ⟨rest, rfl⟩ := h
  exact ⟨_, bind_bind _ _ _⟩

/-- What a process hands to the consumer it also does inside an attempt. -/
theorem Hands.attempt {p : Process ω β} (h : p.Hands c task) : p.attempt.Hands c task := by
  obtain ⟨rest, rfl⟩ := h
  exact ⟨_, attempt_attempt_bind _ _⟩

end Process

/-- What is left of a process is a call of the consumer with the task of one of these rows. -/
def Processor.Delivers (q : Processor α) (rows : List TaskRecord) (p : Process ω β) : Prop :=
  ∃ record ∈ rows, ∃ payload, q.consumer.codec.read record.payload = .value payload ∧
    p.Hands q.consumer (.ofRecord q.shard payload record)

/-! ## What a process knows -/

/-- What a process has been told. -/
structure Knowledge where
  /-- The transactions that have been opened for it. -/
  opened : List Handle
  /-- The rows that it may work on. -/
  picked : List TaskRecord

namespace Knowledge

/-- What a process knows after one more exchange. -/
def after (k : Knowledge) : Exchange ω → Knowledge
  | ⟨.begin _, reply⟩ =>
    match (reply : Except StoreError Handle) with
    | .ok tx => { k with opened := tx :: k.opened }
    | .error _ => k
  | ⟨.pick _ _ _, reply⟩ =>
    match (reply : Except StoreError (Option TaskRecord)) with
    | .ok (some record) => { k with picked := record :: k.picked }
    | _ => k
  | _ => k

/-- Nothing is forgotten. -/
structure Within (k k' : Knowledge) : Prop where
  opened : ∀ tx ∈ k.opened, tx ∈ k'.opened
  picked : ∀ record ∈ k.picked, record ∈ k'.picked

/-- What is known is known. -/
theorem Within.refl (k : Knowledge) : k.Within k := ⟨fun _ h => h, fun _ h => h⟩

/-- What is known at first is known at last. -/
theorem Within.trans {k k' k'' : Knowledge} (h : k.Within k') (h' : k'.Within k'') :
    k.Within k'' :=
  ⟨fun tx htx => h'.opened tx (h.opened tx htx), fun record hrecord =>
    h'.picked record (h.picked record hrecord)⟩

/-- Nothing that is known is forgotten after an answer. -/
theorem within_after (k : Knowledge) (x : Exchange ω) : k.Within (k.after x) := by
  obtain ⟨r, reply⟩ := x
  cases r with
  | begin shard =>
    cases reply with
    | ok tx => exact ⟨fun _ h => List.mem_cons_of_mem _ h, fun _ h => h⟩
    | error e => exact .refl k
  | pick tx location lease =>
    rcases reply with e | _ | record
    · exact .refl k
    · exact .refl k
    · exact ⟨fun _ h => h, fun _ h => List.mem_cons_of_mem _ h⟩
  | _ => exact .refl k

end Knowledge

/-- Requests that need no knowledge. -/
def Request.Free : Request ω → Prop
  | .enqueue .. | .pick .. | .delete .. | .reenqueue .. | .commit _ | .rollback _ | .abandon _
  | .handOver .. | .invocation _ => False
  | _ => True

/-- What a process that works for a queue on a shard may ask: it puts nothing in, uses its own
transactions only, and picks and hands over for its queue. -/
def Processor.Permits (q : Processor α) (k : Knowledge) : Request (Job α) → Prop
  | .enqueue .. => False
  | .pick tx location _ => tx ∈ k.opened ∧ tx.shard = q.shard ∧ location = q.location
  | .delete tx _ _ => tx ∈ k.opened
  | .reenqueue tx _ _ _ _ _ => tx ∈ k.opened
  | .commit tx => tx ∈ k.opened
  | .rollback tx => tx ∈ k.opened
  | .abandon tx => tx ∈ k.opened
  | .handOver _ job => job.processor = q ∧ job.record ∈ k.picked
  | _ => True

/-- A free request may be asked whatever is known. -/
theorem Request.Free.permits {r : Request (Job α)} (h : r.Free) (q : Processor α) (k : Knowledge) :
    q.Permits k r := by
  cases r <;> trivial

/-! ## Processes that serve a queue -/

namespace Process

variable {q : Processor α} {k : Knowledge}

/-- The process asks only what its knowledge permits, and calls the consumer with the task of a row
that it knows. -/
def Serves (q : Processor α) (Q : β → Knowledge → Prop) : Process (Job α) β → Knowledge → Prop
  | .done b, k => Q b k
  | .panic _, _ => True
  | .call r next, k => q.Permits k r ∧
    (∀ consumer, r = .invocation consumer → q.Delivers k.picked (.call r next)) ∧
    ∀ reply, Standing.Trusts ⟨r, reply⟩ → (next reply).Serves q Q (k.after ⟨r, reply⟩)

section Rules

variable {Q : β → Knowledge → Prop}

/-- What follows from the end of a process holds at its end. -/
theorem Serves.mono {p : Process (Job α) β} {Q' : β → Knowledge → Prop} (h : p.Serves q Q k)
    (hQ : ∀ b k', Q b k' → Q' b k') : p.Serves q Q' k := by
  induction p generalizing k with
  | done b => exact hQ b k h
  | panic cause => trivial
  | call r next ih =>
    exact ⟨h.1, h.2.1, fun reply htrusts => ih reply (h.2.2 reply htrusts)⟩

/-- What the process knew at its beginning it knows at its end. -/
theorem Serves.within {p : Process (Job α) β} (h : p.Serves q Q k) :
    p.Serves q (fun b k' => k.Within k' ∧ Q b k') k := by
  induction p generalizing k with
  | done b => exact ⟨.refl k, h⟩
  | panic cause => trivial
  | call r next ih =>
    refine ⟨h.1, h.2.1, fun reply htrusts => ?_⟩
    refine (ih reply (h.2.2 reply htrusts)).mono fun b k' hb => ⟨?_, hb.2⟩
    exact (k.within_after ⟨r, reply⟩).trans hb.1

/-- What is left of a process goes on serving with what has been told to it. -/
theorem Serves.runs {p left : Process (Job α) β} {es : List (Exchange (Job α))}
    (h : p.Serves q Q k) (hruns : Runs p es left) (htrusts : ∀ x ∈ es, Standing.Trusts x) :
    left.Serves q Q (es.foldl Knowledge.after k) := by
  induction hruns generalizing k with
  | nil => exact h
  | cons _ ih =>
    exact ih (h.2.2 _ (htrusts _ List.mem_cons_self)) fun x hx =>
      htrusts x (List.mem_cons_of_mem _ hx)

/-- A sequence serves a processor if its parts do, the second with what is known after the first. -/
theorem serves_bind {p : Process (Job α) γ} {f : γ → Process (Job α) β}
    {R : γ → Knowledge → Prop} (h : p.Serves q R k)
    (hf : ∀ c k', k.Within k' → R c k' → (f c).Serves q Q k') : (p.bind f).Serves q Q k := by
  have hplain : ∀ {R' : γ → Knowledge → Prop} {k : Knowledge}, p.Serves q R' k →
      (∀ c k', R' c k' → (f c).Serves q Q k') → (p.bind f).Serves q Q k := by
    clear h hf
    intro R' k h hf
    induction p generalizing k with
    | done c => exact hf c k h
    | panic cause => trivial
    | call r next ih =>
      refine ⟨h.1, fun consumer hr => ?_, fun reply htrusts => ih reply (h.2.2 reply htrusts)⟩
      obtain ⟨record, hrecord, payload, hread, hhands⟩ := h.2.1 consumer hr
      exact ⟨record, hrecord, payload, hread, hhands.bind f⟩
  exact hplain h.within fun c k' hc => hf c k' hc.1 hc.2

/-- An attempt serves a processor as the process does that it guards. -/
theorem serves_attempt {p : Process (Job α) β} (h : p.Serves q Q k) :
    p.attempt.Serves q (fun outcome k' => ∀ b, outcome = .ok b → Q b k') k := by
  induction p generalizing k with
  | done b =>
    rintro b' heq
    cases heq
    exact h
  | panic cause =>
    rintro b heq
    cases heq
  | call r next ih =>
    refine ⟨h.1, fun consumer hr => ?_, fun reply htrusts => ih reply (h.2.2 reply htrusts)⟩
    obtain ⟨record, hrecord, payload, hread, hhands⟩ := h.2.1 consumer hr
    exact ⟨record, hrecord, payload, hread, hhands.attempt⟩

/-- A process with free requests only serves every processor. -/
theorem serves_of_only {p : Process (Job α) β} (h : p.Only Request.Free) :
    p.Serves q (fun _ _ => True) k := by
  induction p generalizing k with
  | done b => trivial
  | panic cause => trivial
  | call r next ih =>
    refine ⟨h.1.permits q k, fun consumer hr => ?_, fun reply _ => ih reply (h.2 reply)⟩
    subst hr
    exact h.1.elim

/-- A transaction that was opened for the process may be abandoned last. -/
theorem serves_followedBy {p : Process (Job α) β} {tx : Handle} (h : p.Serves q Q k)
    (htx : tx ∈ k.opened) : (p.followedBy (.ask (.abandon tx))).Serves q Q k := by
  refine serves_bind (serves_attempt h) fun outcome k' hk houtcome => ?_
  refine ⟨hk.opened tx htx, nofun, fun _ _ => ?_⟩
  cases outcome with
  | ok b => exact houtcome b rfl
  | error cause => trivial

/-- A single request that needs no knowledge. -/
theorem serves_ask {r : Request (Job α)} (h : r.Free) : (ask r).Serves q (fun _ _ => True) k :=
  serves_of_only (only_ask h)

end Rules

end Process

/-! ## Parts that may fail -/

namespace Action

open Process

variable {q : Processor α} {k : Knowledge}

/-- A part serves a queue, and what holds if it returns. -/
def Serves (q : Processor α) (Q : β → Knowledge → Prop) (x : Action (Job α) ε β)
    (k : Knowledge) : Prop :=
  x.run.Serves q (fun outcome k' => ∀ b, outcome = .ok b → Q b k') k

variable {Q : β → Knowledge → Prop}

/-- What follows from the end of an action holds at its end. -/
theorem Serves.mono {x : Action (Job α) ε β} {Q' : β → Knowledge → Prop} (h : Serves q Q x k)
    (hQ : ∀ b k', Q b k' → Q' b k') : Serves q Q' x k :=
  Process.Serves.mono h fun _ k' hQb b hb => hQ b k' (hQb b hb)

/-- A sequence of actions serves a processor if its parts do. -/
theorem serves_bind {x : Action (Job α) ε γ} {f : γ → Action (Job α) ε β}
    {R : γ → Knowledge → Prop} (h : Serves q R x k)
    (hf : ∀ c k', k.Within k' → R c k' → Serves q Q (f c) k') : Serves q Q (x >>= f) k := by
  unfold Serves
  rw [run_bind]
  refine Process.serves_bind h fun outcome k' hk houtcome => ?_
  cases outcome with
  | ok c => exact hf c k' hk (houtcome c rfl)
  | error e => exact fun b hb => nomatch hb

/-- An action that does nothing serves every processor. -/
theorem serves_pure {b : β} (h : Q b k) : Serves q Q (pure b : Action (Job α) ε β) k := by
  rintro b' heq
  cases heq
  exact h

/-- An action that fails at once serves every processor. -/
theorem serves_throw (e : ε) : Serves q Q (throw e : Action (Job α) ε β) k := by
  rintro b heq
  cases heq

/-- A process among actions serves a processor as it does by itself. -/
theorem serves_lift {p : Process (Job α) β} (h : p.Serves q Q k) :
    Serves q Q (ExceptT.lift p : Action (Job α) ε β) k := by
  refine Process.serves_bind h fun b k' _ hb => ?_
  rintro b' heq
  cases heq
  exact hb

/-- An action on a store serves a processor whatever becomes of its error. -/
theorem serves_storing {x : Action (Job α) StoreError β} (h : Serves q Q x k) :
    Serves q Q (storing x) k := by
  refine Process.serves_bind h fun outcome k' _ houtcome => ?_
  rintro b heq
  cases outcome with
  | ok b' =>
    cases heq
    exact houtcome b rfl
  | error e => cases heq

/-- An action with free requests only serves every processor. -/
theorem serves_of_only {x : Action (Job α) ε β} (h : x.run.Only Request.Free) :
    Serves q (fun _ _ => True) x k :=
  (Process.serves_of_only h).mono fun _ _ _ _ _ => trivial

/-- The part of a process that is in a transaction knows this transaction. -/
theorem serves_withTransaction {body : Handle → Action (Job α) QueueError β}
    (hbody : ∀ tx k', tx.shard = q.shard → k.Within k' → tx ∈ k'.opened →
      Serves q Q (body tx) k') : Serves q Q (withTransaction q.shard body) k := by
  have hbegin : Serves q (fun tx k' => tx.shard = q.shard ∧ tx ∈ k'.opened)
      (storing (Session.begin q.shard)) k := by
    refine serves_storing (serves_bind (serves_of_only (only_ask trivial)) fun _ k' _ _ => ?_)
    refine ⟨trivial, nofun, fun reply htrusts tx heq => ?_⟩
    cases reply with
    | ok tx' =>
      cases heq
      exact ⟨htrusts, List.mem_cons_self⟩
    | error e => cases heq
  refine serves_bind hbegin fun tx k' hk hopened => ?_
  exact serves_followedBy (hbody tx k' hopened.1 hk hopened.2) hopened.2

end Action

/-! ## Loops and jobs -/

section Programs

variable {q : Processor α} {k : Knowledge} {tx : Handle}

/-- An operation of a store asks for a failure first. -/
theorem Session.serves_probed {shard : ShardId} {point : StorePoint}
    {operation : Action (Job α) StoreError β} {Q : β → Knowledge → Prop}
    (h : ∀ k', k.Within k' → Action.Serves q Q operation k') :
    Action.Serves q Q (Session.probe shard point >>= fun _ => operation) k :=
  Action.serves_bind (Action.serves_of_only (only_ask trivial)) fun _ k' hk _ => h k' hk

/-- To look at the clock serves every processor. -/
theorem Session.serves_now {ε : Type} :
    Action.Serves q (fun _ _ => True) (Session.now : Action (Job α) ε Instant) k :=
  Action.serves_of_only (only_lift (only_ask trivial))

/-- A request that is permitted to its process and is not the call of a consumer. -/
theorem Action.serves_request {r : Request (Job α)} {ask : r.Reply → Except ε β}
    (hpermits : q.Permits k r) (hcall : ∀ consumer, r ≠ .invocation consumer) :
    Action.Serves q (fun _ _ => True)
      (ExceptT.mk (.call r fun reply => .done (ask reply)) : Action (Job α) ε β) k :=
  ⟨hpermits, fun consumer hr => absurd hr (hcall consumer), fun _ _ _ _ => trivial⟩

/-- To commit a transaction that has been opened serves every processor. -/
theorem Session.serves_commit (htx : tx ∈ k.opened) :
    Action.Serves q (fun _ _ => True) (Session.commit tx) k :=
  serves_probed fun _ hk => Action.serves_request (hk.opened tx htx) nofun

/-- What a pick finds is known from then on. -/
theorem Runner.serves_pick {r : Runner α} (htx : tx ∈ k.opened)
    (hshard : tx.shard = r.processor.shard) :
    Action.Serves r.processor (fun picked k' => ∀ record, picked = some record → record ∈ k'.picked)
      (r.pick tx) k := by
  refine Action.serves_storing ?_
  unfold pickTask
  refine Action.serves_bind Session.serves_now fun start k₁ hk₁ _ => ?_
  refine Action.serves_bind
    (R := fun picked k' => ∀ record, picked = some record → record ∈ k'.picked)
    (Session.serves_probed fun k₂ hk₂ => ?_) fun picked k₂ _ hpicked => ?_
  · refine ⟨⟨hk₂.opened tx (hk₁.opened tx htx), hshard, rfl⟩, nofun, fun reply _ => ?_⟩
    rintro picked heq record rfl
    cases heq
    exact List.mem_cons_self
  · cases picked with
    | none =>
      refine Action.serves_pure fun record heq => ?_
      cases heq
    | some record =>
      refine Action.serves_bind Session.serves_now fun stop k₃ hk₃ _ => ?_
      refine Action.serves_bind (Action.serves_lift
        (Process.serves_of_only (only_react (fun _ => trivial) _))) fun _ k₄ hk₄ _ => ?_
      refine Action.serves_pure fun record' heq => ?_
      cases heq
      exact hk₄.picked record (hk₃.picked record (hpicked record rfl))

/-- A pick with its commit serves the processor, which knows of the record then. -/
theorem Runner.serves_pickAndCommit (r : Runner α) :
    Action.Serves r.processor (fun picked k' => ∀ record, picked = some record → record ∈ k'.picked)
      r.pickAndCommit k := by
  refine Action.serves_withTransaction fun tx k₁ hshard _ htx => ?_
  refine Action.serves_bind (Runner.serves_pick htx hshard) fun picked k₂ hk₂ hpicked => ?_
  refine Action.serves_bind (Action.serves_storing (Session.serves_commit (hk₂.opened tx htx)))
    fun _ k₃ hk₃ _ => ?_
  exact Action.serves_pure fun record heq => hk₃.picked record (hpicked record heq)

/-- To change the row of a task in a transaction that has been opened serves every processor. -/
theorem Recorder.serves_apply (r : Recorder) (id : TaskId) (outcome : Outcome)
    (htx : tx ∈ k.opened) :
    Action.Serves q (fun _ _ => True) (r.apply tx id outcome) k := by
  cases outcome with
  | delete =>
    refine Action.serves_bind (R := fun _ _ => True) (Action.serves_storing
      (Session.serves_probed fun k' hk => ?_)) fun _ _ _ _ => Action.serves_pure trivial
    exact Action.serves_request (hk.opened tx htx) nofun
  | reschedule delay fresh =>
    refine Action.serves_bind (R := fun _ _ => True) (Action.serves_storing
      (Session.serves_probed fun k' hk => ?_)) fun _ _ _ _ => Action.serves_pure trivial
    refine Action.serves_bind Session.serves_now fun asOf k'' hk' _ => ?_
    exact Action.serves_request (hk'.opened tx (hk.opened tx htx)) nofun
  | keep => exact Action.serves_pure trivial

/-- To record a verdict serves the processor of the same shard. -/
theorem Recorder.serves_record (r : Recorder) (record : TaskRecord) (verdict : Verdict)
    {tx : Option Handle} (hshard : r.shard = q.shard) (htx : ∀ h, tx = some h → h ∈ k.opened) :
    Action.Serves q (fun _ _ => True) (r.record record verdict tx) k := by
  unfold Recorder.record
  split
  · exact Action.serves_throw _
  · exact Action.serves_pure trivial
  · split
    · next h => exact r.serves_apply _ _ (htx h rfl)
    · rw [hshard]
      refine Action.serves_withTransaction fun tx k₁ _ _ htx => ?_
      refine Action.serves_bind (r.serves_apply _ _ htx) fun _ k₂ hk₂ _ => ?_
      exact Action.serves_storing (Session.serves_commit (hk₂.opened tx htx))

/-- What a consumer does with a task it asks freely. -/
theorem Consumer.free_handling (h : Handling) :
    (h.process : Action (Job α) QueueError Verdict).run.Only Request.Free := by
  have heffects : ∀ effects, (Effect.processAll effects : Process (Job α) Unit).Only Request.Free := by
    intro effects
    induction effects with
    | nil => trivial
    | cons effect rest ih =>
      refine only_bind ?_ fun _ => ih
      cases effect <;> exact only_ask trivial
  refine only_run_bind (only_lift (heffects _)) fun _ => ?_
  unfold Ending.process
  split <;> trivial

namespace Processor

/-- To tell the observer serves the processor. -/
theorem serves_tell (event : TaskEvent) :
    (q.tell event : Process (Job α) Unit).Serves q (fun _ _ => True) k :=
  Process.serves_of_only (only_react (fun _ => trivial) _)

/-- The consumer is called with what its codec reads from the row. -/
theorem serves_consumer {record : TaskRecord} {payload : Option α} (hrecord : record ∈ k.picked)
    (hread : q.consumer.codec.read record.payload = .value payload) :
    Action.Serves q (fun _ _ => True)
      (q.consumer.execute (.ofRecord q.shard payload record)) k := by
  refine ⟨trivial, fun consumer _ => ⟨record, hrecord, payload, hread, hands_execute⟩,
    fun calls _ => ?_⟩
  exact Action.serves_of_only (Consumer.free_handling _)

/-- To execute a task that has been picked serves the processor. -/
theorem serves_execute {record : TaskRecord} {tx : Option Handle} (hrecord : record ∈ k.picked)
    (htx : ∀ h, tx = some h → h ∈ k.opened) :
    Action.Serves q (fun _ _ => True) (q.execute record tx) k := by
  have htask : Action.Serves q (fun task _ => ∃ payload,
      q.consumer.codec.read record.payload = .value payload ∧
        task = .ofRecord q.shard payload record) (q.task record) k := by
    unfold Processor.task
    split
    · next payload hread => exact Action.serves_pure ⟨payload, hread, rfl⟩
    · exact Action.serves_throw _
    · exact Action.serves_lift trivial
  refine Action.serves_bind htask fun task k₁ hk₁ hread => ?_
  obtain ⟨payload, hread, rfl⟩ := hread
  refine Action.serves_bind Session.serves_now fun start k₂ hk₂ _ => ?_
  have hknown := hk₂.picked record (hk₁.picked record hrecord)
  refine Action.serves_bind (serves_consumer hknown hread) fun verdict k₃ hk₃ _ => ?_
  refine Action.serves_bind Session.serves_now fun stop k₄ hk₄ _ => ?_
  refine Action.serves_bind (Action.serves_lift (serves_tell _)) fun _ k₅ hk₅ _ => ?_
  exact q.recorder.serves_record record verdict rfl fun h heq => hk₅.opened h <| hk₄.opened h <|
    hk₃.opened h <| hk₂.opened h <| hk₁.opened h (htx h heq)

/-- To process a task that has been picked serves the processor. -/
theorem serves_process {record : TaskRecord} {tx : Option Handle} (hrecord : record ∈ k.picked)
    (htx : ∀ h, tx = some h → h ∈ k.opened) :
    (q.process record tx : Process (Job α) Unit).Serves q (fun _ _ => True) k := by
  refine Process.serves_bind (serves_tell _) fun _ k₁ hk₁ _ => ?_
  refine Process.serves_bind (Process.serves_attempt (serves_execute (hk₁.picked record hrecord)
    fun h heq => hk₁.opened h (htx h heq))) fun outcome k₂ hk₂ _ => ?_
  have hlast : ∀ k', (q.tell (.finished record) : Process (Job α) Unit).Serves q
      (fun _ _ => True) k' := fun k' => serves_tell _
  rcases outcome with cause | e | ⟨⟩
  · exact Process.serves_bind (serves_tell _) fun _ k' _ _ => hlast k'
  · exact Process.serves_bind (serves_tell _) fun _ k' _ _ => hlast k'
  · exact hlast k₂

end Processor

/-- A job works on its row. -/
theorem Job.serves_work (job : Job α) :
    job.work.Serves job.processor (fun _ _ => True) ⟨[], [job.record]⟩ :=
  Processor.serves_process List.mem_cons_self nofun

namespace Runner

/-- A poll serves its processor. -/
theorem serves_poll (r : Runner α) :
    Action.Serves r.processor (fun _ _ => True) r.poll k := by
  unfold poll
  split
  · refine Action.serves_bind r.serves_pickAndCommit fun picked k₁ _ hpicked => ?_
    cases picked with
    | none => exact Action.serves_pure trivial
    | some record =>
      refine Action.serves_bind (Action.serves_lift (Processor.serves_process (hpicked record rfl)
        nofun)) fun _ _ _ _ => Action.serves_pure trivial
  · refine Action.serves_withTransaction fun tx k₁ hshard _ htx => ?_
    refine Action.serves_bind (Runner.serves_pick htx hshard) fun picked k₂ hk₂ hpicked => ?_
    have htx₂ := hk₂.opened tx htx
    cases picked with
    | none =>
      exact Action.serves_bind (Action.serves_storing (Session.serves_commit htx₂))
        fun _ _ _ _ => Action.serves_pure trivial
    | some record =>
      refine Action.serves_bind (Action.serves_lift (Processor.serves_process (hpicked record rfl)
        fun h heq => ?_)) fun _ k₃ hk₃ _ => ?_
      · cases heq
        exact htx₂
      · exact Action.serves_bind (Action.serves_storing (Session.serves_commit
          (hk₃.opened tx htx₂))) fun _ _ _ _ => Action.serves_pure trivial
  · next executor _ =>
    refine Action.serves_bind r.serves_pickAndCommit fun picked k₁ _ hpicked => ?_
    cases picked with
    | none => exact Action.serves_pure trivial
    | some record =>
      refine Action.serves_bind (Action.serves_lift (Process.serves_ask trivial))
        fun granted k₂ hk₂ _ => ?_
      cases (granted : Bool) with
      | false => exact Action.serves_throw _
      | true =>
        refine Action.serves_bind (R := fun _ _ => True) (Action.serves_lift ?_)
          fun _ _ _ _ => Action.serves_pure trivial
        exact ⟨⟨rfl, hk₂.picked record (hpicked record rfl)⟩, nofun, fun _ _ => trivial⟩

end Runner

namespace PollLoop

variable (l : PollLoop α)

/-- A cycle serves the processor of the loop. -/
theorem serves_cycle : l.cycle.Serves l.runner.processor (fun _ _ => True) k := by
  have htell : ∀ event k', (l.tell event : Process (Job α) Unit).Serves l.runner.processor
      (fun _ _ => True) k' :=
    fun event k' => Process.serves_of_only (only_react (fun _ => trivial) _)
  have hpublish : ∀ state k', (l.publish state : Process (Job α) Unit).Serves l.runner.processor
      (fun _ _ => True) k' :=
    fun state k' => Process.serves_ask trivial
  have hlast : ∀ (wait : Duration) k', ((l.tell .finished : Process (Job α) Unit).bind
      fun _ => .done wait).Serves l.runner.processor (fun _ _ => True) k' :=
    fun wait k' => Process.serves_bind (htell _ k') fun _ _ _ _ => trivial
  have hpoll : ∀ k', l.guardedPoll.Serves l.runner.processor (fun _ _ => True) k' := by
    intro k'
    refine Process.serves_bind (Process.serves_attempt l.runner.serves_poll) fun outcome _ _ _ => ?_
    cases outcome <;> trivial
  refine Process.serves_bind (hpublish _ k) fun _ k₁ _ _ => ?_
  refine Process.serves_bind (htell _ k₁) fun _ k₂ _ _ => ?_
  refine Process.serves_bind (Process.serves_ask trivial) fun start k₃ _ _ => ?_
  refine Process.serves_bind (hpoll k₃) fun outcome k₄ _ _ => ?_
  cases outcome with
  | ok status =>
    refine Process.serves_bind (Process.serves_ask trivial) fun stop k₅ _ _ => ?_
    refine Process.serves_bind (htell _ k₅) fun _ k₆ _ _ => ?_
    exact Process.serves_bind (hpublish _ k₆) fun _ k₇ _ _ => hlast _ k₇
  | error e =>
    refine Process.serves_bind (htell _ k₄) fun _ k₅ _ _ => ?_
    exact Process.serves_bind (hpublish _ k₅) fun _ k₆ _ _ => hlast _ k₆

/-- A round of a loop begins without transactions and rows. -/
theorem serves_round : l.round.Serves l.runner.processor (fun _ _ => True) ⟨[], []⟩ := by
  refine Process.serves_bind (Process.serves_ask trivial) fun stopping k _ _ => ?_
  cases (stopping : Bool) with
  | true =>
    exact Process.serves_bind (Process.serves_ask trivial) fun _ _ _ _ => trivial
  | false =>
    refine Process.serves_bind l.serves_cycle fun wait k₁ _ _ => ?_
    refine Process.serves_bind (R := fun _ _ => True) ?_ fun _ _ _ _ => trivial
    exact Process.serves_bind (Process.serves_ask trivial) fun t k₂ _ _ =>
      Process.serves_ask trivial

end PollLoop

end Programs

end LeaseQueue
