import LeaseQueue.Proofs.RecordedOutcomes

/-!
# A task crashes or takes effect

A picked task is worked on: the observer is told that it has started, its payload is read, the
consumer is called, the observer is told of the verdict, and the verdict is recorded.  Any of this
may fail or panic, while others use the stores.  Whatever happens, the call comes to its end without
a panic, the observer has heard a complete story of it (`Processor.Course`), and the task has either
crashed, and then no row has changed, or exactly what the consumer's verdict asks for has been done
(`Processor.crashes_or_takes_effect`).
-/

set_option autoImplicit false

namespace LeaseQueue

variable {α ω β γ : Type}

open Process

/-! ## Calls of consumers -/

/-- A request that counts a call of a consumer. -/
def Request.isInvocation : Request ω → Bool
  | .invocation _ => true
  | _ => false

/-- How often a consumer is called. -/
def invocations (t : List (Deal ω β)) : Nat := t.countP fun d => d.exchange.1.isInvocation

/-- The invocations of two stretches add up. -/
theorem invocations_append (xs ys : List (Deal ω β)) :
    invocations (xs ++ ys) = invocations xs + invocations ys :=
  List.countP_append

/-- A stretch without an invocation counts none. -/
theorem invocations_eq_zero {t : List (Deal ω β)}
    (h : ∀ d ∈ t, d.exchange.1.isInvocation = false) : invocations t = 0 :=
  List.countP_eq_zero.2 fun d hd => by rw [h d hd]; exact Bool.false_ne_true

/-- What went wrong, if something did. -/
def failure? : Except Panic (Except QueueError γ) → Option QueueError
  | .ok (.ok _) => none
  | .ok (.error e) => some e
  | .error cause => some (.panic cause)

namespace Processor

variable (p : Processor α)

/-- The work on a task up to the verdict, with the time that the consumer took. -/
def work (record : TaskRecord) : Action ω QueueError (Verdict × Duration) := do
  let task ← p.task record
  let start ← Session.now
  let verdict ← p.consumer.execute task
  let stop ← Session.now
  pure (verdict, stop.elapsed start)

/-- What follows the verdict. -/
def conclude (record : TaskRecord) (tx : Option Handle) (worked : Verdict × Duration) :
    Action ω QueueError Unit := do
  ExceptT.lift (p.tell (.executed record worked.1 worked.2))
  p.recorder.record record worked.1 tx

/-- A task is worked on, and then its verdict is recorded. -/
theorem execute_eq_work (record : TaskRecord) (tx : Option Handle) :
    (p.execute record tx : Action ω QueueError Unit) =
      p.work record >>= p.conclude record tx := by
  simp only [execute, work, conclude, bind_assoc, pure_bind]

/-- Telling an observer touches no transaction. -/
theorem aloof_tell (event : TaskEvent) : (p.tell event : Process ω Unit).Only Request.Aloof :=
  only_react (fun _ => Request.aloof_of_action? fun _ => rfl) _

/-- Several effects ask only what is allowed if each of them does. -/
theorem only_effects {allowed : Request ω → Prop}
    (h : ∀ effect : Effect, (effect.process : Process ω Unit).Only allowed) (effects : List Effect) :
    (Effect.processAll effects : Process ω Unit).Only allowed := by
  induction effects with
  | nil => trivial
  | cons effect rest ih => exact only_bind (h effect) fun _ => ih

/-- An effect touches no transaction. -/
theorem aloof_effect (effect : Effect) : (effect.process : Process ω Unit).Only Request.Aloof := by
  cases effect with
  | outage shard on =>
    refine only_ask fun clock s a haction => ?_
    cases haction
    exact ⟨on, rfl⟩
  | _ => exact only_ask (Request.aloof_of_action? fun _ => rfl)

/-- A consumer touches no transaction. -/
theorem aloof_execute (task : Task α) :
    (p.consumer.execute task : Action ω QueueError Verdict).run.Only Request.Aloof := by
  refine only_run_bind (only_lift (only_ask (Request.aloof_of_action? fun _ => rfl))) fun calls => ?_
  refine only_run_bind (only_lift (only_effects aloof_effect _)) fun _ => ?_
  cases (p.consumer.handle calls task).ending <;> trivial

/-- The work on a task touches no transaction. -/
theorem aloof_work (record : TaskRecord) :
    (p.work record : Action ω QueueError (Verdict × Duration)).run.Only Request.Aloof := by
  refine only_run_bind ?_ fun task => only_run_bind Session.aloof_now fun start =>
    only_run_bind (p.aloof_execute task) fun verdict =>
      only_run_bind Session.aloof_now fun stop => trivial
  unfold task
  split <;> trivial

/-! ## What the work comes to -/

/-- The payload was read, and the consumer was called with the task and gave a verdict. -/
def Returned (record : TaskRecord) (verdict : Verdict) (t : List (Deal ω β)) : Prop :=
  ∃ payload calls, p.consumer.codec.read record.payload = .value payload ∧
    (∃ d ∈ t, d.exchange = ⟨.invocation p.consumer.number, calls⟩) ∧
    (p.consumer.handle calls (.ofRecord p.shard payload record)).ending = .verdict verdict

/-- The observer is told of an event. -/
def Tells (event : TaskEvent) (t : List (Deal ω β)) : Prop :=
  t.map Deal.exchange =
    (p.listener p.shard p.location event).notices.map fun notice => ⟨.report notice, ()⟩

variable {p} {jobProgram : ω → Process ω Unit} {fiber : FiberId} {own : List Handle}
  {w w' : World ω β} {t : List (Deal ω β)} {record : TaskRecord}

/-- Telling an observer invokes no consumer. -/
theorem Tells.invocations {event : TaskEvent} (h : p.Tells event t) : invocations t = 0 := by
  refine invocations_eq_zero fun d hd => ?_
  have hmem : d.exchange ∈ t.map Deal.exchange := List.mem_map_of_mem hd
  rw [h] at hmem
  obtain ⟨notice, -, heq⟩ := List.mem_map.1 hmem
  rw [← heq]
  rfl

/-- Telling an observer ends with its own panic at most. -/
theorem completes_tell {event : TaskEvent} {o : Except Panic Unit}
    (h : Completes jobProgram fiber own (p.tell event) w t o w') :
    p.Tells event t ∧ ((p.listener p.shard p.location event).panic = none → o = .ok ()) := by
  obtain ⟨htold, ⟨rfl, -⟩ | ⟨cause, rfl, hpanic⟩⟩ := completes_react h
  · exact ⟨htold, fun _ => rfl⟩
  · refine ⟨htold, fun hnone => ?_⟩
    rw [hpanic] at hnone
    cases hnone

/-- A consumer is called once, and comes to its verdict in that call. -/
theorem completes_consumer {c : Consumer α} {task : Task α}
    {o : Except Panic (Except QueueError Verdict)}
    (h : Completes jobProgram fiber own (c.execute task : Action ω QueueError Verdict).run w t o w') :
    invocations t = 1 ∧ ∃ calls, (∃ d ∈ t, d.exchange = ⟨.invocation c.number, calls⟩) ∧
      ∀ verdict, o = .ok (.ok verdict) → (c.handle calls task).ending = .verdict verdict := by
  rcases completes_run_bind h with ⟨calls, xs, ys, w₁, rfl, hcall, hhandle⟩ |
    ⟨e, -, hcall⟩ | ⟨cause, -, hcall⟩
  · obtain ⟨o', heq, hask⟩ := completes_lift hcall
    obtain ⟨w₂, reply, w₃, -, -, rfl, rfl, -⟩ := completes_ask hask
    cases heq
    have hplain : (c.handle calls task).process.run.Only
        (fun r : Request ω => r.isInvocation = false) := by
      refine only_run_bind (only_lift (only_effects (fun effect => ?_) _)) fun _ => ?_
      · cases effect <;> exact only_ask rfl
      · cases (c.handle calls task).ending <;> trivial
    refine ⟨?_, calls, ⟨_, List.mem_append_left _ List.mem_cons_self, rfl⟩, ?_⟩
    · rw [invocations_append, invocations_eq_zero (hhandle.allowed hplain)]
      rfl
    · rintro verdict rfl
      rcases completes_run_bind hhandle with ⟨_, _, _, _, -, -, hending⟩ | ⟨_, heq, -⟩ | ⟨_, heq, -⟩
      · unfold Ending.process at hending
        split at hending
        · obtain ⟨-, heq, -⟩ := completes_done hending
          cases heq
          assumption
        · obtain ⟨-, heq, -⟩ := completes_done hending
          cases heq
        · obtain ⟨o', heq, hpanic⟩ := completes_lift hending
          obtain ⟨-, rfl, -⟩ := completes_panic hpanic
          cases heq
      · cases heq
      · cases heq
  · obtain ⟨o', heq, hask⟩ := completes_lift hcall
    obtain ⟨_, _, _, -, -, -, rfl, -⟩ := completes_ask hask
    cases heq
  · obtain ⟨o', heq, hask⟩ := completes_lift hcall
    obtain ⟨_, _, _, -, -, -, rfl, -⟩ := completes_ask hask
    cases heq

/-- Reading the clock invokes no consumer. -/
theorem invocations_now {ε : Type} {o : Except Panic (Except ε Instant)}
    (h : Completes jobProgram fiber own (Session.now : Action ω ε Instant).run w t o w') :
    invocations t = 0 :=
  have hplain : (Session.now : Action ω ε Instant).run.Only fun r => r.isInvocation = false :=
    only_lift (only_ask rfl)
  invocations_eq_zero (h.allowed hplain)

/-- The consumer is called at most once, and not at all if the payload cannot be read. -/
theorem completes_work {o : Except Panic (Except QueueError (Verdict × Duration))}
    (h : Completes jobProgram fiber own (p.work record : Action ω QueueError _).run w t o w') :
    invocations t ≤ 1 ∧
    ((∀ payload, p.consumer.codec.read record.payload ≠ .value payload) → invocations t = 0) ∧
    ∀ verdict took, o = .ok (.ok (verdict, took)) → p.Returned record verdict t := by
  cases hread : p.consumer.codec.read record.payload with
  | unreadable =>
    have htask : (p.task record : Action ω QueueError (Task α)) = throw (.payload .unreadable) := by
      unfold task
      rw [hread]
    unfold work at h
    rw [htask] at h
    obtain ⟨rfl, rfl, -⟩ := completes_done h
    exact ⟨Nat.zero_le _, fun _ => rfl, fun _ _ heq => by cases heq⟩
  | panics cause =>
    have htask : (p.task record : Action ω QueueError (Task α)) = ExceptT.lift (.panic cause) := by
      unfold task
      rw [hread]
    unfold work at h
    rw [htask] at h
    obtain ⟨rfl, rfl, -⟩ := completes_panic h
    exact ⟨Nat.zero_le _, fun _ => rfl, fun _ _ heq => by cases heq⟩
  | value payload =>
    have htask : (p.task record : Action ω QueueError (Task α)) =
        pure (.ofRecord p.shard payload record) := by
      unfold task
      rw [hread]
    unfold work at h
    rw [htask, pure_bind] at h
    suffices invocations t ≤ 1 ∧
        ∀ verdict took, o = .ok (.ok (verdict, took)) → p.Returned record verdict t from
      ⟨this.1, fun hnone => absurd rfl (hnone payload), this.2⟩
    rcases completes_run_bind h with ⟨start, xs, ys, w₁, rfl, hstart, hrest⟩ |
      ⟨e, rfl, hstart⟩ | ⟨cause, rfl, hstart⟩
    · rw [invocations_append, invocations_now hstart, Nat.zero_add]
      rcases completes_run_bind hrest with ⟨verdict, xs', ys', w₂, rfl, hconsumer, hlast⟩ |
        ⟨e, rfl, hconsumer⟩ | ⟨cause, rfl, hconsumer⟩
      · obtain ⟨hone, calls, ⟨d, hd, hcall⟩, hverdict⟩ := completes_consumer hconsumer
        have hzero : invocations ys' = 0 := by
          rcases completes_run_bind hlast with ⟨_, zs, _, _, rfl, hstop, hend⟩ | ⟨_, -, hstop⟩ |
            ⟨_, -, hstop⟩
          · obtain ⟨rfl, -, -⟩ := completes_done hend
            rw [List.append_nil, invocations_now hstop]
          · exact invocations_now hstop
          · exact invocations_now hstop
        refine ⟨?_, ?_⟩
        · have htotal := invocations_append xs' ys'
          omega
        · rintro verdict' took heq
          cases heq
          refine ⟨payload, calls, hread, ⟨d, by simp [hd], hcall⟩, ?_⟩
          rcases completes_run_bind hlast with ⟨_, _, _, _, -, -, hend⟩ | ⟨_, heq, -⟩ | ⟨_, heq, -⟩
          · obtain ⟨-, heq, -⟩ := completes_done hend
            cases heq
            exact hverdict _ rfl
          · cases heq
          · cases heq
      · exact ⟨Nat.le_of_eq (completes_consumer hconsumer).1, fun _ _ heq => by cases heq⟩
      · exact ⟨Nat.le_of_eq (completes_consumer hconsumer).1, fun _ _ heq => by cases heq⟩
    · exact ⟨(invocations_now hstart).symm ▸ Nat.zero_le _, fun _ _ heq => by cases heq⟩
    · exact ⟨(invocations_now hstart).symm ▸ Nat.zero_le _, fun _ _ heq => by cases heq⟩

/-! ## What the call comes to -/

/-- The shard on which the verdict is recorded. -/
def target (p : Processor α) (tx : Option Handle) : ShardId := (tx.map Handle.shard).getD p.shard

/-- Recording a verdict fails and leaves the rows, or writes its outcome. -/
theorem completes_record {verdict : Verdict} {tx : Option Handle}
    {o : Except Panic (Except QueueError Unit)} (hfit : w.Fit p.shard own)
    (h : Completes jobProgram fiber own
      (p.recorder.record record verdict tx : Action ω QueueError Unit).run w t o w')
    (hsound : ∀ d ∈ t, d.Sound jobProgram fiber) :
    (((∃ e, o = .ok (.error e)) ∧ ∀ d ∈ t, d.Keeps (rowView tx)) ∨
      o = .ok (.ok ()) ∧ ∃ outcome, p.recorder.outcome record verdict = .ok outcome ∧
        outcome.TakesEffect (rowView tx) (p.target tx) p.location record.id t) ∧
    ∀ tx ∈ ownAfter own t, tx ∈ own ∨ ¬ (w'.store tx.shard).isOpen tx.transaction = true := by
  cases tx with
  | none => exact completes_record_alone hfit h hsound
  | some tx =>
    refine ⟨completes_record_given hfit h hsound, fun tx' htx' => .inl ?_⟩
    have hnone : (p.recorder.record record verdict (some tx) : Action ω QueueError Unit).run.Only
        Request.OpensNone := (p.recorder.writes_record record verdict tx).mono fun _ hr => hr.opensNone
    rwa [h.ownAfter_eq hnone] at htx'

/-- The whole story of a call with a picked task: what the observer is told, and what is done. -/
inductive Course (jobProgram : ω → Process ω Unit) (fiber : FiberId) (p : Processor α)
    (record : TaskRecord) (tx : Option Handle) : List TaskEvent → List (Deal ω β) → Prop
  /-- Reading the payload or the consumer has failed. -/
  | unworked {w₁ w₂ : World ω β} {as bs cs fs : List (Deal ω β)} {e : QueueError}
    {o : Except Panic (Except QueueError (Verdict × Duration))}
    (hstarted : p.Tells (.started record) as)
    (hwork : Completes jobProgram fiber [] (p.work record).run w₁ bs o w₂)
    (hfailure : failure? o = some e) (hcrashed : p.Tells (.crashed record e) cs)
    (hfinished : p.Tells (.finished record) fs)
    (hkeeps : ∀ d ∈ as ++ bs ++ cs ++ fs, d.Keeps (rowView tx)) :
    Course jobProgram fiber p record tx [.started record, .crashed record e, .finished record]
      (as ++ bs ++ cs ++ fs)
  /-- The observer has panicked when it was told of the verdict, or that could not be recorded. -/
  | unrecorded {w₁ w₂ w₃ : World ω β} {as bs xs rs cs fs : List (Deal ω β)} {verdict : Verdict}
    {took : Duration} {e : QueueError} {o : Except Panic (Except QueueError Unit)}
    (hstarted : p.Tells (.started record) as)
    (hwork : Completes jobProgram fiber [] (p.work record).run w₁ bs (.ok (.ok (verdict, took))) w₂)
    (hexecuted : p.Tells (.executed record verdict took) xs)
    (hconclude : Completes jobProgram fiber [] (p.conclude record tx (verdict, took)).run w₂
      (xs ++ rs) o w₃)
    (hfailure : failure? o = some e) (hcrashed : p.Tells (.crashed record e) cs)
    (hfinished : p.Tells (.finished record) fs)
    (hkeeps : ∀ d ∈ as ++ bs ++ (xs ++ rs) ++ cs ++ fs, d.Keeps (rowView tx)) :
    Course jobProgram fiber p record tx [.started record, .executed record verdict took,
      .crashed record e, .finished record] (as ++ bs ++ (xs ++ rs) ++ cs ++ fs)
  /-- The verdict has been recorded. -/
  | effective {w₁ w₂ w₃ : World ω β} {as bs xs rs fs : List (Deal ω β)} {verdict : Verdict}
    {took : Duration} {outcome : Outcome} (hstarted : p.Tells (.started record) as)
    (hwork : Completes jobProgram fiber [] (p.work record).run w₁ bs (.ok (.ok (verdict, took))) w₂)
    (hreturned : p.Returned record verdict bs) (hexecuted : p.Tells (.executed record verdict took) xs)
    (hconclude : Completes jobProgram fiber [] (p.conclude record tx (verdict, took)).run w₂
      (xs ++ rs) (.ok (.ok ())) w₃)
    (hfinished : p.Tells (.finished record) fs)
    (houtcome : p.recorder.outcome record verdict = .ok outcome)
    (heffect : outcome.TakesEffect (rowView tx) (p.target tx) p.location record.id
      (as ++ bs ++ (xs ++ rs) ++ fs)) :
    Course jobProgram fiber p record tx [.started record, .executed record verdict took,
      .finished record] (as ++ bs ++ (xs ++ rs) ++ fs)

/-- The observer is told of the verdict before it is recorded. -/
theorem completes_conclude {verdict : Verdict} {took : Duration} {tx : Option Handle}
    {o : Except Panic (Except QueueError Unit)} (hfit : w.Fit p.shard own)
    (h : Completes jobProgram fiber own
      (p.conclude record tx (verdict, took) : Action ω QueueError Unit).run w t o w')
    (hsound : ∀ d ∈ t, d.Sound jobProgram fiber) :
    ∃ xs rs, t = xs ++ rs ∧ p.Tells (.executed record verdict took) xs ∧
      (((∃ e, failure? o = some e) ∧ ∀ d ∈ t, d.Keeps (rowView tx)) ∨
        o = .ok (.ok ()) ∧ ∃ outcome, p.recorder.outcome record verdict = .ok outcome ∧
          outcome.TakesEffect (rowView tx) (p.target tx) p.location record.id t) ∧
      ∀ tx ∈ ownAfter own t, tx ∈ own ∨ ¬ (w'.store tx.shard).isOpen tx.transaction = true := by
  have hall : (p.tell (.executed record verdict took) : Process ω Unit).Only Request.Aloof :=
    p.aloof_tell _
  have hkeep : ∀ {d : Deal ω β}, d ∈ t → d.exchange.1.Aloof → d.Keeps (rowView tx) :=
    fun hd haloof => (hsound _ hd).keeps_of_aloof haloof tx
  rcases completes_aloof_bind (only_lift hall) hfit h with
    ⟨_, xs, rs, w₁, rfl, hxs, htold, hfit₁, -, hrecord⟩ | ⟨hdeals, hends⟩
  · obtain ⟨o', -, htold⟩ := completes_lift htold
    obtain ⟨hresult, hclosed⟩ := completes_record hfit₁ hrecord
      fun d hd => hsound d (List.mem_append_right _ hd)
    refine ⟨xs, rs, rfl, (completes_tell htold).1, ?_, fun tx' htx' => hclosed tx' ?_⟩
    · rcases hresult with ⟨⟨e, rfl⟩, hkeeps⟩ | ⟨rfl, outcome, houtcome, heffect⟩
      · refine .inl ⟨⟨e, rfl⟩, fun d hd => ?_⟩
        rcases List.mem_append.1 hd with hd' | hd'
        · exact hkeep hd (hxs d hd')
        · exact hkeeps d hd'
      · refine .inr ⟨rfl, outcome, houtcome, ?_⟩
        rw [← List.append_nil (xs ++ rs)]
        exact heffect.amid (fun d hd => hkeep (List.mem_append_left _ hd) (hxs d hd))
          fun d hd => absurd hd List.not_mem_nil
    · rwa [ownAfter_append, ownAfter_of_forall fun d hd => (hxs d hd).opensNone.opened?] at htx'
  · have htold : ∃ o', Completes jobProgram fiber own
        (p.tell (.executed record verdict took) : Process ω Unit) w t o' w' := by
      rcases hends with ⟨e, -, htold⟩ | ⟨cause, -, htold⟩
      · exact (completes_lift htold).imp fun _ h => h.2
      · exact (completes_lift htold).imp fun _ h => h.2
    obtain ⟨o', htold⟩ := htold
    refine ⟨t, [], (List.append_nil t).symm, (completes_tell htold).1, .inl ⟨?_, fun d hd =>
      hkeep hd (hdeals d hd)⟩, fun tx' htx' => .inl ?_⟩
    · rcases hends with ⟨e, rfl, -⟩ | ⟨cause, rfl, -⟩
      · exact ⟨e, rfl⟩
      · exact ⟨.panic cause, rfl⟩
    · rwa [ownAfter_of_forall fun d hd => (hdeals d hd).opensNone.opened?] at htx'

/-! ## The whole call -/

/-- The observer does not panic when it is told of the start, of a crash or of the end. -/
structure Steady (p : Processor α) (record : TaskRecord) : Prop where
  started : (p.listener p.shard p.location (.started record)).panic = none
  crashed : ∀ e, (p.listener p.shard p.location (.crashed record e)).panic = none
  finished : (p.listener p.shard p.location (.finished record)).panic = none

/-- What the observer is told at the end. -/
def closing (p : Processor α) (record : TaskRecord) : Option QueueError → Process ω Unit
  | none => p.tell (.finished record)
  | some e => (p.tell (.crashed record e)).bind fun _ => p.tell (.finished record)

/-- A task is reported as started, executed under a guard, and then closed. -/
theorem process_eq_closing (p : Processor α) (record : TaskRecord) (tx : Option Handle) :
    (p.process record tx : Process ω Unit) = (p.tell (.started record)).bind fun _ =>
      (p.execute record tx).run.attempt.bind fun o => p.closing record (failure? o) := by
  refine congrArg (Process.bind _) (funext fun _ => congrArg (Process.bind _) (funext fun o => ?_))
  rcases o with cause | e | ⟨⟩ <;> rfl

/-- The closing reports touch no transaction. -/
theorem aloof_closing (p : Processor α) (record : TaskRecord) (failure : Option QueueError) :
    (p.closing record failure : Process ω Unit).Only Request.Aloof := by
  cases failure with
  | none => exact p.aloof_tell _
  | some e => exact only_bind (p.aloof_tell _) fun _ => p.aloof_tell _

/-- The closing reports a crash just after a failure, and then the end. -/
theorem completes_closing {failure : Option QueueError} {o : Except Panic Unit}
    (hsteady : p.Steady record)
    (h : Completes jobProgram fiber own (p.closing record failure) w t o w') :
    o = .ok () ∧ ∃ cs fs, t = cs ++ fs ∧ p.Tells (.finished record) fs ∧
      (failure = none → cs = []) ∧ ∀ e, failure = some e → p.Tells (.crashed record e) cs := by
  cases failure with
  | none =>
    obtain ⟨hfinished, hcalm⟩ := completes_tell h
    exact ⟨hcalm hsteady.finished, [], t, rfl, hfinished, fun _ => rfl, fun _ heq => by cases heq⟩
  | some e =>
    rcases completes_bind h with ⟨_, cs, fs, _, rfl, htold, hlast⟩ | ⟨cause, -, htold⟩
    · obtain ⟨hfinished, hcalm⟩ := completes_tell hlast
      refine ⟨hcalm hsteady.finished, cs, fs, rfl, hfinished, (fun heq => by cases heq),
        fun e' heq => ?_⟩
      cases heq
      exact (completes_tell htold).1
    · have hcalm := (completes_tell htold).2 (hsteady.crashed e)
      cases hcalm

/-- A task opens transactions only at its shard. -/
theorem opensAt_execute (p : Processor α) (record : TaskRecord) (tx : Option Handle) :
    (p.execute record tx : Action ω QueueError Unit).run.Only (Request.OpensAt p.shard) := by
  rw [execute_eq_work]
  refine only_run_bind ((p.aloof_work record).mono fun r hr => hr.opensNone.opensAt _) fun worked =>
    only_run_bind (only_lift ?_) fun _ =>
      (p.recorder.records_record record worked.1 tx).mono fun r hr => hr.opensAt
  exact (p.aloof_tell _).mono fun r hr => hr.opensNone.opensAt _

/-- A task and its reports open transactions only at its shard. -/
theorem opensAt_process (p : Processor α) (record : TaskRecord) (tx : Option Handle) :
    (p.process record tx : Process ω Unit).Only (Request.OpensAt p.shard) := by
  rw [process_eq_closing]
  refine only_bind ((p.aloof_tell _).mono fun r hr => hr.opensNone.opensAt _) fun _ =>
    only_bind (only_attempt (p.opensAt_execute record tx)) fun o => ?_
  exact (p.aloof_closing record _).mono fun r hr => hr.opensNone.opensAt _

/-- How the execution of a task goes. -/
inductive Executed (jobProgram : ω → Process ω Unit) (fiber : FiberId) (p : Processor α)
    (record : TaskRecord) (tx : Option Handle) (w : World ω β) :
    List (Deal ω β) → Except Panic (Except QueueError Unit) → World ω β → Prop
  | unworked {bs : List (Deal ω β)} {w' : World ω β}
    {o : Except Panic (Except QueueError (Verdict × Duration))} {e : QueueError}
    (hwork : Completes jobProgram fiber [] (p.work record).run w bs o w')
    (hfailure : failure? o = some e) :
    Executed jobProgram fiber p record tx w bs (o.map fun r => r.map fun _ => ()) w'
  | concluded {bs ms : List (Deal ω β)} {verdict : Verdict} {took : Duration}
    {o : Except Panic (Except QueueError Unit)} {w₁ w' : World ω β}
    (hwork : Completes jobProgram fiber [] (p.work record).run w bs (.ok (.ok (verdict, took))) w₁)
    (hconclude : Completes jobProgram fiber [] (p.conclude record tx (verdict, took)).run w₁ ms o w') :
    Executed jobProgram fiber p record tx w (bs ++ ms) o w'

/-- What a task has executed is one of the ways that are listed. -/
theorem completes_execute {tx : Option Handle} {o : Except Panic (Except QueueError Unit)}
    (h : Completes jobProgram fiber [] (p.execute record tx : Action ω QueueError Unit).run w t o w') :
    Executed jobProgram fiber p record tx w t o w' := by
  rw [execute_eq_work] at h
  rcases completes_run_bind h with ⟨⟨verdict, took⟩, bs, ms, w₁, rfl, hwork, hconclude⟩ |
    ⟨e, rfl, hwork⟩ | ⟨cause, rfl, hwork⟩
  · have hnone : (p.work record : Action ω QueueError _).run.Only Request.OpensNone :=
      (p.aloof_work record).mono fun r hr => hr.opensNone
    rw [hwork.ownAfter_eq hnone] at hconclude
    exact .concluded hwork hconclude
  · exact .unworked (e := e) hwork rfl
  · exact .unworked (e := .panic cause) hwork rfl

/-- The failure of an outcome does not depend on what a success gives. -/
theorem failure?_map {δ : Type} (o : Except Panic (Except QueueError γ)) (f : γ → δ) :
    failure? (o.map fun r => r.map f) = failure? o := by
  rcases o with cause | e | a <;> rfl

/-- Telling an observer is no invocation. -/
theorem plain_tell (p : Processor α) (event : TaskEvent) :
    (p.tell event : Process ω Unit).Only fun r => r.isInvocation = false :=
  only_react (fun _ => rfl) _

/-- What follows the verdict calls no consumer. -/
theorem invocations_conclude {tx : Option Handle} {worked : Verdict × Duration}
    {o : Except Panic (Except QueueError Unit)}
    (h : Completes jobProgram fiber own (p.conclude record tx worked : Action ω _ _).run w t o w') :
    invocations t = 0 := by
  have hrecord : (p.recorder.record record worked.1 tx : Action ω QueueError Unit).run.Only
      fun r => r.isInvocation = false := by
    refine (p.recorder.records_record record worked.1 tx).mono fun r hr => ?_
    rcases hr with hwrites | rfl | ⟨tx, rfl⟩
    · cases r <;> first | rfl | exact absurd hwrites id
    · rfl
    · rfl
  exact invocations_eq_zero
    (h.allowed (only_run_bind (only_lift (p.plain_tell _)) fun _ => hrecord))

/-- The closing reports invoke no consumer. -/
theorem invocations_closing {failure : Option QueueError} {o : Except Panic Unit}
    (h : Completes jobProgram fiber own (p.closing record failure) w t o w') : invocations t = 0 := by
  have hplain : (p.closing record failure : Process ω Unit).Only fun r => r.isInvocation = false := by
    cases failure with
    | none => exact p.plain_tell _
    | some e => exact only_bind (p.plain_tell _) fun _ => p.plain_tell _
  exact invocations_eq_zero (h.allowed hplain)

/-- The consumer is called in the execution, at most once. -/
theorem Executed.invocations {tx : Option Handle} {o : Except Panic (Except QueueError Unit)}
    (h : Executed jobProgram fiber p record tx w t o w') : invocations t ≤ 1 ∧
      ((∀ payload, p.consumer.codec.read record.payload ≠ .value payload) → invocations t = 0) := by
  cases h with
  | unworked hwork =>
    obtain ⟨hone, hnone, -⟩ := completes_work hwork
    exact ⟨hone, hnone⟩
  | concluded hwork hconclude =>
    obtain ⟨hone, hnone, -⟩ := completes_work hwork
    rw [invocations_append, invocations_conclude hconclude]
    exact ⟨hone, hnone⟩

/-- Its own transaction is over at the end. -/
theorem Executed.closed {tx : Option Handle} {o : Except Panic (Except QueueError Unit)}
    (h : Executed jobProgram fiber p record tx w t o w') (hfit : w.Fit p.shard [])
    (hsound : ∀ d ∈ t, d.Sound jobProgram fiber) :
    ∀ own ∈ ownAfter [] t, ¬ (w'.store own.shard).isOpen own.transaction = true := by
  intro own hown
  cases h with
  | unworked hwork =>
    rw [(hwork.aloof (p.aloof_work record) hfit).2.1] at hown
    cases hown
  | concluded hwork hconclude =>
    obtain ⟨-, hnone, hfit', -⟩ := hwork.aloof (p.aloof_work record) hfit
    obtain ⟨_, _, -, -, -, hclosed⟩ := completes_conclude hfit' hconclude
      fun d hd => hsound d (List.mem_append_right _ hd)
    rw [ownAfter_append, hnone] at hown
    exact (hclosed own hown).resolve_left List.not_mem_nil

/-- Between what the observer is told at the beginning and at the end, the execution makes one of
the three stories. -/
theorem Executed.course {tx : Option Handle} {o : Except Panic (Except QueueError Unit)}
    {as cs fs : List (Deal ω β)} (h : Executed jobProgram fiber p record tx w t o w')
    (hfit : w.Fit p.shard []) (hsound : ∀ d ∈ t, d.Sound jobProgram fiber)
    (hstarted : p.Tells (.started record) as) (hfinished : p.Tells (.finished record) fs)
    (hnone : failure? o = none → cs = [])
    (hsome : ∀ e, failure? o = some e → p.Tells (.crashed record e) cs)
    (hbefore : ∀ d ∈ as, d.Keeps (rowView tx)) (hafter : ∀ d ∈ cs ++ fs, d.Keeps (rowView tx)) :
    ∃ events, Course jobProgram fiber p record tx events (as ++ t ++ cs ++ fs) := by
  have hall : (∀ d ∈ t, d.Keeps (rowView tx)) → ∀ d ∈ as ++ t ++ cs ++ fs, d.Keeps (rowView tx) := by
    intro ht d hd
    rw [List.append_assoc, List.append_assoc] at hd
    rcases List.mem_append.1 hd with hd | hd
    · exact hbefore d hd
    · rcases List.mem_append.1 hd with hd | hd
      · exact ht d hd
      · exact hafter d hd
  cases h with
  | unworked hwork hfailure =>
    rw [failure?_map] at hsome
    have hdeals := (hwork.aloof (p.aloof_work record) hfit).1
    exact ⟨_, .unworked hstarted hwork hfailure (hsome _ hfailure) hfinished
      (hall fun d hd => (hsound d hd).keeps_of_aloof (hdeals d hd) tx)⟩
  | @concluded bs ms verdict took _ _ _ hwork hconclude =>
    obtain ⟨hdeals, -, hfit', -⟩ := hwork.aloof (p.aloof_work record) hfit
    have hbs : ∀ d ∈ bs, d.Keeps (rowView tx) := fun d hd =>
      (hsound d (List.mem_append_left _ hd)).keeps_of_aloof (hdeals d hd) tx
    obtain ⟨xs, rs, rfl, hexecuted, hresult, -⟩ := completes_conclude hfit' hconclude
      fun d hd => hsound d (List.mem_append_right _ hd)
    rcases hresult with ⟨⟨e, hfailure⟩, hkeeps⟩ | ⟨rfl, outcome, houtcome, heffect⟩
    · have hms : ∀ d ∈ bs ++ (xs ++ rs), d.Keeps (rowView tx) := by
        intro d hd
        rcases List.mem_append.1 hd with hd | hd
        · exact hbs d hd
        · exact hkeeps d hd
      have hcourse := Course.unrecorded hstarted hwork hexecuted hconclude hfailure
        (hsome e hfailure) hfinished (by simpa using hall hms)
      rw [List.append_assoc as] at hcourse
      exact ⟨_, hcourse⟩
    · obtain rfl := hnone rfl
      have hreturned := (completes_work hwork).2.2 verdict took rfl
      have hcourse := Course.effective hstarted hwork hreturned hexecuted hconclude hfinished houtcome
        (heffect.amid (fun d hd => ?_) hafter)
      · rw [List.append_assoc as] at hcourse
        rw [List.append_nil]
        exact ⟨_, hcourse⟩
      · rcases List.mem_append.1 hd with hd | hd
        · exact hbefore d hd
        · exact hbs d hd

/-- A call with a picked task comes to its end without a panic.  The observer has then heard one of
three stories: the task has started, crashed and finished; or it has started, was executed and has
finished, with a crash before the end or without one.  If the task has crashed, no row has been
changed by the call.  If it has not, the consumer has given a verdict, and exactly the change that
this verdict asks for has been made.  The consumer was called at most once, and not at all if the
payload could not be read, and no transaction that the call has opened is open at the end.

Meanwhile others use the stores as they like, except for the transaction that the call opens. -/
theorem crashes_or_takes_effect {p : Processor α} {record : TaskRecord} (tx : Option Handle)
    (hsteady : p.Steady record) (hstores : ∀ s, (w.store s).Reachable)
    (hthere : w.shards.contains p.shard = true) {o : Except Panic Unit}
    (h : Completes jobProgram fiber [] (p.process record tx) w t o w') :
    o = .ok () ∧ (∃ events, Course jobProgram fiber p record tx events t) ∧ invocations t ≤ 1 ∧
      ((∀ payload, p.consumer.codec.read record.payload ≠ .value payload) → invocations t = 0) ∧
      ∀ own ∈ ownAfter [] t, ¬ (w'.store own.shard).isOpen own.transaction = true := by
  have hfit : w.Fit p.shard [] :=
    ⟨fun s => (hstores s).wellFormed, fun _ hown => absurd hown List.not_mem_nil, hthere⟩
  have hsound : ∀ d ∈ t, d.Sound jobProgram fiber := fun d hd =>
    ⟨(h.fit (p.opensAt_process record tx) hfit).2 d hd, h.performed d hd⟩
  have hkeep : ∀ {d : Deal ω β}, d ∈ t → d.exchange.1.Aloof → d.Keeps (rowView tx) :=
    fun hd haloof => (hsound _ hd).keeps_of_aloof haloof tx
  rw [process_eq_closing] at h
  rcases completes_bind h with ⟨_, as, ts, w₁, rfl, hstart, hrest⟩ | ⟨cause, -, hstart⟩
  swap
  · cases (completes_tell hstart).2 hsteady.started
  obtain ⟨has, hown₁, hfit₁, -⟩ := hstart.aloof (p.aloof_tell _) hfit
  have hstarted := (completes_tell hstart).1
  rw [hown₁] at hrest
  rcases completes_bind hrest with ⟨o', ms, es, w₂, rfl, hcaught, hclosing⟩ | ⟨cause, -, hcaught⟩
  swap
  · obtain ⟨_, heq, -⟩ := completes_attempt hcaught
    cases heq
  obtain ⟨_, heq, hexecute⟩ := completes_attempt hcaught
  cases heq
  have hfit₂ := (hexecute.fit (p.opensAt_execute record tx) hfit₁).1
  have hexecuted := completes_execute hexecute
  obtain ⟨hes, hown₃, -, hspared⟩ := hclosing.aloof (p.aloof_closing record _) hfit₂
  have htotal : invocations (as ++ (ms ++ es)) = invocations ms := by
    rw [invocations_append, invocations_append, hstarted.invocations, invocations_closing hclosing]
    omega
  have hown : ownAfter [] (as ++ (ms ++ es)) = ownAfter [] ms := by
    rw [ownAfter_append, hown₁, ownAfter_append, hown₃]
  obtain ⟨rfl, cs, fs, rfl, hfinished, hnone, hsome⟩ := completes_closing hsteady hclosing
  have hms : ∀ d ∈ ms, d.Sound jobProgram fiber := fun d hd => hsound d (by simp [hd])
  refine ⟨rfl, ?_, ?_, ?_, fun own hmem hopen => ?_⟩
  · have hcourse := hexecuted.course hfit₁ hms hstarted hfinished hnone hsome
      (fun d hd => hkeep (List.mem_append_left _ hd) (has d hd))
      fun d hd => hkeep (by simp [List.mem_append.1 hd]) (hes d hd)
    rwa [List.append_assoc, List.append_assoc] at hcourse
  · rw [htotal]
    exact hexecuted.invocations.1
  · rw [htotal]
    exact hexecuted.invocations.2
  · rw [hown] at hmem
    refine hexecuted.closed hfit₁ hms own hmem ?_
    rw [← (hspared own hmem).undisturbed.isOpen]
    exact hopen

/-- The row of `World.withOneTask`. -/
def oneTask : TaskRecord := ⟨1, none, 0, .epoch, .epoch, none, none⟩

/-- What `crashes_or_takes_effect` says of a consumer that wants its task to come back after a
minute: it is called once, and the task comes back 65 seconds after the epoch, since the consumer
has worked for five. -/
theorem returning_takes_effect : ∃ t w',
    Completes Job.work 0 [] (World.returningRunner.processor.process oneTask none) World.withOneTask t
      (.ok ()) w' ∧
    ((w'.store default).records.map fun row => (row.attempts, row.processTime.nanos)) =
      [(0, 65000000000)] ∧
    (∃ events, Course Job.work 0 World.returningRunner.processor oneTask none events t) ∧
    invocations t ≤ 1 := by
  have hrun : World.withOneTask.run Job.work 0
      (World.returningRunner.processor.process oneTask none) = (_, .ended (.ok ())) := rfl
  obtain ⟨t, h⟩ := completes_of_run hrun []
  have hstores : ∀ s, (World.withOneTask.store s).Reachable := by
    intro s
    by_cases hs : s = default
    · rw [hs]
      exact Store.Reachable.run .empty (Store.stock .epoch)
    · have hempty : World.withOneTask.store s = .empty := by
        show (((OrderedMap.empty.insert default _).get? s).map Shard.store).getD .empty = _
        rw [OrderedMap.get?_insert, if_neg hs]
        rfl
      rw [hempty]
      exact .empty
  obtain ⟨-, hcourse, honce, -⟩ :=
    crashes_or_takes_effect none ⟨rfl, fun _ => rfl, rfl⟩ hstores rfl h
  exact ⟨t, _, h, rfl, hcourse, honce⟩

end Processor

end LeaseQueue
