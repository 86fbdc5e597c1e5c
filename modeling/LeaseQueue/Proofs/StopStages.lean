import Mathlib.Data.List.Induction
import LeaseQueue.Pool
import LeaseQueue.Proofs.ProcessProtocols

/-!
# The course of a shutdown

A shutdown goes through stages, and at each of them there is one request that it can ask next, or
none.  `Pool.stage` reads the stage off what the shutdown has asked and been told, and
`follows_shutdown` says that the program goes through the stages in their order, whatever it is
told.

From it come the facts that do not mention stages: which hooks have been called so far, what has
gone before, and where a panic comes from.
-/

set_option autoImplicit false

namespace LeaseQueue

variable {α ω γ : Type}

open Process

/-- How far a shutdown has come. -/
inductive StopStage
  /-- It is about to look at the status. -/
  | calling
  /-- The pool was not running. -/
  | refused
  | alarming
  | timing
  /-- The deadline is out of reach. -/
  | doomed
  | taking (deadline : Tick)
  | joining (deadline : Tick) (loops : List FiberId)
  | aborting (deadline : Tick) (loops : List FiberId)
  /-- The hook of this executor is next and these come after it; so far everything has ended in
  time, or not. -/
  | entering (deadline : Tick) (inTime : Bool) (x : External) (rest : List External)
  /-- This step of a hook is next, and these come after it. -/
  | hooking (deadline : Tick) (inTime : Bool) (x : External) (step : HookStep)
    (steps : List HookStep) (rest : List External)
  /-- A hook has panicked; these would have come after it. -/
  | broken (cause : Panic) (rest : List External)
  | ending (inTime : Bool)
  | finished (inTime : Bool)

namespace StopStage

/-- What is asked next. -/
def request? : StopStage → Option (Request ω)
  | calling => some .beginDraining
  | alarming => some (.signalStop true)
  | timing => some .tick
  | taking _ => some .takeLoops
  | joining deadline loops => some (.ended loops deadline)
  | aborting _ loops => some (.abort loops)
  | entering _ _ x _ => some (.enterHook x.executor)
  | hooking deadline _ x step _ _ => some (step.request x.executor deadline)
  | ending _ => some .endDraining
  | refused | doomed | broken .. | finished _ => none

/-- What a shutdown has come to. -/
def outcome? : StopStage → Option (Except Panic (Except PoolError Unit))
  | refused => some (.ok (.ok ()))
  | doomed => some (.error Pool.deadlineOverflow)
  | broken cause _ => some (.error cause)
  | finished true => some (.ok (.ok ()))
  | finished false => some (.ok (.error .shutdownTimeout))
  | _ => none

/-- A shutdown that has come to something asks nothing more. -/
theorem request?_of_outcome? {stage : StopStage}
    {o : Except Panic (Except PoolError Unit)} (h : stage.outcome? = some o) :
    (stage.request? : Option (Request ω)) = none := by
  cases stage <;> first | rfl | cases h

/-- The stage at which the hook of the first of these executors is next. -/
def atExecutor (deadline : Tick) (inTime : Bool) : List External → StopStage
  | [] => ending inTime
  | x :: rest => entering deadline inTime x rest

/-- The stage of one that has found the pool running, or not. -/
def found (running : Bool) : StopStage := if running then alarming else refused

/-- The stage of one that begins to stop the loops at this time. -/
def timed (p : Pool α) (now : Tick) : StopStage :=
  let deadline := now + p.config.shutdownTimeout.nanos
  if tickLimit ≤ deadline then doomed else taking deadline

/-- The stage of one whose loops have ended in time, or not. -/
def joined (p : Pool α) (deadline : Tick) (loops : List FiberId) (ended : Bool) : StopStage :=
  if ended then atExecutor deadline true p.wiring.executors.values else aborting deadline loops

/-- The stage of one that has these steps of a hook left, or has waited for it for too long. -/
def hooked (deadline : Tick) (inTime : Bool) (x : External) (rest : List External) :
    List HookStep → Bool → StopStage
  | _, false => atExecutor deadline false rest
  | step :: steps, true => hooking deadline inTime x step steps rest
  | [], true =>
    match x.hook.panic with
    | some cause => broken cause rest
    | none => atExecutor deadline inTime rest

/-- The stage after an answer. -/
def after (p : Pool α) : StopStage → Exchange ω → StopStage
  | calling, ⟨.beginDraining, running⟩ => found running
  | alarming, ⟨.signalStop _, _⟩ => timing
  | timing, ⟨.tick, now⟩ => timed p now
  | taking deadline, ⟨.takeLoops, loops⟩ => joining deadline loops
  | joining deadline loops, ⟨.ended .., ended⟩ => joined p deadline loops ended
  | aborting deadline _, ⟨.abort _, _⟩ => atExecutor deadline false p.wiring.executors.values
  | entering deadline inTime x rest, _ => hooked deadline inTime x rest x.hook.steps true
  | hooking deadline inTime x _ steps rest, ⟨r, reply⟩ =>
    hooked deadline inTime x rest steps (r.inTime reply)
  | ending inTime, ⟨.endDraining, _⟩ => finished inTime
  | stage, _ => stage

/-- The ways from one stage to the next. -/
inductive Goes (p : Pool α) : StopStage → Exchange ω → StopStage → Prop
  | refuse : Goes p calling ⟨.beginDraining, false⟩ refused
  | begin : Goes p calling ⟨.beginDraining, true⟩ alarming
  | alarm : Goes p alarming ⟨.signalStop true, ()⟩ timing
  | give (now : Tick) (h : tickLimit ≤ now + p.config.shutdownTimeout.nanos) :
    Goes p timing ⟨.tick, now⟩ doomed
  | time (now : Tick) (h : now + p.config.shutdownTimeout.nanos < tickLimit) :
    Goes p timing ⟨.tick, now⟩ (taking (now + p.config.shutdownTimeout.nanos))
  | take (deadline : Tick) (loops : List FiberId) :
    Goes p (taking deadline) ⟨.takeLoops, loops⟩ (joining deadline loops)
  | join (deadline : Tick) (loops : List FiberId) :
    Goes p (joining deadline loops) ⟨.ended loops deadline, true⟩
      (atExecutor deadline true p.wiring.executors.values)
  | lose (deadline : Tick) (loops : List FiberId) :
    Goes p (joining deadline loops) ⟨.ended loops deadline, false⟩ (aborting deadline loops)
  | abort (deadline : Tick) (loops : List FiberId) :
    Goes p (aborting deadline loops) ⟨.abort loops, ()⟩
      (atExecutor deadline false p.wiring.executors.values)
  | enter (deadline : Tick) (inTime : Bool) (x : External) (rest : List External) :
    Goes p (entering deadline inTime x rest) ⟨.enterHook x.executor, ()⟩
      (hooked deadline inTime x rest x.hook.steps true)
  | hook (deadline : Tick) (inTime : Bool) (x : External) (step : HookStep)
    (steps : List HookStep) (rest : List External)
    (reply : (step.request x.executor deadline : Request ω).Reply) :
    Goes p (hooking deadline inTime x step steps rest) ⟨step.request x.executor deadline, reply⟩
      (hooked deadline inTime x rest steps ((step.request x.executor deadline).inTime reply))
  | stop (inTime : Bool) : Goes p (ending inTime) ⟨.endDraining, ()⟩ (finished inTime)

/-- Whatever a stage asks, the answer leads on to the next one. -/
theorem goes_after {p : Pool α} {stage : StopStage} {x : Exchange ω}
    (h : stage.request? = some x.1) : Goes p stage x (stage.after p x) := by
  obtain ⟨r, reply⟩ := x
  cases stage with
  | calling =>
    cases h
    cases (reply : Bool) with
    | true => exact .begin
    | false => exact .refuse
  | timing =>
    cases h
    change Tick at reply
    show Goes p timing _ (timed p reply)
    unfold timed
    dsimp only
    split
    · next hfar => exact .give reply hfar
    · next hfar => exact .time reply (Nat.lt_of_not_le hfar)
  | joining deadline loops =>
    cases h
    cases (reply : Bool) with
    | true => exact .join deadline loops
    | false => exact .lose deadline loops
  | alarming =>
    cases h
    exact .alarm
  | taking deadline =>
    cases h
    exact .take deadline reply
  | aborting deadline loops =>
    cases h
    exact .abort deadline loops
  | entering deadline inTime x rest =>
    cases h
    exact .enter deadline inTime x rest
  | hooking deadline inTime x step steps rest =>
    cases h
    exact .hook deadline inTime x step steps rest reply
  | ending inTime =>
    cases h
    exact .stop inTime
  | refused => cases h
  | doomed => cases h
  | broken cause rest => cases h
  | finished inTime => cases h

/-- The shutdown has taken the stopping of the pool over and not declared the pool stopped. -/
def Underway : StopStage → Prop
  | calling | refused | finished _ => False
  | _ => True

/-- From the sign to stop on, until the pool is declared stopped. -/
def Raised (stage : StopStage) : Prop := stage.Underway ∧ stage ≠ alarming

/-- The loops have ended or have been called off. -/
def Late : StopStage → Prop
  | entering .. | hooking .. | broken .. | ending _ => True
  | _ => False

/-- The executors whose hooks are still to be called. -/
def uncalled (p : Pool α) : StopStage → List External
  | entering _ _ x rest => x :: rest
  | hooking _ _ _ _ _ rest | broken _ rest => rest
  | ending _ | finished _ => []
  | _ => p.wiring.executors.values

/-- The executors of a stage are registered in this order, and what is left of a hook is how it
ends. -/
def Fits (p : Pool α) : StopStage → Prop
  | entering _ _ x rest => x :: rest <:+ p.wiring.executors.values
  | hooking _ _ x step steps rest =>
    x :: rest <:+ p.wiring.executors.values ∧ step :: steps <:+ x.hook.steps
  | broken cause rest =>
    ∃ x, x :: rest <:+ p.wiring.executors.values ∧ x.hook.panic = some cause
  | _ => True

variable {p : Pool α} {deadline : Tick} {inTime : Bool}

/-- A hook is given up, or has returned or panicked, or goes on. -/
theorem hooked_cases {P : StopStage → Prop} {x : External} {rest : List External}
    {steps : List HookStep} {came : Bool}
    (hover : ∀ inTime', (inTime' = true → inTime = true ∧ came = true ∧ steps = []) →
      P (atExecutor deadline inTime' rest))
    (hpanic : ∀ cause, x.hook.panic = some cause → P (broken cause rest))
    (hmore : ∀ step more, came = true → steps = step :: more →
      P (hooking deadline inTime x step more rest)) :
    P (hooked deadline inTime x rest steps came) := by
  cases came with
  | false =>
    cases steps <;> exact hover false nofun
  | true =>
    cases steps with
    | cons step more => exact hmore step more rfl rfl
    | nil =>
      show P (match x.hook.panic with
        | some cause => broken cause rest
        | none => atExecutor deadline inTime rest)
      split
      · next cause hcause => exact hpanic cause hcause
      · exact hover inTime fun h => ⟨h, rfl, rfl⟩

/-- A call past the wait for the loops is under way. -/
theorem Late.underway {stage : StopStage} (h : stage.Late) : stage.Underway := by
  cases stage <;> first | exact trivial | exact h.elim

/-- A call past the wait for the loops has raised the signal. -/
theorem Late.raised {stage : StopStage} (h : stage.Late) : stage.Raised :=
  ⟨h.underway, by rintro rfl; exact h⟩

/-- A call that turns to the executors is past the wait for the loops. -/
theorem late_atExecutor (deadline : Tick) (inTime : Bool) (xs : List External) :
    (atExecutor deadline inTime xs).Late := by
  cases xs <;> exact trivial

/-- A call in a hook is past the wait for the loops. -/
theorem late_hooked (deadline : Tick) (inTime : Bool) (x : External) (rest : List External)
    (steps : List HookStep) (came : Bool) : (hooked deadline inTime x rest steps came).Late :=
  hooked_cases (fun _ _ => late_atExecutor ..) (fun _ _ => trivial) fun _ _ _ _ => trivial

/-- A call that turns to some executors has called the hook of none of them. -/
theorem uncalled_atExecutor (deadline : Tick) (inTime : Bool) (xs : List External) :
    (atExecutor deadline inTime xs).uncalled p = xs := by
  cases xs <;> rfl

/-- A call in a hook has the hooks of the executors behind it to call. -/
theorem uncalled_hooked (deadline : Tick) (inTime : Bool) (x : External) (rest : List External)
    (steps : List HookStep) (came : Bool) :
    (hooked deadline inTime x rest steps came).uncalled p = rest :=
  hooked_cases (P := fun stage => stage.uncalled p = rest) (fun _ _ => uncalled_atExecutor ..)
    (fun _ _ => rfl) fun _ _ _ _ => rfl

/-- The executors to which a call turns are the last ones of the wiring. -/
theorem fits_atExecutor (deadline : Tick) (inTime : Bool) {xs : List External}
    (h : xs <:+ p.wiring.executors.values) : (atExecutor deadline inTime xs).Fits p := by
  cases xs with
  | nil => exact trivial
  | cons x rest => exact h

/-- The steps of the hook in which a call is are the last ones of it. -/
theorem fits_hooked (deadline : Tick) (inTime : Bool) {x : External} {rest : List External}
    {steps : List HookStep} (came : Bool) (hx : x :: rest <:+ p.wiring.executors.values)
    (hsteps : steps <:+ x.hook.steps) : (hooked deadline inTime x rest steps came).Fits p :=
  hooked_cases (P := Fits p)
    (fun _ _ => fits_atExecutor _ _ ((List.suffix_cons x rest).trans hx))
    (fun _ hcause => ⟨x, hx, hcause⟩) fun _ _ _ hmore => ⟨hx, hmore ▸ hsteps⟩

/-- The stages of a shutdown fit its pool. -/
theorem Fits.goes {stage next : StopStage} {y : Exchange ω} (h : stage.Fits p)
    (hgoes : stage.Goes p y next) : next.Fits p := by
  cases hgoes with
  | join deadline loops => exact fits_atExecutor _ _ (List.suffix_refl _)
  | abort deadline loops => exact fits_atExecutor _ _ (List.suffix_refl _)
  | enter deadline inTime x rest => exact fits_hooked _ _ _ h (List.suffix_refl _)
  | hook deadline inTime x step steps rest reply =>
    exact fits_hooked _ _ _ h.1 ((List.suffix_cons step steps).trans h.2)
  | _ => exact trivial

/-- A shutdown is told at first whether the pool was running; after that it has raised the signal,
until it declares the pool stopped. -/
theorem Goes.raised_or {stage next : StopStage} {y : Exchange ω} (h : stage.Goes p y next) :
    (stage = calling ∧ y = ⟨.beginDraining, false⟩ ∧ next = refused) ∨
      (stage = calling ∧ y = ⟨.beginDraining, true⟩ ∧ next = alarming) ∨
      next.Raised ∨ ∃ inTime, y = ⟨.endDraining, ()⟩ ∧ next = finished inTime := by
  cases h with
  | refuse => exact .inl ⟨rfl, rfl, rfl⟩
  | begin => exact .inr (.inl ⟨rfl, rfl, rfl⟩)
  | stop inTime => exact .inr (.inr (.inr ⟨inTime, rfl, rfl⟩))
  | join _ _ | abort _ _ => exact .inr (.inr (.inl (late_atExecutor ..).raised))
  | enter _ _ _ _ | hook _ _ _ _ _ _ _ => exact .inr (.inr (.inl (late_hooked ..).raised))
  | _ => exact .inr (.inr (.inl ⟨trivial, nofun⟩))

end StopStage

namespace Pool

open StopStage

variable {p : Pool α}

/-- The course of a shutdown as a protocol. -/
def stopProtocol (ω : Type) (p : Pool α) : Protocol ω StopStage where
  permits stage r := stage.request? = some r
  after := StopStage.after p
  trusts _ := True

/-- How far a shutdown has come that has asked this and been told it. -/
def stage (p : Pool α) (said : List (Exchange ω)) : StopStage :=
  said.foldl (StopStage.after p) .calling

/-- A hook goes through its steps until it has returned or panicked or is given up. -/
theorem follows_finishHook (deadline : Tick) (inTime : Bool) (x : External) (rest : List External)
    (steps : List HookStep) :
    (x.finishHook deadline steps : Process ω Bool).Follows (p.stopProtocol ω)
      (fun o stage =>
        (∃ returned, o = .ok returned ∧ stage = atExecutor deadline (inTime && returned) rest) ∨
        ∃ cause, o = .error cause ∧ stage = .broken cause rest)
      (hooked deadline inTime x rest steps true) := by
  induction steps with
  | nil =>
    unfold External.finishHook
    split
    · next cause hcause => exact .inr ⟨cause, rfl, by simp only [hooked, hcause]⟩
    · next hcalm => exact .inl ⟨true, rfl, by simp only [hooked, hcalm, Bool.and_true]⟩
  | cons step steps ih =>
    refine ⟨rfl, fun reply _ => ?_⟩
    show Follows _ _ (if (step.request x.executor deadline).inTime reply then _ else _)
      (hooked deadline inTime x rest steps ((step.request x.executor deadline).inTime reply))
    cases (step.request x.executor deadline : Request ω).inTime reply with
    | true => exact ih
    | false =>
      refine .inl ⟨false, rfl, ?_⟩
      rw [Bool.and_false]
      cases steps <;> rfl

/-- The hooks are called one after the other until one of them panics. -/
theorem follows_drain (deadline : Tick) (xs : List External) (inTime : Bool) :
    (drain deadline xs : Process ω Bool).Follows (p.stopProtocol ω)
      (fun o stage => (∃ drained, o = .ok drained ∧ stage = .ending (inTime && drained)) ∨
        ∃ cause rest, o = .error cause ∧ stage = .broken cause rest)
      (atExecutor deadline inTime xs) := by
  induction xs generalizing inTime with
  | nil => exact .inl ⟨true, rfl, by rw [Bool.and_true]; rfl⟩
  | cons x rest ih =>
    refine ⟨rfl, fun _ _ => ?_⟩
    show ((x.callHook deadline).bind fun returned => (drain deadline rest).bind _).Follows _ _
      (hooked deadline inTime x rest x.hook.steps true)
    refine follows_bind (follows_finishHook deadline inTime x rest x.hook.steps) ?_ ?_
    · rintro returned stage (⟨_, hreturned, rfl⟩ | ⟨_, hpanic, -⟩)
      · cases hreturned
        refine follows_bind (ih (inTime && returned)) ?_ ?_
        · rintro others stage (⟨_, hothers, rfl⟩ | ⟨_, _, hpanic, -⟩)
          · cases hothers
            exact .inl ⟨returned && others, rfl, congrArg StopStage.ending (Bool.and_assoc ..)⟩
          · cases hpanic
        · rintro cause stage (⟨_, hothers, -⟩ | ⟨_, rest, hpanic, rfl⟩)
          · cases hothers
          · cases hpanic
            exact .inr ⟨cause, rest, rfl, rfl⟩
      · cases hpanic
    · rintro cause stage (⟨_, hreturned, -⟩ | ⟨_, hpanic, rfl⟩)
      · cases hreturned
      · cases hpanic
        exact .inr ⟨cause, rest, rfl, rfl⟩

/-- The loops are waited for, and called off if that takes too long. -/
theorem follows_join (deadline : Tick) (loops : List FiberId) :
    (join deadline loops : Process ω Bool).Follows (p.stopProtocol ω)
      (fun o stage => ∃ ended, o = .ok ended ∧
        stage = atExecutor deadline ended p.wiring.executors.values)
      (.joining deadline loops) := by
  refine ⟨rfl, fun ended _ => ?_⟩
  cases ended with
  | true => exact ⟨true, rfl, rfl⟩
  | false => exact ⟨rfl, fun _ _ => ⟨false, rfl, rfl⟩⟩

/-- A shutdown goes through its stages in their order. -/
theorem follows_shutdown :
    (p.shutdown : Process ω (Except PoolError Unit)).Follows (p.stopProtocol ω)
      (fun o stage => stage.outcome? = some o) .calling := by
  refine ⟨rfl, fun running _ => ?_⟩
  cases running with
  | false => exact rfl
  | true =>
    refine ⟨rfl, fun _ _ => ⟨rfl, fun (now : Tick) _ => ?_⟩⟩
    show Follows _ _ (if tickLimit ≤ now + p.config.shutdownTimeout.nanos then _ else _)
      (if tickLimit ≤ now + p.config.shutdownTimeout.nanos then _ else _)
    by_cases hfar : tickLimit ≤ now + p.config.shutdownTimeout.nanos
    · rw [if_pos hfar, if_pos hfar]
      exact rfl
    · rw [if_neg hfar, if_neg hfar]
      refine ⟨rfl, fun loops _ => ?_⟩
      show ((join _ loops).bind _).Follows _ _ (StopStage.joining _ loops)
      refine follows_bind (follows_join _ loops) ?_ ?_
      · rintro ended stage ⟨_, hended, rfl⟩
        cases hended
        refine follows_bind (follows_drain _ _ ended) ?_ ?_
        · rintro drained stage (⟨_, hdrained, rfl⟩ | ⟨_, _, hpanic, -⟩)
          · cases hdrained
            refine ⟨rfl, fun _ _ => ?_⟩
            show (StopStage.finished (ended && drained)).outcome? = _
            cases ended && drained <;> rfl
          · cases hpanic
        · rintro cause stage (⟨_, hdrained, -⟩ | ⟨_, rest, hpanic, rfl⟩)
          · cases hdrained
          · cases hpanic
            exact rfl
      · rintro cause stage ⟨_, hpanic, -⟩
        cases hpanic

variable {said : List (Exchange ω)}

/-- What is left of a shutdown follows the protocol from its stage. -/
theorem follows_stage {left : Process ω (Except PoolError Unit)} (h : Runs p.shutdown said left) :
    left.Follows (p.stopProtocol ω) (fun o stage => stage.outcome? = some o) (p.stage said) :=
  follows_runs follows_shutdown h fun _ _ => trivial

/-- A shutdown asks what its stage says. -/
theorem request?_of_asks {r : Request ω} (h : Asks p.shutdown said r) :
    (p.stage said).request? = some r := by
  obtain ⟨next, h⟩ := h
  exact (follows_stage h).1

/-- A shutdown comes to what its stage says. -/
theorem outcome?_of_returns {result : Except PoolError Unit} (h : Returns p.shutdown said result) :
    (p.stage said).outcome? = some (.ok result) :=
  follows_stage h

/-- What is left of a shutdown has come to what its stage says. -/
theorem outcome?_of_runs {left : Process ω (Except PoolError Unit)} (h : Runs p.shutdown said left) :
    left.outcome? = (p.stage said).outcome? := by
  have hleft := follows_stage h
  cases left with
  | done a =>
    have hstage : (p.stage said).outcome? = some (.ok a) := hleft
    exact hstage.symm
  | panic cause =>
    have hstage : (p.stage said).outcome? = some (.error cause) := hleft
    exact hstage.symm
  | call r next =>
    cases houtcome : (p.stage said).outcome? with
    | none => rfl
    | some o => cases (StopStage.request?_of_outcome? houtcome).symm.trans hleft.1

/-- A shutdown has come to a result exactly if its stage says so. -/
theorem returns_iff {left : Process ω (Except PoolError Unit)} (h : Runs p.shutdown said left)
    {result : Except PoolError Unit} :
    Returns p.shutdown said result ↔ (p.stage said).outcome? = some (.ok result) := by
  refine ⟨outcome?_of_returns, fun houtcome => ?_⟩
  have hleft := (outcome?_of_runs h).trans houtcome
  cases left <;> cases hleft
  exact h

/-- A shutdown has panicked exactly if its stage says so. -/
theorem panics_iff {left : Process ω (Except PoolError Unit)} (h : Runs p.shutdown said left)
    {cause : Panic} :
    Runs p.shutdown said (.panic cause) ↔ (p.stage said).outcome? = some (.error cause) := by
  refine ⟨fun hpanic => follows_stage hpanic, fun houtcome => ?_⟩
  have hleft := (outcome?_of_runs h).trans houtcome
  cases left <;> cases hleft
  exact h

/-- The stage of a shutdown moves with each thing that it says. -/
theorem stage_append (said : List (Exchange ω)) (x : Exchange ω) :
    p.stage (said ++ [x]) = (p.stage said).after p x := by
  unfold stage
  rw [List.foldl_append]
  rfl

end Pool

/-! ## What has gone before -/

/-- The executor whose hook a request notes to be called. -/
def Request.enters? : Request ω → Option ExecutorId
  | .enterHook e => some e
  | _ => none

/-- A step within a hook calls no hook. -/
theorem HookStep.enters?_request (e : ExecutorId) (deadline : Tick) (step : HookStep) :
    (step.request e deadline : Request ω).enters? = none := by
  cases step <;> rfl

/-- The executors whose hooks have been called. -/
def hookCalls (said : List (Exchange ω)) : List ExecutorId := said.filterMap fun x => x.1.enters?

/-- One more thing that is said adds the hook that it calls, if any. -/
theorem hookCalls_append (said : List (Exchange ω)) (x : Exchange ω) :
    hookCalls (said ++ [x]) = hookCalls said ++ x.1.enters?.toList := by
  unfold hookCalls
  rw [List.filterMap_append]
  cases henters : x.1.enters? <;> simp [henters]

namespace Pool

open StopStage

/-- The executors in the order of their queues, each as often as it is registered. -/
def registered (p : Pool α) : List ExecutorId := p.wiring.executors.values.map External.executor

variable {p : Pool α} {said : List (Exchange ω)} {left : Process ω (Except PoolError Unit)}

/-- What is called on the way to a stage is what was to be called next. -/
theorem uncalled_of_goes {stage next : StopStage} {y : Exchange ω} (h : stage.Goes p y next) :
    y.1.enters?.toList ++ (next.uncalled p).map External.executor =
      (stage.uncalled p).map External.executor := by
  cases h with
  | join deadline loops => rw [uncalled_atExecutor]; rfl
  | abort deadline loops => rw [uncalled_atExecutor]; rfl
  | enter deadline inTime x rest => rw [uncalled_hooked]; rfl
  | hook deadline inTime x step steps rest reply =>
    rw [uncalled_hooked, HookStep.enters?_request]
    rfl
  | _ => rfl

/-- An answer leads a shutdown on to its next stage. -/
theorem goes_of_asks {r : Request ω} (h : Asks p.shutdown said r) (reply : r.Reply) :
    (p.stage said).Goes p ⟨r, reply⟩ (p.stage (said ++ [⟨r, reply⟩])) := by
  rw [stage_append]
  exact goes_after (request?_of_asks h)

/-- What holds at the beginning of a shutdown and is kept on the way from stage to stage holds all
the time. -/
theorem said_induction {P : StopStage → List (Exchange ω) → Prop} (hnil : P .calling [])
    (hstep : ∀ stage es x next, stage.Goes p x next → P stage es → P next (es ++ [x]))
    (h : Runs p.shutdown said left) : P (p.stage said) said := by
  induction said using List.reverseRecOn generalizing left with
  | nil => exact hnil
  | append_singleton es x ih =>
    obtain ⟨middle, hes, hx⟩ := runs_of_append h
    cases hx with
    | cons _ => exact hstep _ es _ _ (goes_of_asks ⟨_, hes⟩ _) (ih hes)

/-- At every stage the hooks that have been called and those that are still to be called are those
of the wiring. -/
theorem hookCalls_append_uncalled (h : Runs p.shutdown said left) :
    hookCalls said ++ ((p.stage said).uncalled p).map External.executor = p.registered := by
  refine said_induction (P := fun stage said =>
    hookCalls said ++ (stage.uncalled p).map External.executor = p.registered) rfl ?_ h
  intro stage es x next hgoes ih
  rw [hookCalls_append, List.append_assoc, uncalled_of_goes hgoes, ih]

/-- A shutdown is always at a stage that fits the pool. -/
theorem fits_of_runs (h : Runs p.shutdown said left) : (p.stage said).Fits p :=
  said_induction (P := fun stage _ => stage.Fits p) trivial
    (fun _ _ _ _ hgoes ih => ih.goes hgoes) h

/-- The first executor that a stage names has had its hook called, if the others are still to have
it called. -/
theorem mem_hookCalls (h : Runs p.shutdown said left) {x : External}
    (hx : x :: (p.stage said).uncalled p <:+ p.wiring.executors.values) :
    x.executor ∈ hookCalls said := by
  obtain ⟨before, hbefore⟩ := hx
  have hall := hookCalls_append_uncalled h
  rw [registered, ← hbefore, List.append_cons, List.map_append] at hall
  rw [List.append_cancel_right hall, List.map_append]
  exact List.mem_append_right _ (List.mem_singleton_self _)

/-- A shutdown that has asked for nothing but the status has been told that the pool does
not run. -/
theorem said_of_refused (h : Runs p.shutdown said left) (hrefused : p.stage said = .refused) :
    said = [⟨.beginDraining, false⟩] := by
  have hboth := said_induction (P := fun stage said => (stage = .calling → said = []) ∧
    (stage = .refused → said = [⟨.beginDraining, false⟩])) ⟨fun _ => rfl, nofun⟩ ?_ h
  · exact hboth.2 hrefused
  intro stage es x next hgoes ih
  rcases hgoes.raised_or with ⟨rfl, rfl, rfl⟩ | ⟨rfl, rfl, rfl⟩ | hraised | ⟨inTime, rfl, rfl⟩
  · exact ⟨nofun, fun _ => by rw [ih.1 rfl]; rfl⟩
  · exact ⟨nofun, nofun⟩
  · constructor <;> rintro rfl <;> exact hraised.1.elim
  · exact ⟨nofun, nofun⟩

/-- When a shutdown that has found the pool running comes to a result all hooks have been called. -/
theorem hookCalls_of_returns {result : Except PoolError Unit}
    (h : Returns p.shutdown said result) (hrunning : ⟨.beginDraining, true⟩ ∈ said) :
    hookCalls said = p.registered := by
  have hall := hookCalls_append_uncalled h
  have houtcome := outcome?_of_returns h
  cases hstage : p.stage said with
  | finished inTime =>
    rw [hstage] at hall
    exact (List.append_nil _).symm.trans hall
  | refused =>
    rw [said_of_refused h hstage, List.mem_singleton] at hrunning
    cases hrunning
  | _ =>
    rw [hstage] at houtcome
    cases houtcome

/-- A hook that panics is one of the wiring, and it has been called. -/
theorem hook_of_broken (h : Runs p.shutdown said left) {cause : Panic} {rest : List External}
    (hbroken : p.stage said = .broken cause rest) :
    ∃ x ∈ p.wiring.executors.values, x.hook.panic = some cause ∧ x.executor ∈ hookCalls said := by
  have hfits := fits_of_runs h
  rw [hbroken] at hfits
  obtain ⟨x, hsuffix, hcause⟩ := hfits
  refine ⟨x, hsuffix.subset List.mem_cons_self, hcause, mem_hookCalls h ?_⟩
  rw [hbroken]
  exact hsuffix

/-- A shutdown that has asked for more than the status has given the sign to stop and not declared
the pool stopped, or it is over. -/
theorem raised_or_over (h : Runs p.shutdown said left) {x : Exchange ω} (hx : x ∈ said)
    (hne : x.1 ≠ .beginDraining) :
    (p.stage said).Raised ∨ ∃ inTime, p.stage said = .finished inTime := by
  refine said_induction (P := fun stage said => x ∈ said →
    stage.Raised ∨ ∃ inTime, stage = .finished inTime) nofun ?_ h hx
  intro stage es y next hgoes ih hx
  have hfirst : stage = .calling → y.1 = .beginDraining → False := by
    -- the status is asked for only at the beginning
    rintro rfl hstatus
    rcases List.mem_append.1 hx with hx | hx
    · rcases ih hx with hraised | ⟨inTime, hover⟩
      · exact hraised.1
      · cases hover
    · exact hne (List.mem_singleton.1 hx ▸ hstatus)
  rcases hgoes.raised_or with ⟨hstage, rfl, -⟩ | ⟨hstage, rfl, -⟩ | hraised | ⟨inTime, -, hover⟩
  · exact (hfirst hstage rfl).elim
  · exact (hfirst hstage rfl).elim
  · exact .inl hraised
  · exact .inr ⟨inTime, hover⟩

/-- A shutdown that is over has declared the pool stopped. -/
theorem ended_of_over (h : Runs p.shutdown said left) {inTime : Bool}
    (hover : p.stage said = .finished inTime) : ⟨.endDraining, ()⟩ ∈ said := by
  refine said_induction (P := fun stage said => stage = .finished inTime → ⟨.endDraining, ()⟩ ∈ said)
    nofun ?_ h hover
  rintro stage es x next hgoes - rfl
  refine List.mem_append_right _ ?_
  rcases hgoes.raised_or with ⟨-, -, hnext⟩ | ⟨-, -, hnext⟩ | hraised | ⟨_, rfl, -⟩
  · cases hnext
  · cases hnext
  · exact hraised.1.elim
  · exact List.mem_singleton_self _

end Pool

end LeaseQueue
