import LeaseQueue.Proofs.PoolSettlement

/-!
# What a shutdown leaves behind

A shutdown that has found the pool running and comes to no error has waited for every loop that was
polling, and for every job of an executor whose hook waits for them, so nothing of these goes on
until the pool is started again.  The hook of the ready-made executor waits for its jobs; an
executor whose hook does not may have work left.

A shutdown that finds the pool not running comes to no error either, but it has not looked at
anything: another shutdown may be underway, or may have given up waiting.

Main statement: `Pool.stops_of_calls`.
-/

set_option autoImplicit false

namespace LeaseQueue

variable {α : Type}

open Process

/-! ## The end of a shutdown -/

/-- Nothing of a pool goes on. -/
structure Pool.Quiescent (p : Pool α) (s : Service α) : Prop where
  status : s.world.pool.status = .stopped
  /-- All loops of the last start have ended; one of an earlier start that is still there was called
  off by a shutdown. -/
  loops : ∀ {k called}, s.Polls k called →
    called = true ∧ ∀ l, s.duty k ≠ some (.loop s.starts l)
  states : ∀ entry ∈ Pool.loopStates s.world, entry.state = .stopped
  /-- No executor whose hook waits for its jobs has unfinished work. -/
  executors : ∀ x ∈ p.wiring.executors.values, x.hook.Awaits →
    (s.world.executor x.executor).active = 0 ∧
      ∀ k f program, s.world.fibers.get? k = some f → f.body ≠ .job x.executor program

namespace Service

variable {p : Pool α} {s : Service α}

/-- A pool that was stopped in order is quiescent. -/
theorem Reached.quiescent (hcalm : p.Calm) (h : s.Reached p)
    (hstopped : s.world.pool.status = .stopped) (horder : s.outline.InOrder p) :
    p.Quiescent s := by
  obtain ⟨hended, hexecutors⟩ := (h.settled hcalm).finished hstopped horder
  exact {
    status := hstopped
    loops := by
      intro k called hpolls
      obtain ⟨start, l, hduty, hfiber⟩ := h.accounted.polls_iff.1 hpolls
      refine ⟨h.crewed.resting hstopped hduty hfiber, fun l' hlast => ?_⟩
      cases (hended hlast).1.symm.trans hfiber
    states := by
      intro entry hentry
      obtain ⟨i, hi, hat⟩ := List.mem_filterMap.1 hentry
      obtain ⟨k, l, hduty, rfl⟩ := h.placed.staffed hi
      have hstate : (s.world.loops[l.id]?).map LoopEntry.state = some .stopped := (hended hduty).2
      rw [hat] at hstate
      exact Option.some.inj hstate
    executors := by
      intro x hx hawaits
      obtain ⟨hactive, hworks⟩ := hexecutors x hx hawaits
      constructor
      · change ((s.world.executors[x.executor]?).map Executor.active).getD 0 = 0 at hactive
        unfold World.executor
        cases hthere : s.world.executors[x.executor]? with
        | none => rfl
        | some executor => simpa [hthere] using hactive
      · rintro k ⟨body, held, called⟩ program hfiber rfl
        have hstanding := standing_of_fiber hfiber
        obtain ⟨duty, hduty, hleft⟩ := h.accounted.left hstanding
        cases hleft with
        | work _ =>
          refine hworks k ⟨⟨_, hduty⟩, ?_⟩
          rw [fiber_of_standing hstanding]
          exact Option.some_ne_none _ }

end Service

namespace Outline

variable {p : Pool α} {o o' : Outline α}

/-- The starts of a pool are counted and never taken back. -/
theorem Turn.starts_le (hturn : o.Turn p o') : o.starts ≤ o'.starts := by
  cases hturn with
  | steady hsteady => exact Nat.le_of_eq hsteady.starts.symm
  | start hstatus hopen => exact Nat.le_succ _
  | stop x hstage hgoes htells hstages => exact Nat.le_of_eq (spared_of_goes o _ hgoes).starts.symm

/-- A pool that has been stopped is started, or stays as it was stopped. -/
theorem Turn.of_stopped (hturn : o.Turn p o') (hcontrolled : Controlled p o)
    (hstopped : o.pool.status = .stopped) :
    o'.starts = o.starts + 1 ∨ o'.pool.status = .stopped ∧ o'.stopper = o.stopper := by
  cases hturn with
  | steady hsteady => exact .inr ⟨hsteady.status.trans hstopped, hsteady.stopper⟩
  | start hstatus hopen => exact .inl rfl
  | stop x hstage hgoes htells hstages =>
    cases hgoes with
    | refuse => exact .inr ⟨hstopped, rfl⟩
    | begin => cases hstopped.symm.trans (running_of_tells htells)
    | _ => cases hstopped.symm.trans (hcontrolled.draining hstage trivial)

/-- A shutdown stays at its stage or goes on to the next one. -/
theorem Turn.stages_next (hturn : o.Turn p o') (hfresh : o.Fresh) {k : FiberId}
    {stage : StopStage} (hstage : o.stages p k = some stage) :
    o'.stages p k = some stage ∨
      ∃ (x : Exchange (Job α)) (next : StopStage), stage.Goes p x next ∧
        o'.stages p k = some next := by
  cases hturn with
  | steady hsteady => exact .inl (hsteady.stages_kept hstage)
  | start hstatus hopen =>
    rw [stages_started hfresh]
    exact .inl hstage
  | @stop id other next x hother hgoes htells hstages =>
    by_cases hk : k = id
    · subst hk
      cases hother.symm.trans hstage
      exact .inr ⟨x, next, hgoes, by rw [hstages, Function.update_self]⟩
    · rw [hstages, Function.update_of_ne hk]
      exact .inl hstage

/-- A shutdown that is over stays so. -/
theorem Turn.stages_over (hturn : o.Turn p o') (hfresh : o.Fresh) {k : FiberId} {inTime : Bool}
    (hover : o.stages p k = some (.finished inTime)) : o'.stages p k = some (.finished inTime) := by
  rcases hturn.stages_next hfresh hover with hsame | ⟨x, next, hgoes, -⟩
  · exact hsame
  · cases hgoes

/-- A shutdown that is underway stays so until it declares the pool stopped. -/
theorem Turn.stages_underway (hturn : o.Turn p o') (hfresh : o.Fresh) {k : FiberId}
    {stage : StopStage} (hstage : o.stages p k = some stage) (hunderway : stage.Underway) :
    (∃ next, o'.stages p k = some next ∧ next.Underway) ∨
      o'.pool.status = .stopped ∧ o'.stopper = some k ∧
        ∃ inTime, o'.stages p k = some (.finished inTime) := by
  cases hturn with
  | steady hsteady => exact .inl ⟨stage, hsteady.stages_kept hstage, hunderway⟩
  | start hstatus hopen =>
    rw [stages_started hfresh]
    exact .inl ⟨stage, hstage, hunderway⟩
  | @stop id other next x hother hgoes htells hstages =>
    by_cases hk : k = id
    · subst hk
      cases hother.symm.trans hstage
      have hself : ((o.after k x).heard k x).stages p k = some next := by
        rw [hstages, Function.update_self]
      rcases hgoes.raised_or with ⟨rfl, -⟩ | ⟨rfl, -⟩ | hraised | ⟨inTime, rfl, rfl⟩
      · exact hunderway.elim
      · exact hunderway.elim
      · exact .inl ⟨next, hself, hraised.1⟩
      · exact .inr ⟨rfl, rfl, inTime, hself⟩
    · refine .inl ⟨stage, ?_, hunderway⟩
      rw [hstages, Function.update_of_ne hk]
      exact hstage

/-- Who has declared the pool stopped is over. -/
def StopperOver (p : Pool α) (o : Outline α) : Prop :=
  ∀ {k}, o.stopper = some k → ∃ inTime, o.stages p k = some (.finished inTime)

/-- The call that stopped the pool stays over, whatever happens next. -/
theorem StopperOver.turn (h : o.StopperOver p) (hfresh : o.Fresh) (hturn : o.Turn p o') :
    o'.StopperOver p := by
  have hkept : ∀ {k}, o.stopper = some k → ∃ inTime, o'.stages p k = some (.finished inTime) := by
    intro k hk
    obtain ⟨inTime, hover⟩ := h hk
    exact ⟨inTime, hturn.stages_over hfresh hover⟩
  intro k hk
  cases hturn with
  | steady hsteady => exact hkept (hsteady.stopper.symm.trans hk)
  | start hstatus hopen => exact hkept hk
  | @stop id stage next x hstage hgoes htells hstages =>
    cases hgoes with
    | stop inTime =>
      obtain rfl := Option.some.inj hk
      exact ⟨inTime, by rw [hstages, Function.update_self]⟩
    | hook deadline inTime x step steps rest reply =>
      rw [after_hookStep] at hk
      exact hkept hk
    | _ => exact hkept hk

/-- After `n` starts the pool has been stopped, and it stays so unless another start succeeds. -/
structure AtRest (n : Nat) (o : Outline α) : Prop where
  le : n ≤ o.starts
  status : o.starts = n → o.pool.status = .stopped

/-- A pool at rest stays so until it is started again. -/
theorem AtRest.turn {n : Nat} (h : AtRest n o) (hcontrolled : Controlled p o)
    (hturn : o.Turn p o') : AtRest n o' where
  le := Nat.le_trans h.le hturn.starts_le
  status hstarts := by
    have hsame : o.starts = n := Nat.le_antisymm (hstarts ▸ hturn.starts_le) h.le
    rcases hturn.of_stopped hcontrolled (h.status hsame) with hmore | ⟨hstopped, -⟩
    · omega
    · exact hstopped

/-- Since a shutdown has looked at the status, `n` starts having succeeded before, it is underway,
or the pool has been stopped, unless another start has succeeded. -/
structure Since (p : Pool α) (n : Nat) (k : FiberId) (o : Outline α) : Prop where
  le : n ≤ o.starts
  course : o.starts = n → (∃ stage, o.stages p k = some stage ∧ stage.Underway) ∨
    o.pool.status = .stopped ∧ (o.InOrder p ∨ o.stages p k = some (.finished false))

/-- What a call found stays true of the pool as long as the call goes on. -/
theorem Since.turn {n : Nat} {k : FiberId} (h : Since p n k o) (hfresh : o.Fresh)
    (hcontrolled : Controlled p o) (hturn : o.Turn p o') : Since p n k o' where
  le := Nat.le_trans h.le hturn.starts_le
  course hstarts := by
    have hsame : o.starts = n := Nat.le_antisymm (hstarts ▸ hturn.starts_le) h.le
    rcases h.course hsame with ⟨stage, hstage, hunderway⟩ | ⟨hstopped, hend⟩
    · rcases hturn.stages_underway hfresh hstage hunderway with hnext |
        ⟨hstopped, hstopper, inTime, hover⟩
      · exact .inl hnext
      · refine .inr ⟨hstopped, ?_⟩
        cases inTime with
        | false => exact .inr hover
        | true =>
          refine .inl fun j hj => ?_
          obtain rfl := Option.some.inj (hstopper.symm.trans hj)
          exact hover
    · rcases hturn.of_stopped hcontrolled hstopped with hmore | ⟨hstopped', hstopper⟩
      · omega
      · refine .inr ⟨hstopped', hend.imp (fun horder j hj => ?_) (hturn.stages_over hfresh)⟩
        exact hturn.stages_over hfresh (horder j (hstopper.symm.trans hj))

end Outline

/-! ## Shutdowns that come to an end -/

/-- A call that has returned is no longer under way. -/
theorem StopStage.not_underway_of_outcome? {stage : StopStage} {result : Except PoolError Unit}
    (h : stage.outcome? = some (.ok result)) : ¬ stage.Underway := by
  cases stage <;> first | exact id | cases h

namespace Pool

variable {p : Pool α}

/-- The shutdown that last declared the pool stopped, if there is one, came to no error. -/
def StoppedInOrder (p : Pool α) (s : Service α) : Prop :=
  ∀ k, s.stopper = some k → Returns p.shutdown (s.said k) (.ok ())

end Pool

namespace Service

variable {p : Pool α} {s : Service α} {k : FiberId}

/-- A shutdown has been called and has not looked at the status yet. -/
structure Calls (s : Service α) (k : FiberId) : Prop where
  duty : s.duty k = some .shutdown
  there : s.outline.fiber k ≠ none
  said : s.said k = []

/-- In a reached state of the service the pool is stopped only when its call is over. -/
theorem Reached.stopperOver (h : s.Reached p) : s.outline.StopperOver p :=
  h.induction (P := fun o => o.StopperOver p) (fun _ _ _ => nofun)
    fun _ _ hfresh hold hchange => hold.turn hfresh (hchange.turn hfresh)

/-- A pool that was stopped in order is so in every reached state. -/
theorem Reached.inOrder (h : s.Reached p) (horder : p.StoppedInOrder s) : s.outline.InOrder p := by
  intro k hk
  obtain ⟨inTime, hover⟩ := h.stopperOver hk
  obtain ⟨-, hstage⟩ := Outline.stages_eq_some.1 hover
  have houtcome := Pool.outcome?_of_returns (horder k hk)
  change (p.stage (s.outline.said k)).outcome? = _ at houtcome
  rw [hstage] at houtcome
  cases inTime with
  | true => exact hover
  | false => cases houtcome

/-- A shutdown that has asked nothing yet has all of its program left. -/
theorem Accounted.body_of_calls (h : s.Accounted p) (hcalls : s.Calls k) :
    ∃ f, s.world.fibers.get? k = some f ∧ f.body = .operation p.shutdown := by
  obtain ⟨called, hfiber⟩ := Option.ne_none_iff_exists'.1 hcalls.there
  obtain ⟨⟨body, _⟩, hstanding, -⟩ := Option.map_eq_some_iff.1 hfiber
  obtain ⟨duty, hduty, hleft⟩ := h.left hstanding
  cases hcalls.duty.symm.trans hduty
  rw [hcalls.said] at hleft
  obtain ⟨f, hf, heq⟩ := Option.map_eq_some_iff.1 hstanding
  cases heq
  refine ⟨f, hf, ?_⟩
  generalize f.body = body at hleft
  cases hleft with
  | shutdown hruns =>
    generalize p.shutdown = program at hruns
    cases hruns
    rfl

/-- A shutdown that finds the pool not running is done. -/
theorem Accounted.step_refused (h : s.Accounted p) (hcalls : s.Calls k)
    (hstatus : s.world.pool.status ≠ .running) : s.step p (.go k) =
      s.answered s.world k ⟨.beginDraining, false⟩ (.operation (.done (.ok ()))) := by
  obtain ⟨⟨body, held, called⟩, hf, rfl⟩ := h.body_of_calls hcalls
  have hperform : s.world.perform Job.work k .beginDraining = (s.world, .answer false) := by
    simp [World.perform, hstatus]
  unfold Service.step go
  simp only [hf]
  show s.ask k .beginDraining _ = _
  unfold ask
  rw [hperform]
  rfl

/-- A shutdown that finds the pool running takes the stopping over. -/
theorem Accounted.outline_begun (h : s.Accounted p) (hcalls : s.Calls k)
    (hstatus : s.world.pool.status = .running) : (s.step p (.go k)).outline =
      (s.outline.after k ⟨.beginDraining, true⟩).heard k ⟨.beginDraining, true⟩ := by
  obtain ⟨⟨body, held, called⟩, hf, rfl⟩ := h.body_of_calls hcalls
  have hperform : ∃ w, s.world.perform Job.work k .beginDraining = (w, .answer true) := by
    simp [World.perform, hstatus]
  obtain ⟨w, hperform⟩ := hperform
  unfold Service.step go
  simp only [hf]
  show (s.ask k .beginDraining _).outline = _
  unfold ask
  rw [hperform]
  exact outline_answered _ hperform

/-- From its look at the status on a shutdown that has found the pool running, or stopped in order,
is underway or the pool has been stopped. -/
theorem Reached.since (h : s.Reached p) (hcalls : s.Calls k)
    (hfound : s.world.pool.status = .running ∨
      s.world.pool.status = .stopped ∧ p.StoppedInOrder s) :
    Outline.Since p s.starts k (s.step p (.go k)).outline := by
  have haccounted := h.accounted
  rcases hfound with hrunning | ⟨hstopped, horder⟩
  · rw [haccounted.outline_begun hcalls hrunning]
    refine ⟨Nat.le_refl _, fun _ => .inl ⟨.alarming, ?_, trivial⟩⟩
    rw [Outline.stages_heard rfl rfl hcalls.duty, Function.update_self]
    exact congrArg (fun said => some (p.stage (said ++ [⟨.beginDraining, true⟩]))) hcalls.said
  · have hnow : Outline.Since p s.starts k s.outline :=
      ⟨Nat.le_refl _, fun _ => .inr ⟨hstopped, .inl (h.inOrder horder)⟩⟩
    exact hnow.turn haccounted.fresh h.controlled ((haccounted.change _).turn haccounted.fresh)

/-- What shutdowns and starts keep, and everything else leaves alone, is kept by all moves. -/
theorem Reached.turns (h : s.Reached p) {P : Outline α → Prop}
    (hturn : ∀ {o o' : Outline α}, o.Fresh → Outline.Controlled p o → o.Turn p o' → P o → P o')
    (hs : P s.outline) (moves : List (Move α)) : P (s.run p moves).outline := by
  have hboth := run_induction (P := fun s : Service α => s.Reached p ∧ P s.outline) ⟨h, hs⟩
    (fun s m hs => ⟨hs.1.run [m], hturn hs.1.accounted.fresh hs.1.controlled
      ((hs.1.accounted.change m).turn hs.1.accounted.fresh) hs.2⟩) moves
  exact hboth.2

end Service

namespace Pool

variable {p : Pool α} {s : Service α} {k : FiberId}

/-- What comes of a shutdown that is about to look at the status. -/
structure Stops (p : Pool α) (s : Service α) (k : FiberId) : Prop where
  /-- If the pool is not running it comes to no error at once, and nothing else changes. -/
  refused : s.world.pool.status ≠ .running → s.step p (.go k) =
    s.answered s.world k ⟨.beginDraining, false⟩ (.operation (.done (.ok ())))
  /-- If the pool is running, or has been stopped by a shutdown that came to no error, then nothing
  of it goes on once this one comes to no error, until another start succeeds. -/
  quiescent : (s.world.pool.status = .running ∨
      s.world.pool.status = .stopped ∧ p.StoppedInOrder s) →
    ∀ moves, ((s.step p (.go k)).run p moves).starts = s.starts →
      Returns p.shutdown (((s.step p (.go k)).run p moves).said k) (.ok ()) →
      p.Quiescent ((s.step p (.go k)).run p moves)
  /-- In whatever way the pool has been stopped, it stays so until another start succeeds, and all
  loops that are still there have been called off. -/
  stopped : s.world.pool.status = .stopped →
    ∀ moves, ((s.step p (.go k)).run p moves).starts = s.starts →
      ((s.step p (.go k)).run p moves).world.pool.status = .stopped ∧
        ∀ {j called}, ((s.step p (.go k)).run p moves).Polls j called → called = true

/-- A shutdown that comes to no error leaves nothing of a pool going on, unless it found another
shutdown underway or the pool given up by one that timed out. -/
theorem stops_of_calls (hcalm : p.Calm) (hs : s.Reached p) (hcalls : s.Calls k) : p.Stops s k where
  refused := hs.accounted.step_refused hcalls
  quiescent := by
    intro hfound moves hstarts hreturns
    have hafter : (s.step p (.go k)).Reached p := hs.run [.go k]
    have hlater := hafter.run moves
    have hsince := hafter.turns (fun hfresh hcontrolled hturn h => h.turn hfresh hcontrolled hturn)
      (hs.since hcalls hfound) moves
    generalize (s.step p (.go k)).run p moves = later at hstarts hreturns hlater hsince
    have houtcome := outcome?_of_returns hreturns
    rcases hsince.course hstarts with ⟨stage, hstage, hunderway⟩ | ⟨hstopped, horder | hover⟩
    · -- a shutdown that is underway has come to no result
      obtain ⟨-, rfl⟩ := Outline.stages_eq_some.1 hstage
      exact absurd hunderway (StopStage.not_underway_of_outcome? houtcome)
    · exact hlater.quiescent hcalm hstopped horder
    · obtain ⟨-, hstage⟩ := Outline.stages_eq_some.1 hover
      change p.stage (later.said k) = _ at hstage
      rw [hstage] at houtcome
      cases houtcome
  stopped := by
    intro hstopped moves hstarts
    have hlater : ((s.step p (.go k)).run p moves).Reached p := (hs.run [.go k]).run moves
    have hrest := hs.turns (fun _ hcontrolled hturn h => h.turn hcontrolled hturn)
      (⟨Nat.le_refl _, fun _ => hstopped⟩ : Outline.AtRest s.starts s.outline) (.go k :: moves)
    have hstatus := hrest.status hstarts
    refine ⟨hstatus, fun hpolls => ?_⟩
    obtain ⟨_, _, hduty, hfiber⟩ := hlater.accounted.polls_iff.1 hpolls
    exact hlater.crewed.resting hstatus hduty hfiber

/-- The hooks of the gated pool do not panic. -/
theorem calm_gated (shards : List ShardId) : (gated shards).Calm := fun _ _ _ _ => rfl

/-- A pool with one loop, and a shutdown that has just been called. -/
def called : Service String :=
  (Service.initial .epoch [] []).run (gated [default]) [.start, .shutdown]

/-- The shutdown takes the loop over, the loop sees the sign to stop, and the shutdown ends. -/
def awaited : List (Service.Move String) :=
  List.replicate 3 (.go 1) ++ List.replicate 3 (.go 0) ++ List.replicate 2 (.go 1)

set_option maxRecDepth 2000 in
/-- What `stops_of_calls` says of a shutdown that finds a pool running. -/
theorem quiescent_after_awaited : (gated [default]).Calm ∧ called.Reached (gated [default]) ∧
    called.Calls 1 ∧ called.Polls 0 false ∧ called.world.pool.status = .running ∧
    Returns (gated [default]).shutdown
      (((called.step (gated [default]) (.go 1)).run (gated [default]) awaited).said 1) (.ok ()) ∧
    (gated [default]).Quiescent
      ((called.step (gated [default]) (.go 1)).run (gated [default]) awaited) := by
  have hreached : called.Reached (gated [default]) := ⟨_, _, _, _, rfl⟩
  have hcalls : called.Calls 1 := ⟨rfl, Option.some_ne_none false, rfl⟩
  have hduty : ((called.run (gated [default]) [.go 1]).run (gated [default]) awaited).duty 1 =
      some .shutdown := rfl
  obtain ⟨left, hruns⟩ := ((hreached.run [.go 1]).run awaited).accounted.ran hduty
  have hreturns : Returns (gated [default]).shutdown
      (((called.step (gated [default]) (.go 1)).run (gated [default]) awaited).said 1) (.ok ()) :=
    (returns_iff hruns).2 rfl
  refine ⟨calm_gated _, hreached, hcalls, ⟨_, _, _, rfl⟩, rfl, hreturns, ?_⟩
  exact (stops_of_calls (calm_gated _) hreached hcalls).quiescent (.inl rfl) awaited rfl hreturns

/-- Another shutdown is called while the first one is underway. -/
def overtaken : Service String :=
  called.run (gated [default]) [.go 1, .shutdown, .go 2]

/-- A time at which a shutdown has waited for long enough. -/
def overdue : World (Job String) (Except PoolError Unit) :=
  { World.initial .epoch [] [] with time := 30000000000 }

/-- The first shutdown has given up waiting for the loop. -/
def abandoned : Service String :=
  called.run (gated [default]) <|
    List.replicate 4 (.go 1) ++ .meanwhile overdue :: List.replicate 3 (.go 1)

/-- Another start and another shutdown, which waits for its own loop only. -/
def restarted : Service String :=
  abandoned.run (gated [default]) <| [.start, .shutdown] ++ List.replicate 4 (.go 3) ++
    List.replicate 3 (.go 2) ++ List.replicate 2 (.go 3)

/-- A pool with an executor whose hook does nothing. -/
def careless : Pool String := handing [(Store.someQueue, ⟨0, .idle⟩)]

/-- The loop has handed a task over; then the pool is stopped while the job is at its gate. -/
def unwatched : Service String :=
  (Service.initial .epoch [] [1]).run careless <|
    [.start, .meanwhile stocked] ++ List.replicate 17 (.go 0) ++
      .shutdown :: List.replicate 4 (.go 2) ++ List.replicate 5 (.go 0) ++ List.replicate 4 (.go 2)

set_option maxRecDepth 2000 in
/-- A shutdown that comes to no error may leave a loop behind: one that another shutdown is waiting
for, or one that an earlier shutdown has called off and not waited for, before another start or
after it.  If the hook of an executor does not wait for the jobs then they may be left behind
too. -/
theorem loop_left_after_shutdown :
    (gated [default]).Calm ∧ called.Reached (gated [default]) ∧ called.Polls 0 false ∧
    (Returns (gated [default]).shutdown (overtaken.said 2) (.ok ()) ∧ overtaken.starts = 1 ∧
      overtaken.world.pool.status = .draining ∧ overtaken.Polls 0 false ∧
      Pool.loopStates overtaken.world = [⟨default, Store.someQueue, .idle⟩]) ∧
    (Returns (gated [default]).shutdown (abandoned.said 1) (.error .shutdownTimeout) ∧
      Returns (gated [default]).shutdown
        ((abandoned.run (gated [default]) [.shutdown, .go 2]).said 2) (.ok ()) ∧
      (abandoned.run (gated [default]) [.shutdown, .go 2]).starts = 1 ∧
      (abandoned.run (gated [default]) [.shutdown, .go 2]).Polls 0 true ∧
      Pool.loopStates (abandoned.run (gated [default]) [.shutdown, .go 2]).world =
        [⟨default, Store.someQueue, .idle⟩]) ∧
    (Returns (gated [default]).shutdown (restarted.said 3) (.ok ()) ∧ restarted.starts = 2 ∧
      restarted.Polls 0 true) ∧
    (careless.Accepted (handingRegistrations [(Store.someQueue, ⟨0, .idle⟩)]) ∧ careless.Calm ∧
      unwatched.Reached careless ∧ Returns careless.shutdown (unwatched.said 2) (.ok ()) ∧
      unwatched.starts = 1 ∧ unwatched.world.pool.status = .stopped ∧
      (unwatched.world.executor 0).active = 1) := by
  have hcalled : called.Reached (gated [default]) := ⟨_, _, _, _, rfl⟩
  have habandoned : abandoned.Reached (gated [default]) := hcalled.run _
  have hrestarted : restarted.Reached (gated [default]) := habandoned.run _
  have hone : abandoned.duty 1 = some .shutdown := rfl
  have hthree : restarted.duty 3 = some .shutdown := rfl
  obtain ⟨_, hfirst⟩ := habandoned.accounted.ran hone
  obtain ⟨_, hlast⟩ := hrestarted.accounted.ran hthree
  have hunwatched : unwatched.Reached careless := ⟨_, _, _, _, rfl⟩
  have htwo : unwatched.duty 2 = some .shutdown := rfl
  obtain ⟨_, honly⟩ := hunwatched.accounted.ran htwo
  refine ⟨calm_gated _, hcalled, ⟨_, _, _, rfl⟩, ⟨.cons .nil, rfl, rfl, ⟨_, _, _, rfl⟩, rfl⟩,
    ⟨?_, .cons .nil, rfl, ⟨_, _, _, rfl⟩, rfl⟩, ⟨?_, rfl, ⟨_, _, _, rfl⟩⟩,
    rfl, fun _ _ _ _ => rfl, hunwatched, ?_, rfl, rfl, rfl⟩
  · exact (returns_iff hfirst).2 rfl
  · exact (returns_iff hlast).2 rfl
  · exact (returns_iff honly).2 rfl

end Pool

end LeaseQueue
