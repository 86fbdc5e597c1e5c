import LeaseQueue.Proofs.EndedLoops

/-!
# How far a pool has come on its way to a stop

At each stage of a shutdown it is known how far the loops and the jobs of the pool have come
(`Outline.Settled`): as long as nobody has been called off, the loops of the last start are there or
have ended by themselves; once a shutdown has found them all gone in time they have ended; an
executor whose hook has waited for its jobs has nothing left to do, since the loops that could hand
work over to it are gone.

Main statement: `Service.Reached.settled`.
-/

set_option autoImplicit false

namespace LeaseQueue

variable {α : Type}

open Process

namespace StopStage

/-- The loops have been told to stop, and nobody has been called off. -/
def Early : StopStage → Prop
  | alarming | timing | doomed | taking _ | joining .. | aborting .. => True
  | _ => False

/-- The loops have ended in time, and so has all that the hooks have waited for. -/
def InTime : StopStage → Prop
  | entering _ true .. | hooking _ true .. | ending true => True
  | _ => False

/-- The hook of this executor has still to wait for its jobs, if it ever does. -/
def Owes (y : External) : StopStage → Prop
  | entering _ _ x rest => y ∈ x :: rest
  | hooking _ _ x step steps rest => y = x ∧ .awaitJobs ∈ step :: steps ∨ y ∈ rest
  | _ => False

/-- A call that still waits for the loops is under way. -/
theorem Early.underway {stage : StopStage} (h : stage.Early) : stage.Underway := by
  cases stage <;> first | exact trivial | exact h.elim

/-- A call that found every loop gone in time is under way. -/
theorem InTime.underway {stage : StopStage} (h : stage.InTime) : stage.Underway := by
  cases stage <;> first | exact trivial | exact h.elim

/-- A call that is past the deadline no longer waits for the loops. -/
theorem Late.not_early {stage : StopStage} (h : stage.Late) : ¬ stage.Early := by
  cases stage <;> first | exact id | exact h.elim

/-- A call that turns to the executors in time has found the loops gone in time. -/
theorem inTime_atExecutor {deadline : Tick} {inTime : Bool} {xs : List External}
    (h : (atExecutor deadline inTime xs).InTime) : inTime = true := by
  cases inTime with
  | true => rfl
  | false => cases xs <;> exact h.elim

/-- A call that turns to the executors has still to call the hook of each of them. -/
theorem owes_atExecutor (deadline : Tick) (inTime : Bool) {xs : List External} {y : External}
    (hy : y ∈ xs) : (atExecutor deadline inTime xs).Owes y := by
  cases xs with
  | nil => cases hy
  | cons x rest => exact hy

/-- A hook that goes on in time has what is left of it to wait for, and those that come after it
have everything. -/
theorem owes_hooked {deadline : Tick} {inTime : Bool} {x y : External} {rest : List External}
    {steps : List HookStep} {came : Bool}
    (hinTime : (hooked deadline inTime x rest steps came).InTime) :
    (inTime = true ∧ came = true) ∧ ((y = x ∧ .awaitJobs ∈ steps ∨ y ∈ rest) →
      (hooked deadline inTime x rest steps came).Owes y) := by
  revert hinTime
  refine hooked_cases (P := fun stage => stage.InTime → (inTime = true ∧ came = true) ∧
    ((y = x ∧ .awaitJobs ∈ steps ∨ y ∈ rest) → stage.Owes y)) ?_ ?_ ?_
  · intro inTime' hover hnext
    obtain ⟨hbefore, hcame, rfl⟩ := hover (inTime_atExecutor hnext)
    refine ⟨⟨hbefore, hcame⟩, ?_⟩
    rintro (⟨-, hleft⟩ | hy)
    · cases hleft
    · exact owes_atExecutor _ _ hy
  · exact fun _ _ hbroken => hbroken.elim
  · rintro step more hcame rfl hmore
    cases inTime with
    | true => exact ⟨⟨rfl, hcame⟩, fun howes => howes⟩
    | false => exact hmore.elim

end StopStage

namespace Outline

variable {p : Pool α} {o o' : Outline α}

/-- The loops of the last start are there and have not been called off, or have ended by
themselves. -/
def Tidy (o : Outline α) : Prop :=
  ∀ {k l}, o.duty k = some (.loop o.starts l) →
    o.fiber k = some false ∨ o.fiber k = none ∧ o.stateOf l.id = some .stopped

/-- The loops of the last start have ended by themselves. -/
def Ended (o : Outline α) : Prop :=
  ∀ {k l}, o.duty k = some (.loop o.starts l) →
    o.fiber k = none ∧ o.stateOf l.id = some .stopped

/-- The pool has not been declared stopped, or the last time by a shutdown for which everything had
ended in time. -/
def InOrder (p : Pool α) (o : Outline α) : Prop :=
  ∀ k, o.stopper = some k → o.stages p k = some (.finished true)

/-- What is known of every service that can be reached. -/
structure Known (p : Pool α) (o : Outline α) : Prop where
  controlled : Controlled p o
  crewed : Crewed p o
  placed : Placed p o
  recorded : Recorded o
  ran : ∀ {k}, o.duty k = some .shutdown → ∃ left, Runs p.shutdown (o.said k) left

/-- How far the loops and the jobs of a pool have come at each stage of its life. -/
structure Settled (p : Pool α) (o : Outline α) : Prop where
  running : o.pool.status = .running → o.Tidy
  early : ∀ {k stage}, o.stages p k = some stage → stage.Early → o.Tidy
  late : ∀ {k stage}, o.stages p k = some stage → stage.InTime → o.Ended ∧
    ∀ x ∈ p.wiring.executors.values, x.hook.Awaits → stage.Owes x ∨ o.Idle x.executor
  finished : o.pool.status = .stopped → o.InOrder p → o.Ended ∧
    ∀ x ∈ p.wiring.executors.values, x.hook.Awaits → o.Idle x.executor
  /-- A pool with executors is started once. -/
  single : p.wiring.executors.values ≠ [] → o.starts ≤ 1 ∧
    (o.starts = 1 → o.pool.status = .stopped → o.pool.executorsShutDown = true)

/-- A pool that was never started is settled. -/
theorem settled_initial (p : Pool α) (clock : Instant) (shards : List ShardId)
    (limits : List Nat) : Settled p (Service.initial clock shards limits : Service α).outline where
  running h := by cases h
  early h := by cases h
  late h := by cases h
  finished _ _ := by
    refine ⟨fun hduty => (by cases hduty), fun x _ _ => ⟨?_, fun k hk => ?_⟩⟩
    · show (((limits.map Executor.make)[x.executor]?).map Executor.active).getD 0 = 0
      rw [List.getElem?_map]
      cases limits[x.executor]? <;> rfl
    · obtain ⟨⟨job, hjob⟩, -⟩ := hk
      cases hjob
  single _ := ⟨Nat.zero_le 1, fun h => by cases h⟩

/-- Loops that have ended stay so until the next start. -/
theorem Change.ended (hfresh : o.Fresh) (hplaced : Placed p o) (hchange : o.Change p o')
    (hstarts : o'.starts = o.starts)
    (hloop : ∀ {k start l}, o'.duty k = some (.loop start l) → o.duty k = some (.loop start l))
    (h : o.Ended) : o'.Ended := by
  intro k l hduty
  have hold := hloop (hstarts ▸ hduty)
  obtain ⟨hgone, hstate⟩ := h hold
  exact ⟨hchange.fiber_of_gone hfresh hold hgone,
    (hchange.stateOf_of_gone hplaced hold hgone).trans hstate⟩

/-- Loops may end, but as long as none is called off they end by themselves. -/
theorem Change.tidy (hcalm : p.Calm) (hfresh : o.Fresh) (hplaced : Placed p o)
    (hrecorded : Recorded o) (hchange : o.Change p o') (hsteady : Steady p o o') (h : o.Tidy) :
    o'.Tidy := by
  intro k l hduty
  have hduty' : o'.duty k = some (.loop o.starts l) := hsteady.starts ▸ hduty
  have hold := hsteady.loop hduty'
  rcases h hold with hthere | ⟨hgone, hstate⟩
  · cases hfiber : o'.fiber k with
    | none =>
      exact .inr
        ⟨rfl, hchange.stopped_of_gone hcalm hfresh hplaced hrecorded hold hthere hfiber⟩
    | some called => exact .inl (by rw [← hsteady.alive hduty' hfiber, hthere])
  · exact .inr ⟨hchange.fiber_of_gone hfresh hold hgone,
      (hchange.stateOf_of_gone hplaced hold hgone).trans hstate⟩

namespace Settled

/-- Where executors are, no loop is left once those of the last start have ended. -/
theorem gone (h : Settled p o) (hcrewed : Crewed p o) (hended : o.Ended) {x : External}
    (hx : x ∈ p.wiring.executors.values) {k : FiberId} {start : Nat} {l : PollLoop α}
    {called : Bool} (hduty : o.duty k = some (.loop start l)) (hfiber : o.fiber k = some called) :
    False := by
  have hsingle := (h.single (List.ne_nil_of_mem hx)).1
  obtain ⟨hone, hle⟩ := hcrewed.known hduty
  have hlast : start = o.starts := Nat.le_antisymm hle (Nat.le_trans hsingle hone)
  subst hlast
  cases (hended hduty).1.symm.trans hfiber

/-- An executor that has nothing left to do keeps nothing to do: no loop is there to hand it more.
-/
theorem idle (h : Settled p o) (hcrewed : Crewed p o) (hfresh : o.Fresh) (hchange : o.Change p o')
    (hended : o.Ended) {x : External} (hx : x ∈ p.wiring.executors.values)
    (hidle : o.Idle x.executor) : o'.Idle x.executor :=
  hchange.idle hfresh hidle fun hduty hfiber _ => h.gone hcrewed hended hx hduty hfiber

/-- A change that only concerns loops and jobs, or calls one more shutdown, leaves the pool
settled. -/
theorem steady (h : Settled p o) (hcalm : p.Calm) (hfresh : o.Fresh) (hknown : Known p o)
    (hchange : o.Change p o') (hsteady : Steady p o o') : Settled p o' := by
  have htidy : o.Tidy → o'.Tidy :=
    fun htidy => hchange.tidy hcalm hfresh hknown.placed hknown.recorded hsteady htidy
  have hended : o.Ended → o'.Ended := fun hended =>
    hchange.ended hfresh hknown.placed hsteady.starts hsteady.loop hended
  exact {
    running := fun hrunning => htidy (h.running (hsteady.status.symm.trans hrunning))
    early := by
      intro k stage hstage hearly
      rcases hsteady.stages hstage with hold | rfl
      · exact htidy (h.early hold hearly)
      · exact hearly.elim
    late := by
      intro k stage hstage hinTime
      rcases hsteady.stages hstage with hold | rfl
      · obtain ⟨hdone, hexecutors⟩ := h.late hold hinTime
        exact ⟨hended hdone, fun x hx hawaits => (hexecutors x hx hawaits).imp_right fun hidle =>
          h.idle hknown.crewed hfresh hchange hdone hx hidle⟩
      · exact hinTime.elim
    finished := by
      intro hstopped horder
      have hbefore : o.InOrder p := by
        intro k hk
        rcases hsteady.stages (horder k (hsteady.stopper.trans hk)) with hold | hcalling
        · exact hold
        · cases hcalling
      obtain ⟨hdone, hexecutors⟩ := h.finished (hsteady.status.symm.trans hstopped) hbefore
      exact ⟨hended hdone, fun x hx hawaits => h.idle hknown.crewed hfresh hchange hdone hx
        (hexecutors x hx hawaits)⟩
    single := by
      rw [hsteady.starts, hsteady.status, hsteady.shut]
      exact h.single }

/-- A start of a stopped pool leaves it settled, for no call is under way. -/
theorem start (h : Settled p o) (hfresh : o.Fresh) (hknown : Known p o)
    (planned : List (PlannedLoop α)) (hstatus : o.pool.status = .stopped)
    (hopen : o.pool.executorsShutDown = false) : Settled p (o.started planned) := by
  have hidle : ∀ {k stage}, (o.started planned).stages p k = some stage → ¬ stage.Underway :=
    hknown.controlled.not_underway_started hfresh hstatus
  exact {
    running := by
      intro _ k l hduty
      rcases duty_started hduty with ⟨hduty, -⟩ | ⟨hk, l', hl, -⟩
      · exact absurd (hknown.crewed.known hduty).2 (Nat.not_succ_le_self _)
      · refine .inl ((if_neg (Nat.not_lt_of_le hk)).trans ?_)
        rw [hl]
        rfl
    early := fun hstage hearly => absurd hearly.underway (hidle hstage)
    late := fun hstage hinTime => absurd hinTime.underway (hidle hstage)
    finished := nofun
    single := by
      intro hexecutors
      refine ⟨?_, nofun⟩
      obtain ⟨hle, hshut⟩ := h.single hexecutors
      rcases Nat.lt_or_eq_of_le hle with hlt | hone
      · exact hlt
      · cases hopen.symm.trans (hshut hone hstatus) }

section Stop

variable {id : FiberId} {stage next : StopStage} {x : Exchange (Job α)}

/-- The only shutdown that is underway goes on. -/
theorem proceed (h : Settled p o) (hknown : Known p o) (hspared : Spared o o')
    (hstage : o.stages p id = some stage)
    (hstages : (o'.heard id x).stages p = Function.update (o.stages p) id (some next))
    (hunderway : stage.Underway) (hstatus : o'.pool.status = o.pool.status)
    (hearly : next.Early → o'.Tidy)
    (hlate : next.InTime → o'.Ended ∧
      ∀ x ∈ p.wiring.executors.values, x.hook.Awaits → next.Owes x ∨ o'.Idle x.executor) :
    Settled p (o'.heard id x) := by
  have hdraining := hstatus.trans (hknown.controlled.draining hstage hunderway)
  have hself : ∀ {k st}, (o'.heard id x).stages p k = some st → st.Underway →
      k = id ∧ st = next := underway_only hstages (hknown.controlled.others hstage hunderway)
  exact {
    running := fun hrunning => by cases hdraining.symm.trans hrunning
    early := by
      intro k st hst hst'
      obtain ⟨-, rfl⟩ := hself hst hst'.underway
      exact hearly hst'
    late := by
      intro k st hst hst'
      obtain ⟨-, rfl⟩ := hself hst hst'.underway
      exact hlate hst'
    finished := fun hstopped => by cases hdraining.symm.trans hstopped
    single := by
      intro hexecutors
      show o'.starts ≤ 1 ∧ _
      rw [hspared.starts]
      exact ⟨(h.single hexecutors).1, fun _ hstopped => by cases hdraining.symm.trans hstopped⟩ }

/-- Once all hooks have been called executors are shut down. -/
theorem shut_of_ending (hknown : Known p o) (hexecutors : p.wiring.executors.values ≠ [])
    {inTime : Bool} (hstage : o.stages p id = some (.ending inTime)) :
    o.pool.executorsShutDown = true := by
  obtain ⟨hduty, hending⟩ := stages_eq_some.1 hstage
  obtain ⟨left, hruns⟩ := hknown.ran hduty
  have hall := Pool.hookCalls_append_uncalled hruns
  rw [hending] at hall
  have hcalled : hookCalls (o.said id) = p.registered := (List.append_nil _).symm.trans hall
  refine hknown.controlled.shut ⟨hduty, hcalled ▸ ?_⟩
  exact fun hnone => hexecutors (List.map_eq_nil_iff.1 hnone)

/-- A shutdown that finds the pool not running leaves everything as it is. -/
theorem refuse (h : Settled p o)
    (hstages : (o.heard id ⟨.beginDraining, false⟩).stages p =
      Function.update (o.stages p) id (some .refused)) :
    Settled p (o.heard id ⟨.beginDraining, false⟩) where
  running := h.running
  early := by
    intro k st hst hst'
    rcases stages_cases hstages hst with ⟨-, rfl⟩ | ⟨-, hold⟩
    · exact hst'.elim
    · exact h.early hold hst'
  late := by
    intro k st hst hst'
    rcases stages_cases hstages hst with ⟨-, rfl⟩ | ⟨-, hold⟩
    · exact hst'.elim
    · exact h.late hold hst'
  finished := by
    intro hstopped horder
    refine h.finished hstopped fun k hk => ?_
    rcases stages_cases hstages (horder k hk) with ⟨-, hrefused⟩ | ⟨-, hold⟩
    · cases hrefused
    · exact hold
  single := h.single

/-- A shutdown that finds the pool running finds its loops tidy. -/
theorem takeOver (h : Settled p o) (hknown : Known p o) (hrunning : o.pool.status = .running)
    (hstages : ((o.begun true).heard id ⟨.beginDraining, true⟩).stages p =
      Function.update (o.stages p) id (some .alarming)) :
    Settled p ((o.begun true).heard id ⟨.beginDraining, true⟩) where
  running := nofun
  early _ _ := h.running hrunning
  late := by
    intro k st hst hst'
    obtain ⟨-, rfl⟩ := underway_only hstages
      (fun _ => hknown.controlled.not_underway (by rw [hrunning]; decide)) hst hst'.underway
    exact hst'.elim
  finished := nofun
  single hexecutors := ⟨(h.single hexecutors).1, nofun⟩

/-- When a shutdown declares the pool stopped it has waited for every executor. -/
theorem declareStopped (h : Settled p o) (hknown : Known p o) {inTime : Bool}
    (hstage : o.stages p id = some (.ending inTime))
    (hstages : ((o.after id ⟨.endDraining, ()⟩).heard id ⟨.endDraining, ()⟩).stages p =
      Function.update (o.stages p) id (some (.finished inTime))) :
    Settled p ((o.after id ⟨.endDraining, ()⟩).heard id ⟨.endDraining, ()⟩) := by
  have hidle : ∀ {k st}, ((o.after id ⟨.endDraining, ()⟩).heard id
      ⟨.endDraining, ()⟩).stages p k = some st → ¬ st.Underway := by
    intro k st hst hunderway
    obtain ⟨-, rfl⟩ :=
      underway_only hstages (hknown.controlled.others hstage trivial) hst hunderway
    exact hunderway
  exact {
    running := nofun
    early := fun hst hst' => absurd hst'.underway (hidle hst)
    late := fun hst hst' => absurd hst'.underway (hidle hst)
    finished := by
      intro _ horder
      have hover := horder id rfl
      rw [hstages, Function.update_self] at hover
      cases hover
      obtain ⟨hended, hexecutors⟩ := h.late hstage trivial
      exact ⟨hended, fun x hx hawaits => (hexecutors x hx hawaits).resolve_left fun howes => howes⟩
    single := by
      intro hexecutors
      have hshut := shut_of_ending hknown hexecutors hstage
      exact ⟨(h.single hexecutors).1, fun _ _ => hshut⟩ }

/-- A request of a call that stops the pool leaves the pool settled, stage by stage. -/
theorem stop (h : Settled p o) (hknown : Known p o) (hstage : o.stages p id = some stage)
    (hgoes : stage.Goes p x next) (htells : o.Tells x)
    (hstages : ((o.after id x).heard id x).stages p =
      Function.update (o.stages p) id (some next)) :
    Settled p ((o.after id x).heard id x) := by
  have hspared := spared_of_goes o id hgoes
  cases hgoes with
  | refuse => exact h.refuse hstages
  | begin => exact h.takeOver hknown (running_of_tells htells) hstages
  | stop inTime => exact h.declareStopped hknown hstage hstages
  | alarm | give _ _ | time _ _ | take _ _ | lose _ _ =>
    exact h.proceed hknown hspared hstage hstages trivial rfl
      (fun _ => h.early hstage trivial) nofun
  | join deadline loops =>
    have hcrew : o.Crew loops := hknown.crewed.stopping hstage rfl
    refine h.proceed hknown hspared hstage hstages trivial rfl
      (fun hearly => ((StopStage.late_atExecutor ..).not_early hearly).elim)
      fun _ => ⟨?_, fun x hx _ => .inl (StopStage.owes_atExecutor _ _ hx)⟩
    intro k l hduty
    rcases h.early hstage trivial hduty with hthere | hgone
    · have hjoined := htells rfl k (hcrew hduty hthere).1
      cases hjoined.symm.trans hthere
    · exact hgone
  | abort deadline loops =>
    refine h.proceed hknown hspared hstage hstages trivial rfl
      (fun hearly => ((StopStage.late_atExecutor ..).not_early hearly).elim) fun hinTime => ?_
    cases StopStage.inTime_atExecutor hinTime
  | enter deadline inTime x rest =>
    refine h.proceed hknown hspared hstage hstages trivial rfl
      (fun hearly => ((StopStage.late_hooked ..).not_early hearly).elim) fun hinTime => ?_
    obtain ⟨rfl, -⟩ := (StopStage.owes_hooked (y := x) hinTime).1
    obtain ⟨hended, hexecutors⟩ := h.late hstage trivial
    refine ⟨hended, fun y hy hawaits => (hexecutors y hy hawaits).imp_left fun howes => ?_⟩
    refine (StopStage.owes_hooked hinTime).2 ?_
    rcases List.mem_cons.1 howes with rfl | hrest
    · exact .inl ⟨rfl, hawaits⟩
    · exact .inr hrest
  | hook deadline inTime x step steps rest reply =>
    rw [after_hookStep] at hspared hstages ⊢
    refine h.proceed hknown hspared hstage hstages trivial rfl
      (fun hearly => ((StopStage.late_hooked ..).not_early hearly).elim) fun hinTime => ?_
    obtain ⟨rfl, hcame⟩ := (StopStage.owes_hooked (y := x) hinTime).1
    obtain ⟨hended, hexecutors⟩ := h.late hstage trivial
    refine ⟨hended, fun y hy hawaits => ?_⟩
    rcases hexecutors y hy hawaits with (⟨rfl, hleft⟩ | hrest) | hidle
    · rcases List.mem_cons.1 hleft with rfl | hlater
      · -- the jobs of this executor have just been waited for
        exact .inr (hknown.recorded.idle (htells hcame))
      · exact .inl ((StopStage.owes_hooked hinTime).2 (.inl ⟨rfl, hlater⟩))
    · exact .inl ((StopStage.owes_hooked hinTime).2 (.inr hrest))
    · exact .inr hidle

end Stop

/-- Every change leaves the pool settled. -/
theorem change (h : Settled p o) (hcalm : p.Calm) (hfresh : o.Fresh) (hknown : Known p o)
    (hchange : o.Change p o') : Settled p o' := by
  cases hchange.turn hfresh with
  | steady hsteady => exact h.steady hcalm hfresh hknown hchange hsteady
  | start hstatus hopen => exact h.start hfresh hknown _ hstatus hopen
  | stop x hstage hgoes htells hstages => exact h.stop hknown hstage hgoes htells hstages

end Settled

end Outline

/-- What is known of every service that can be reached. -/
theorem Service.Reached.known {p : Pool α} {s : Service α} (h : s.Reached p) :
    Outline.Known p s.outline where
  controlled := h.controlled
  crewed := h.crewed
  placed := h.placed
  recorded := h.recorded
  ran := h.accounted.ran

/-- If no observer of loops panics, loops and jobs have come as far as the shutdowns say. -/
theorem Service.Reached.settled {p : Pool α} (hcalm : p.Calm) {s : Service α} (h : s.Reached p) :
    Outline.Settled p s.outline :=
  h.induction_from (fun hs => hs.known) (Outline.settled_initial p)
    fun _ _ hfresh hknown hold hchange => hold.change hcalm hfresh hknown hchange

end LeaseQueue
