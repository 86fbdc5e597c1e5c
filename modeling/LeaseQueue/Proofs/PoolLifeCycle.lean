import LeaseQueue.Proofs.PoolPlans
import LeaseQueue.Proofs.StopControl

/-!
# The life of a pool

A pool is started and shut down by any number of callers at a time, and still its life is one of
generations: the loops of one start, and of no other, poll without having been called off.

`Outline.Crewed` is the invariant behind this.  While the pool runs, its loops are those that it can
take over at a stop; from the moment at which a shutdown has waited for them, until the next start,
no loop is there that has not been called off.

Main statement: `Pool.life_cycle`.
-/

set_option autoImplicit false

namespace LeaseQueue

variable {α : Type}

open Process

namespace StopStage

/-- The processes that a shutdown has to wait for, given those that nobody has taken over. -/
def crew? (fibers : List FiberId) : StopStage → Option (List FiberId)
  | alarming | timing | doomed | taking _ => some fibers
  | joining _ loops | aborting _ loops => some loops
  | _ => none

/-- A shutdown that has to wait for processes is underway. -/
theorem underway_of_crew? {stage : StopStage} {fibers loops : List FiberId}
    (h : stage.crew? fibers = some loops) : stage.Underway := by
  cases stage <;> first | exact trivial | cases h

/-- A shutdown that has waited for the loops waits for none any more. -/
theorem Late.no_crew {stage : StopStage} (h : stage.Late) {fibers loops : List FiberId}
    (hloops : stage.crew? fibers = some loops) : False := by
  cases stage <;> first | exact h.elim | cases hloops

end StopStage

namespace Outline

variable {p : Pool α} {o o' : Outline α}

/-- All loops that are there have been called off. -/
def Resting (o : Outline α) : Prop :=
  ∀ {k start l called}, o.duty k = some (.loop start l) → o.fiber k = some called → called = true

/-- The loops of the last start that are there are among these, and none has been called off. -/
def Crew (o : Outline α) (fibers : List FiberId) : Prop :=
  ∀ {k l called}, o.duty k = some (.loop o.starts l) → o.fiber k = some called →
    k ∈ fibers ∧ called = false

/-- Where the loops are that have not been called off. -/
structure Crewed (p : Pool α) (o : Outline α) : Prop where
  known : ∀ {k start l}, o.duty k = some (.loop start l) → 1 ≤ start ∧ start ≤ o.starts
  older : ∀ {k start l called}, o.duty k = some (.loop start l) → o.fiber k = some called →
    start < o.starts → called = true
  running : o.pool.status = .running → o.Crew o.pool.fibers
  stopping : ∀ {k stage loops}, o.stages p k = some stage → stage.crew? o.pool.fibers = some loops →
    o.Crew loops
  late : ∀ {k stage}, o.stages p k = some stage → stage.Late → o.Resting
  resting : o.pool.status = .stopped → o.Resting

/-- In a pool that was never started there is nobody to wait for. -/
theorem crewed_initial (p : Pool α) (clock : Instant) (shards : List ShardId)
    (limits : List Nat) : Crewed p (Service.initial clock shards limits : Service α).outline where
  known h := by cases h
  older h := by cases h
  running h := by cases h
  stopping h := by cases h
  late h := by cases h
  resting _ := by
    intro k start l called h
    cases h

/-- A loop that has not been called off is one of the last start. -/
theorem Crewed.eq_starts (h : Crewed p o) {k : FiberId} {start : Nat} {l : PollLoop α}
    (hduty : o.duty k = some (.loop start l)) (hfiber : o.fiber k = some false) :
    start = o.starts := by
  refine Nat.le_antisymm (h.known hduty).2 (Nat.le_of_not_lt fun hlt => ?_)
  cases h.older hduty hfiber hlt

/-- If nobody of the crew is there all loops that are there have been called off. -/
theorem Crewed.resting_of_gone (h : Crewed p o) {loops : List FiberId} (hcrew : o.Crew loops)
    (hgone : ∀ k ∈ loops, o.fiber k = none) : o.Resting := by
  intro k start l called hduty hfiber
  rcases Nat.lt_or_eq_of_le (h.known hduty).2 with hlt | rfl
  · exact h.older hduty hfiber hlt
  · cases (hgone k (hcrew hduty hfiber).1).symm.trans hfiber

/-- If the crew is called off all loops that are there have been called off. -/
theorem Crewed.resting_calledOff (h : Crewed p o) {loops : List FiberId} (hcrew : o.Crew loops) :
    (o.calledOff loops).Resting := by
  intro k start l called hduty hfiber
  change (if k ∈ loops then (o.fiber k).map fun _ => true else o.fiber k) = _ at hfiber
  split at hfiber
  · obtain ⟨-, -, rfl⟩ := Option.map_eq_some_iff.1 hfiber
    rfl
  · next hk =>
    rcases Nat.lt_or_eq_of_le (h.known hduty).2 with hlt | rfl
    · exact h.older hduty hfiber hlt
    · exact absurd (hcrew hduty hfiber).1 hk

namespace Crewed

/-- A steady change leaves it to the same shutdown to wait for the loops. -/
theorem steady (h : Crewed p o) (hsteady : Steady p o o') : Crewed p o' := by
  have hcrew : ∀ {loops}, o.Crew loops → o'.Crew loops := by
    intro loops hcrew k l called hduty hfiber
    rw [hsteady.starts] at hduty
    exact hcrew (hsteady.loop hduty) (hsteady.alive hduty hfiber)
  have hresting : o.Resting → o'.Resting := by
    intro hresting k start l called hduty hfiber
    exact hresting (hsteady.loop hduty) (hsteady.alive hduty hfiber)
  exact {
    known := fun hduty => hsteady.starts.symm ▸ h.known (hsteady.loop hduty)
    older := fun hduty hfiber hlt =>
      h.older (hsteady.loop hduty) (hsteady.alive hduty hfiber) (hsteady.starts ▸ hlt)
    running := by
      intro hrunning
      rw [hsteady.fibers]
      exact hcrew (h.running (hsteady.status.symm.trans hrunning))
    stopping := by
      intro k stage loops hstage hloops
      rw [hsteady.fibers] at hloops
      rcases hsteady.stages hstage with hold | rfl
      · exact hcrew (h.stopping hold hloops)
      · cases hloops
    late := by
      intro k stage hstage hlate
      rcases hsteady.stages hstage with hold | rfl
      · exact hresting (h.late hold hlate)
      · exact hlate.elim
    resting := fun hstopped => hresting (h.resting (hsteady.status.symm.trans hstopped)) }

/-- A start that finds the pool stopped finds no loop that has not been called off. -/
theorem start (h : Crewed p o) (hcontrolled : Controlled p o) (hfresh : o.Fresh)
    (planned : List (PlannedLoop α)) (hstatus : o.pool.status = .stopped) :
    Crewed p (o.started planned) := by
  have hidle : ∀ {k stage}, (o.started planned).stages p k = some stage → ¬ stage.Underway :=
    hcontrolled.not_underway_started hfresh hstatus
  have hold : ∀ {k}, k < o.nextFiber → (o.started planned).fiber k = o.fiber k :=
    fun hk => if_pos hk
  exact {
    known := by
      intro k start l hduty
      rcases duty_started hduty with ⟨hduty, -⟩ | ⟨-, l', -, hloop⟩
      · obtain ⟨hone, hle⟩ := h.known hduty
        exact ⟨hone, Nat.le_succ_of_le hle⟩
      · cases hloop
        exact ⟨Nat.le_add_left .., Nat.le_refl _⟩
    older := by
      intro k start l called hduty hfiber hlt
      rcases duty_started hduty with ⟨hduty, hk⟩ | ⟨-, l', -, hloop⟩
      · exact h.resting hstatus hduty ((hold hk).symm.trans hfiber)
      · cases hloop
        exact absurd hlt (Nat.lt_irrefl _)
    running := by
      intro _ k l called hduty hfiber
      rcases duty_started hduty with ⟨hduty, hk⟩ | ⟨hk, l', hl, -⟩
      · exact absurd (h.known hduty).2 (Nat.not_succ_le_self _)
      · have hnot : ¬ k < o.nextFiber := Nat.not_lt_of_le hk
        have hlt : k - o.nextFiber < planned.length := by
          rw [← Pool.length_loopsFrom o.loops.length planned]
          exact (List.getElem?_eq_some_iff.1 hl).1
        constructor
        · refine List.mem_range'_1.2 ⟨hk, ?_⟩
          exact (Nat.sub_lt_iff_lt_add' hk).1 hlt
        · have hcalled : ((Pool.loopsFrom o.loops.length planned)[k - o.nextFiber]?).map
              (fun _ => false) = some called := (if_neg hnot).symm.trans hfiber
          rw [hl] at hcalled
          exact (Option.some.inj hcalled).symm
    stopping := fun hstage hloops =>
      absurd (StopStage.underway_of_crew? hloops) (hidle hstage)
    late := fun hstage hlate => absurd hlate.underway (hidle hstage)
    resting := nofun }

section Stop

variable {id : FiberId} {stage next : StopStage} {x : Exchange (Job α)}

/-- The only shutdown that is underway goes on. -/
theorem proceed (h : Crewed p o) (hspared : Spared o o')
    (hstages : (o'.heard id x).stages p = Function.update (o.stages p) id (some next))
    (hothers : ∀ {k st}, k ≠ id → o.stages p k = some st → ¬ st.Underway)
    (hstatus : o'.pool.status ≠ .running)
    (holder : ∀ {k start l called}, o'.duty k = some (.loop start l) → o'.fiber k = some called →
      start < o'.starts → called = true)
    (hcrew : ∀ {loops}, next.crew? o'.pool.fibers = some loops → o'.Crew loops)
    (hlate : next.Late → o'.Resting) (hstopped : o'.pool.status = .stopped → o'.Resting) :
    Crewed p (o'.heard id x) where
  known := by
    intro k start l hduty
    change o'.duty k = _ at hduty
    rw [hspared.duty] at hduty
    show 1 ≤ start ∧ start ≤ o'.starts
    rw [hspared.starts]
    exact h.known hduty
  older := holder
  running hrunning := absurd hrunning hstatus
  stopping := by
    intro k st loops hst hloops
    obtain ⟨-, rfl⟩ := underway_only hstages hothers hst (StopStage.underway_of_crew? hloops)
    exact hcrew hloops
  late := by
    intro k st hst hlater
    obtain ⟨-, rfl⟩ := underway_only hstages hothers hst hlater.underway
    exact hlate hlater
  resting := hstopped

/-- A shutdown that finds the pool not running leaves everything as it is. -/
theorem refuse (h : Crewed p o)
    (hstages : (o.heard id ⟨.beginDraining, false⟩).stages p =
      Function.update (o.stages p) id (some .refused)) :
    Crewed p (o.heard id ⟨.beginDraining, false⟩) where
  known := h.known
  older := h.older
  running := h.running
  stopping := by
    intro k st loops hst hloops
    rcases stages_cases hstages hst with ⟨-, rfl⟩ | ⟨-, hold⟩
    · cases hloops
    · exact h.stopping hold hloops
  late := by
    intro k st hst hlater
    rcases stages_cases hstages hst with ⟨-, rfl⟩ | ⟨-, hold⟩
    · exact hlater.elim
    · exact h.late hold hlater
  resting := h.resting

/-- A shutdown that goes on waits for all loops that have not been called off. -/
theorem stop (h : Crewed p o) (hcontrolled : Controlled p o) (hstage : o.stages p id = some stage)
    (hgoes : stage.Goes p x next) (htells : o.Tells x)
    (hstages : ((o.after id x).heard id x).stages p =
      Function.update (o.stages p) id (some next)) :
    Crewed p ((o.after id x).heard id x) := by
  have hspared := spared_of_goes o id hgoes
  -- one that is underway is the only one, and keeps the pool draining
  have hothers : stage.Underway → ∀ {k st}, k ≠ id → o.stages p k = some st → ¬ st.Underway :=
    fun hbefore => hcontrolled.others hstage hbefore
  have hdraining : stage.Underway → o.pool.status ≠ .running := by
    intro hbefore hrunning
    cases hrunning.symm.trans (hcontrolled.draining hstage hbefore)
  have hstopped : stage.Underway → o.pool.status = .stopped → o.Resting := by
    intro hbefore hstopped
    cases hstopped.symm.trans (hcontrolled.draining hstage hbefore)
  cases hgoes with
  | refuse => exact h.refuse hstages
  | begin =>
    have hrunning := running_of_tells htells
    refine h.proceed hspared hstages (fun _ => hcontrolled.not_underway (by rw [hrunning]; decide))
      nofun h.older ?_ nofun nofun
    intro loops hloops
    cases hloops
    exact h.running hrunning
  | alarm | give _ _ | time _ _ | lose _ _ =>
    exact h.proceed hspared hstages (hothers trivial) (hdraining trivial) h.older
      (fun hloops => h.stopping hstage hloops) nofun (hstopped trivial)
  | take deadline loops =>
    refine h.proceed hspared hstages (hothers trivial) (hdraining trivial) h.older ?_ nofun
      (hstopped trivial)
    intro loops' hloops
    cases hloops
    rw [show loops = o.pool.fibers from htells]
    exact h.stopping hstage rfl
  | join deadline loops =>
    have hresting : o.Resting := h.resting_of_gone (h.stopping hstage rfl) (htells rfl)
    exact h.proceed hspared hstages (hothers trivial) (hdraining trivial) h.older
      (fun hloops => ((StopStage.late_atExecutor ..).no_crew hloops).elim)
      (fun _ => hresting) (fun _ => hresting)
  | abort deadline loops =>
    have hresting : (o.calledOff loops).Resting := h.resting_calledOff (h.stopping hstage rfl)
    exact h.proceed hspared hstages (hothers trivial) (hdraining trivial)
      (fun hduty hfiber _ => hresting hduty hfiber)
      (fun hloops => ((StopStage.late_atExecutor ..).no_crew hloops).elim)
      (fun _ => hresting) (fun _ => hresting)
  | enter deadline inTime x rest =>
    exact h.proceed hspared hstages (hothers trivial) (hdraining trivial) h.older
      (fun hloops => ((StopStage.late_hooked ..).no_crew hloops).elim)
      (fun _ => h.late hstage trivial) (hstopped trivial)
  | hook deadline inTime x step steps rest reply =>
    rw [after_hookStep] at hspared hstages ⊢
    exact h.proceed hspared hstages (hothers trivial) (hdraining trivial) h.older
      (fun hloops => ((StopStage.late_hooked ..).no_crew hloops).elim)
      (fun _ => h.late hstage trivial) (hstopped trivial)
  | stop inTime =>
    exact h.proceed hspared hstages (hothers trivial) nofun h.older nofun nofun
      (fun _ => h.late hstage trivial)

end Stop

/-- The loops that have not been called off are of one start, whatever happens. -/
theorem turn (h : Crewed p o) (hcontrolled : Controlled p o) (hfresh : o.Fresh)
    (hturn : o.Turn p o') : Crewed p o' := by
  cases hturn with
  | steady hsteady => exact h.steady hsteady
  | start hstatus hopen => exact h.start hcontrolled hfresh _ hstatus
  | stop x hstage hgoes htells hstages => exact h.stop hcontrolled hstage hgoes htells hstages

end Crewed

/-- A loop that is there was there before, or has come with a start. -/
theorem Turn.loop_there (hturn : o.Turn p o') {k : FiberId} {start : Nat} {l : PollLoop α}
    {called : Bool} (hduty : o'.duty k = some (.loop start l)) (hfiber : o'.fiber k = some called) :
    (o.duty k = some (.loop start l) ∧ ∃ called', o.fiber k = some called') ∨
      o'.starts = o.starts + 1 ∧ o.pool.status = .stopped ∧ o.pool.executorsShutDown = false := by
  cases hturn with
  | steady hsteady => exact .inl ⟨hsteady.loop hduty, called, hsteady.alive hduty hfiber⟩
  | start hstatus hopen => exact .inr ⟨rfl, hstatus, hopen⟩
  | @stop id stage next x hstage hgoes htells hstages =>
    have hspared := spared_of_goes o id hgoes
    have hthere : o.fiber k ≠ none := by
      rw [Ne, ← fiber_after_eq_none hgoes]
      exact hfiber ▸ Option.some_ne_none _
    exact .inl ⟨hspared.duty ▸ hduty, Option.ne_none_iff_exists'.1 hthere⟩

end Outline

/-- At every time the loops that have not been called off are of one start. -/
theorem Service.Reached.crewed {p : Pool α} {s : Service α} (h : s.Reached p) :
    Outline.Crewed p s.outline :=
  h.induction_from (fun hs => hs.controlled) (Outline.crewed_initial p)
    fun _ _ hfresh hcontrolled hold hchange => hold.turn hcontrolled hfresh (hchange.turn hfresh)

/-! ## What holds all the time -/

namespace Service

variable {p : Pool α} {s : Service α}

/-- A loop is there, and whether it has been called off. -/
def Polls (s : Service α) (k : FiberId) (called : Bool) : Prop :=
  ∃ round left held, s.world.fibers.get? k = some ⟨.loop round left, held, called⟩

/-- The executors whose hooks a shutdown has called; other processes call none. -/
def hooksOf (s : Service α) (k : FiberId) : List ExecutorId :=
  match s.duty k with
  | some .shutdown => hookCalls (s.said k)
  | _ => []

/-- All calls of the executors' hooks in the life of the pool. -/
def hooks (s : Service α) : List ExecutorId :=
  (List.range s.world.nextFiber).flatMap s.hooksOf

/-- A process polls just if it is there as a loop. -/
theorem Accounted.polls_iff (h : s.Accounted p) {k : FiberId} {called : Bool} :
    s.Polls k called ↔
      ∃ start l, s.duty k = some (.loop start l) ∧ s.outline.fiber k = some called := by
  constructor
  · rintro ⟨round, left, held, hfiber⟩
    obtain ⟨duty, hduty, hleft⟩ := h.left (standing_of_fiber hfiber)
    cases hleft with
    | loop _ => exact ⟨_, _, hduty, fiber_of_standing (standing_of_fiber hfiber)⟩
  · rintro ⟨start, l, hduty, hfiber⟩
    obtain ⟨⟨body, called'⟩, hstanding, rfl⟩ := Option.map_eq_some_iff.1 hfiber
    obtain ⟨duty, hduty', hleft⟩ := h.left hstanding
    cases hduty.symm.trans hduty'
    cases hleft with
    | @loop _ _ _ left _ =>
      obtain ⟨f, hf, hbody⟩ := Option.map_eq_some_iff.1 hstanding
      obtain ⟨body, held, aborted⟩ := f
      cases hbody
      exact ⟨l.round, left, held, hf⟩

/-- Only a start counts as one. -/
theorem starts_step {m : Move α} (hm : m ≠ .start) : (s.step p m).starts = s.starts := by
  cases m with
  | start => exact absurd rfl hm
  | shutdown => rfl
  | go id =>
    unfold step go
    dsimp only
    split
    · rfl
    · split
      · unfold ask
        split <;> rfl
      · unfold finish
        split <;> rfl
  | drop id =>
    unfold step drop
    dsimp only
    split
    · rfl
    · split <;> rfl
  | meanwhile surroundings => rfl

/-- A loop that is new is one of a start. -/
theorem Reached.spawned (h : s.Reached p) {m : Move α} {k : FiberId} {called : Bool}
    (hpolls : (s.step p m).Polls k called) :
    (∃ called', s.Polls k called') ∨
      m = .start ∧ s.world.pool.status = .stopped ∧ s.world.pool.executorsShutDown = false := by
  have haccounted := h.accounted
  obtain ⟨start, l, hduty, hfiber⟩ := (haccounted.step m).polls_iff.1 hpolls
  have hturn := (haccounted.change m).turn haccounted.fresh
  rcases hturn.loop_there hduty hfiber with ⟨hold, called', hthere⟩ | ⟨hstarts, hstatus, hopen⟩
  · exact .inl ⟨called', haccounted.polls_iff.2 ⟨start, l, hold, hthere⟩⟩
  · refine .inr ⟨?_, hstatus, hopen⟩
    by_contra hm
    have hsame : (s.step p m).outline.starts = s.outline.starts := starts_step hm
    exact absurd (hsame.symm.trans hstarts) (Nat.ne_of_lt (Nat.lt_succ_self _))

/-- A shutdown that has given the sign to stop and not declared the pool stopped is underway. -/
theorem Accounted.raised (h : s.Accounted p) {k : FiberId} (hduty : s.duty k = some .shutdown)
    (hsign : ⟨.signalStop true, ()⟩ ∈ s.said k) (hopen : ⟨.endDraining, ()⟩ ∉ s.said k) :
    ∃ stage, s.outline.stages p k = some stage ∧ stage.Raised := by
  obtain ⟨left, hruns⟩ := h.ran hduty
  refine ⟨p.stage (s.said k), Outline.stages_eq_some.2 ⟨hduty, rfl⟩, ?_⟩
  rcases Pool.raised_or_over hruns hsign nofun with hraised | ⟨inTime, hover⟩
  · exact hraised
  · exact absurd (Pool.ended_of_over hruns hover) hopen

/-- A shutdown has begun to shut executors down just if it has called a hook. -/
theorem marked_iff {k : FiberId} : s.outline.Marked k ↔ s.hooksOf k ≠ [] := by
  unfold hooksOf
  split
  · next hduty => exact and_iff_right hduty
  · next hne => exact iff_of_false (fun h => hne h.1) (absurd rfl)

/-- One shutdown calls the hooks in the order of their queues. -/
theorem Accounted.hooksOf_isPrefix (h : s.Accounted p) (k : FiberId) :
    s.hooksOf k <+: p.registered := by
  unfold hooksOf
  split
  · next hduty =>
    obtain ⟨left, hruns⟩ := h.ran hduty
    exact ⟨_, Pool.hookCalls_append_uncalled hruns⟩
  · exact List.nil_prefix

/-- All hooks are called by one shutdown. -/
theorem Reached.hooks_eq (h : s.Reached p) :
    s.hooks = [] ∨ ∃ k, s.outline.Marked k ∧ s.hooks = s.hooksOf k := by
  have hone : ∀ ids : List FiberId, ids.Nodup → ids.flatMap s.hooksOf = [] ∨
      ∃ k ∈ ids, s.outline.Marked k ∧ ids.flatMap s.hooksOf = s.hooksOf k := by
    intro ids hnodup
    induction ids with
    | nil => exact .inl rfl
    | cons k rest ih =>
      obtain ⟨hk, hrest⟩ := List.nodup_cons.1 hnodup
      rw [List.flatMap_cons]
      by_cases hhooks : s.hooksOf k = []
      · rw [hhooks, List.nil_append]
        rcases ih hrest with hnone | ⟨k', hk', hsame⟩
        · exact .inl hnone
        · exact .inr ⟨k', List.mem_cons_of_mem _ hk', hsame⟩
      · refine .inr ⟨k, List.mem_cons_self, marked_iff.2 hhooks, ?_⟩
        have hothers : rest.flatMap s.hooksOf = [] := by
          refine List.flatMap_eq_nil_iff.2 fun k' hk' => ?_
          by_contra hhooks'
          have hsame := h.controlled.marker (marked_iff.2 hhooks) (marked_iff.2 hhooks')
          exact hk (hsame ▸ hk')
        rw [hothers, List.append_nil]
  rcases hone (List.range s.world.nextFiber) List.nodup_range with hnone | ⟨k, -, hmarked, hsame⟩
  · exact .inl hnone
  · exact .inr ⟨k, hmarked, hsame⟩

/-- A shutdown that has called hooks has called all that have been called. -/
theorem Reached.hooks_of_marked (h : s.Reached p) {k : FiberId} (hk : s.outline.Marked k) :
    s.hooks = s.hooksOf k := by
  rcases h.hooks_eq with hnone | ⟨k', hk', hsame⟩
  · have hthere : k < s.world.nextFiber := h.accounted.fresh.lt_of_duty hk.1
    have hempty := List.flatMap_eq_nil_iff.1 hnone k (List.mem_range.2 hthere)
    exact absurd hempty (marked_iff.1 hk)
  · rw [hsame, h.controlled.marker hk' hk]

/-- The hooks are called in the order of their queues. -/
theorem Reached.hooks_isPrefix (h : s.Reached p) : s.hooks <+: p.registered := by
  rcases h.hooks_eq with hnone | ⟨k, -, hsame⟩
  · rw [hnone]
    exact List.nil_prefix
  · rw [hsame]
    exact h.accounted.hooksOf_isPrefix k

/-- A shutdown that has found the pool running and come to a result has called all hooks. -/
theorem Reached.hooks_of_returns (h : s.Reached p) {k : FiberId} (hduty : s.duty k = some .shutdown)
    (hrunning : ⟨.beginDraining, true⟩ ∈ s.said k) {result : Except PoolError Unit}
    (hreturns : Returns p.shutdown (s.said k) result) : s.hooks = p.registered := by
  have hall : s.hooksOf k = p.registered := by
    unfold hooksOf
    rw [hduty]
    exact Pool.hookCalls_of_returns hreturns hrunning
  by_cases hnone : s.hooksOf k = []
  · have hprefix := h.hooks_isPrefix
    rw [← hall, hnone] at hprefix ⊢
    exact List.prefix_nil.1 hprefix
  · rw [h.hooks_of_marked (marked_iff.2 hnone), hall]

/-- Executors that have been shut down stay so. -/
theorem Accounted.shut_run (h : s.Accounted p) (hshut : s.world.pool.executorsShutDown = true)
    (moves : List (Move α)) : (s.run p moves).world.pool.executorsShutDown = true := by
  have hboth := run_induction
    (P := fun s : Service α => s.Accounted p ∧ s.outline.pool.executorsShutDown = true) ⟨h, hshut⟩
    (fun s m hs => ⟨hs.1.step m, ((hs.1.change m).turn hs.1.fresh).shut hs.2⟩) moves
  exact hboth.2

/-- What holds of a pool at every time of its life. -/
structure Orderly (p : Pool α) (s : Service α) : Prop where
  /-- Loops come from a start of a pool that is stopped and has closed no executor. -/
  spawned : ∀ {m k called}, (s.step p m).Polls k called → (∃ called', s.Polls k called') ∨
    m = .start ∧ s.world.pool.status = .stopped ∧ s.world.pool.executorsShutDown = false ∧
      s.hooks = []
  /-- From the sign to stop on, until the pool is declared stopped, the sign stays and no loop
  comes. -/
  stopping : ∀ {k}, s.duty k = some .shutdown → ⟨.signalStop true, ()⟩ ∈ s.said k →
    ⟨.endDraining, ()⟩ ∉ s.said k → s.world.pool.signal.isStopped = true ∧
      ∀ {m k called}, (s.step p m).Polls k called → ∃ called', s.Polls k called'
  /-- Loops that are there and have not been called off are of one start. -/
  generation : ∀ {k k' start start' l l'}, s.duty k = some (.loop start l) → s.Polls k false →
    s.duty k' = some (.loop start' l') → s.Polls k' false → start = start'
  /-- A start that fails changes nothing but the sign to stop. -/
  failing : ∀ {e}, (p.start s.world).2 = .error e → (p.start s.world).1 =
    { s.world with pool := { s.world.pool with signal := (p.start s.world).1.pool.signal } }
  /-- The hooks of the executors are called in the order of their queues, and for each queue at most
  once; an executor that is registered for several queues may have its hook called as often. -/
  hooks : s.hooks <+: p.registered
  /-- An executor that is registered for one queue has its hook called at most once. -/
  once : ∀ {e}, p.registered.count e = 1 → s.hooks.count e ≤ 1
  /-- A shutdown that has found the pool running and come to a result has called the hook of every
  executor, for each of its queues. -/
  complete : ∀ {k result}, s.duty k = some .shutdown → ⟨.beginDraining, true⟩ ∈ s.said k →
    Returns p.shutdown (s.said k) result → s.hooks = p.registered
  /-- Once a shutdown has begun to shut executors down no start succeeds any more. -/
  closed : s.hooks ≠ [] → ∀ moves, (p.start (s.run p moves).world).2 ≠ .ok ()

end Service

/-- The life of a pool is orderly, however its starts, shutdowns and loops are interleaved. -/
theorem Pool.life_cycle (p : Pool α) (clock : Instant) (shards : List ShardId) (limits : List Nat)
    (moves : List (Service.Move α)) :
    ((Service.initial clock shards limits).run p moves).Orderly p := by
  have hreached : ((Service.initial clock shards limits).run p moves).Reached p :=
    ⟨clock, shards, limits, moves, rfl⟩
  generalize (Service.initial clock shards limits).run p moves = s at hreached
  have haccounted := hreached.accounted
  have hcontrolled := hreached.controlled
  exact {
    spawned := by
      intro m k called hpolls
      rcases hreached.spawned hpolls with hold | ⟨hm, hstatus, hopen⟩
      · exact .inl hold
      · refine .inr ⟨hm, hstatus, hopen, ?_⟩
        rcases hreached.hooks_eq with hnone | ⟨k', hmarked, -⟩
        · exact hnone
        · cases hopen.symm.trans (hcontrolled.shut hmarked)
    stopping := by
      intro k hduty hsign hopen
      obtain ⟨stage, hstage, hraised⟩ := haccounted.raised hduty hsign hopen
      have hsigned : s.world.pool.signal.raised = true := hcontrolled.raised hstage hraised
      refine ⟨by rw [StopSignal.isStopped, hsigned, Bool.true_or], fun hpolls => ?_⟩
      rcases hreached.spawned hpolls with hold | ⟨-, hstatus, -⟩
      · exact hold
      · cases hstatus.symm.trans (hcontrolled.draining hstage hraised.1)
    generation := by
      intro k k' start start' l l' hduty hpolls hduty' hpolls'
      have hlast : ∀ {k start l}, s.duty k = some (.loop start l) → s.Polls k false →
          start = s.starts := by
        intro k start l hduty hpolls
        obtain ⟨_, _, -, hfiber⟩ := haccounted.polls_iff.1 hpolls
        exact hreached.crewed.eq_starts hduty hfiber
      exact (hlast hduty hpolls).trans (hlast hduty' hpolls').symm
    failing := by
      intro e herror
      have hspec := p.start_spec s.world
      generalize p.start s.world = result at hspec herror
      cases hspec with
      | succeed hstatus hopen hplan => cases herror
      | _ => rfl
    hooks := hreached.hooks_isPrefix
    once := fun hone => hone ▸ hreached.hooks_isPrefix.sublist.count_le _
    complete := fun hduty hrunning hreturns => hreached.hooks_of_returns hduty hrunning hreturns
    closed := by
      intro hhooks moves hstarted
      obtain ⟨k, hmarked, -⟩ := hreached.hooks_eq.resolve_left hhooks
      have hshut := haccounted.shut_run (hcontrolled.shut hmarked) moves
      have hspec := p.start_spec (s.run p moves).world
      generalize p.start (s.run p moves).world = result at hspec hstarted
      cases hspec with
      | succeed hstatus hopen hplan => cases hshut.symm.trans hopen
      | _ => cases hstarted }

namespace Pool

/-- Another queue in the same table. -/
def nextQueue : Location := { Store.someQueue with queue := "next", queue_ok := by decide }

/-- Two queues with one executor between them. -/
def sharing : List (Location × External) :=
  [(Store.someQueue, ⟨0, .closing⟩), (nextQueue, ⟨0, .closing⟩)]

/-- The pool has been started and stopped, and the shutdown has waited for both loops. -/
def shared : Service String :=
  (Service.initial .epoch [] [1]).run (handing sharing) <|
    [.start, .shutdown] ++ List.replicate 4 (.go 2) ++ List.replicate 3 (.go 0) ++
      List.replicate 3 (.go 1) ++ List.replicate 9 (.go 2)

set_option maxRecDepth 2000 in
/-- The registry accepts an executor for two queues, and then one shutdown calls its hook twice. -/
theorem hook_called_twice : (handing sharing).Accepted (handingRegistrations sharing) ∧
    (handing sharing).registered = [0, 0] ∧ shared.Reached (handing sharing) ∧
    Returns (handing sharing).shutdown (shared.said 2) (.ok ()) ∧ shared.hooks = [0, 0] ∧
    ¬ ∀ e, shared.hooks.count e ≤ 1 := by
  have hreached : shared.Reached (handing sharing) := ⟨_, _, _, _, rfl⟩
  have hduty : shared.duty 2 = some .shutdown := rfl
  obtain ⟨left, hruns⟩ := hreached.accounted.ran hduty
  have hhooks : shared.hooks = [0, 0] := rfl
  refine ⟨rfl, rfl, hreached, (returns_iff hruns).2 rfl, hhooks, fun honce => ?_⟩
  have htwice := honce 0
  rw [hhooks] at htwice
  exact absurd htwice (by decide)

end Pool

end LeaseQueue
