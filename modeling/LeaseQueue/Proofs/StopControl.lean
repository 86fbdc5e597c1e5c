import LeaseQueue.Proofs.ServiceAccounts

/-!
# Who stops a pool

Any number of shutdowns may be called, and starts in between, and still at most one shutdown is
underway at a time.  `Outline.Controlled` says how they keep out of each other's way: the pool is
draining as long as one of them is underway, the sign to stop that it has given stays until it has
declared the pool stopped, and only one of them ever shuts executors down, since no start succeeds
after that.

What a change does to all this is little (`Outline.Turn`): a start, the next stage of one shutdown,
or nothing.

Main statement: every service that can be reached is controlled.
-/

set_option autoImplicit false

namespace LeaseQueue

variable {α : Type}

open Process

namespace Outline

variable {p : Pool α} {o o' : Outline α}

/-- How far the shutdowns have come. -/
def stages (p : Pool α) (o : Outline α) (k : FiberId) : Option StopStage :=
  match o.duty k with
  | some .shutdown => some (p.stage (o.said k))
  | _ => none

/-- A shutdown has begun to shut executors down. -/
def Marked (o : Outline α) (k : FiberId) : Prop :=
  o.duty k = some .shutdown ∧ hookCalls (o.said k) ≠ []

/-- The stage of a process is that of what it has said, if it is a shutdown. -/
theorem stages_eq_some {k : FiberId} {stage : StopStage} :
    o.stages p k = some stage ↔ o.duty k = some .shutdown ∧ p.stage (o.said k) = stage := by
  unfold stages
  split
  · next hduty => simp [hduty]
  · next hne =>
    constructor
    · exact fun h => by cases h
    · exact fun h => absurd h.1 hne

/-- A change that only concerns loops and jobs, or calls one more shutdown; nothing becomes of a
pool by it. -/
structure Steady (p : Pool α) (o o' : Outline α) : Prop where
  status : o'.pool.status = o.pool.status
  shut : o'.pool.executorsShutDown = o.pool.executorsShutDown
  fibers : o'.pool.fibers = o.pool.fibers
  owned : o'.pool.signal.owned = o.pool.signal.owned
  /-- Only a start of a stopped pool takes the sign to stop back. -/
  raised : o.pool.status ≠ .stopped → o'.pool.signal.raised = o.pool.signal.raised
  starts : o'.starts = o.starts
  stopper : o'.stopper = o.stopper
  stages : ∀ {k stage}, o'.stages p k = some stage → o.stages p k = some stage ∨ stage = .calling
  stages_kept : ∀ {k stage}, o.stages p k = some stage → o'.stages p k = some stage
  marked : ∀ {k}, o'.Marked k → o.Marked k
  loop : ∀ {k start l}, o'.duty k = some (.loop start l) → o.duty k = some (.loop start l)
  alive : ∀ {k start l called}, o'.duty k = some (.loop start l) → o'.fiber k = some called →
    o.fiber k = some called

/-- The account of shutdowns stays, and no loop is new. -/
theorem steady_of_same (hpool : o'.pool = o.pool) (hstarts : o'.starts = o.starts)
    (hstopper : o'.stopper = o.stopper)
    (hduty : ∀ {k d}, o'.duty k = some d → o.duty k = some d ∨
      o'.said k = [] ∧ ∀ start l, d ≠ .loop start l)
    (hkept : ∀ {k}, o.duty k = some .shutdown →
      o'.duty k = some .shutdown ∧ o'.said k = o.said k)
    (hfiber : ∀ {k start l called}, o.duty k = some (.loop start l) → o'.fiber k = some called →
      o.fiber k = some called) : Steady p o o' where
  status := by rw [hpool]
  shut := by rw [hpool]
  fibers := by rw [hpool]
  owned := by rw [hpool]
  raised _ := by rw [hpool]
  starts := hstarts
  stopper := hstopper
  stages {k stage} h := by
    obtain ⟨hshutdown, rfl⟩ := stages_eq_some.1 h
    rcases hduty hshutdown with hold | ⟨hsaid, -⟩
    · rw [(hkept hold).2]
      exact .inl (stages_eq_some.2 ⟨hold, rfl⟩)
    · rw [hsaid]
      exact .inr rfl
  stages_kept {k stage} h := by
    obtain ⟨hshutdown, rfl⟩ := stages_eq_some.1 h
    obtain ⟨hduty, hsaid⟩ := hkept hshutdown
    exact stages_eq_some.2 ⟨hduty, by rw [hsaid]⟩
  marked {k} h := by
    obtain ⟨hshutdown, hmark⟩ := h
    rcases hduty hshutdown with hold | ⟨hsaid, -⟩
    · exact ⟨hold, (hkept hold).2 ▸ hmark⟩
    · rw [hsaid] at hmark
      exact absurd rfl hmark
  loop {k start l} h := by
    rcases hduty h with hold | ⟨-, hne⟩
    · exact hold
    · exact absurd rfl (hne start l)
  alive {k start l called} h hcalled := by
    rcases hduty h with hold | ⟨-, hne⟩
    · exact hfiber hold hcalled
    · exact absurd rfl (hne start l)

/-- What a change does to the life of a pool. -/
inductive Turn (p : Pool α) (o : Outline α) : Outline α → Prop
  | steady {o' : Outline α} (h : Steady p o o') : Turn p o o'
  | start {planned : List (PlannedLoop α)} (hstatus : o.pool.status = .stopped)
    (hopen : o.pool.executorsShutDown = false) : Turn p o (o.started planned)
  | stop {id : FiberId} {stage next : StopStage} (x : Exchange (Job α))
    (hstage : o.stages p id = some stage) (hgoes : stage.Goes p x next) (htells : o.Tells x)
    (hstages : ((o.after id x).heard id x).stages p =
      Function.update (o.stages p) id (some next)) : Turn p o ((o.after id x).heard id x)

/-- What any other process says is no matter to the shutdowns. -/
theorem steady_heard {id : FiberId} {x : Exchange (Job α)} (hne : o.duty id ≠ some .shutdown) :
    Steady p o (o.heard id x) := by
  refine steady_of_same rfl rfl rfl (fun h => .inl h) (fun {k} h => ⟨h, ?_⟩) fun _ h => h
  have hk : k ≠ id := by
    rintro rfl
    exact hne h
  exact Function.update_of_ne hk _ _

/-- A process that goes is no matter to the shutdowns. -/
theorem steady_without (id : FiberId) : Steady p o (o.without id) := by
  refine steady_of_same rfl rfl rfl (fun h => .inl h) (fun h => ⟨h, rfl⟩)
    fun {k _ _ called} _ h => ?_
  change Function.update o.fiber id none k = some called at h
  rw [Function.update_apply] at h
  split at h
  · cases h
  · exact h

/-- A process that is new is no loop. -/
theorem steady_added (hfresh : o.Fresh) {duty : Duty α} (hne : ∀ start l, duty ≠ .loop start l) :
    Steady p o (o.added duty) := by
  obtain ⟨-, hsaid, -⟩ := hfresh o.nextFiber (Nat.le_refl _)
  have hother : ∀ {k d}, o.duty k = some d → k ≠ o.nextFiber :=
    fun h => Nat.ne_of_lt (hfresh.lt_of_duty h)
  refine steady_of_same rfl rfl rfl (fun {k d} h => ?_) (fun {k} h => ⟨?_, rfl⟩)
    fun {k _ _ called} hloop h => ?_
  · change Function.update o.duty o.nextFiber _ k = some d at h
    by_cases hk : k = o.nextFiber
    · subst hk
      rw [Function.update_self] at h
      cases h
      exact .inr ⟨hsaid, hne⟩
    · rw [Function.update_of_ne hk] at h
      exact .inl h
  · exact (Function.update_of_ne (hother h) _ _).trans h
  · change Function.update o.fiber o.nextFiber _ k = some called at h
    rwa [Function.update_of_ne (hother hloop)] at h

/-- The jobs of an executor are no matter to the shutdowns. -/
theorem steady_counted (e : ExecutorId) (f : Nat → Nat) : Steady p o (o.counted e f) :=
  steady_of_same rfl rfl rfl (fun h => .inl h) (fun h => ⟨h, rfl⟩) fun _ h => h

/-- What a loop says of itself is no matter to the shutdowns. -/
theorem steady_published (loop : LoopId) (state : LoopState) :
    Steady p o (o.published loop state) :=
  steady_of_same rfl rfl rfl (fun h => .inl h) (fun h => ⟨h, rfl⟩) fun _ h => h

/-- Two changes that are no matter to the shutdowns are none together. -/
theorem Steady.trans {o'' : Outline α} (h : Steady p o o') (h' : Steady p o' o'') :
    Steady p o o'' where
  status := h'.status.trans h.status
  shut := h'.shut.trans h.shut
  fibers := h'.fibers.trans h.fibers
  owned := h'.owned.trans h.owned
  raised hstatus := (h'.raised (h.status.symm ▸ hstatus)).trans (h.raised hstatus)
  starts := h'.starts.trans h.starts
  stopper := h'.stopper.trans h.stopper
  stages hstage := (h'.stages hstage).elim h.stages .inr
  stages_kept hstage := h'.stages_kept (h.stages_kept hstage)
  marked hmark := h.marked (h'.marked hmark)
  loop hloop := h.loop (h'.loop hloop)
  alive hloop hcalled := h.alive (h'.loop hloop) (h'.alive hloop hcalled)

/-- A job that is handed over is no matter to the shutdowns. -/
theorem steady_handedOver (hfresh : o.Fresh) (e : ExecutorId) (job : Job α) :
    Steady p o (o.handedOver e job) := by
  have hlater : (o.counted e (· + 1)).Fresh := fun k hk => hfresh k hk
  unfold handedOver
  refine (steady_counted e (· + 1)).trans (steady_added hlater fun start l => ?_)
  simp

/-- What no stage of a shutdown changes. -/
structure Spared (o o' : Outline α) : Prop where
  duty : o'.duty = o.duty
  said : o'.said = o.said
  loops : o'.loops = o.loops
  current : o'.pool.loops = o.pool.loops
  active : o'.active = o.active
  nextFiber : o'.nextFiber = o.nextFiber
  starts : o'.starts = o.starts
  owned : o'.pool.signal.owned = o.pool.signal.owned

/-- A signal stays with its pool whatever is said by it. -/
theorem owned_apply (signal : StopSignal) (on : Bool) :
    (signal.apply (.say on)).owned = signal.owned := by
  unfold StopSignal.apply
  dsimp only
  split <;> rfl

/-- A stage of a shutdown spares what no stage changes. -/
theorem spared_of_goes (o : Outline α) (id : FiberId) {stage next : StopStage}
    {x : Exchange (Job α)} (h : stage.Goes p x next) : Spared o (o.after id x) := by
  cases h with
  | alarm => exact ⟨rfl, rfl, rfl, rfl, rfl, rfl, rfl, owned_apply _ _⟩
  | hook deadline inTime x step steps rest reply =>
    rw [after_hookStep]
    exact ⟨rfl, rfl, rfl, rfl, rfl, rfl, rfl, rfl⟩
  | _ => exact ⟨rfl, rfl, rfl, rfl, rfl, rfl, rfl, rfl⟩

/-- A shutdown may call processes off, but none goes or comes by it. -/
theorem fiber_after_eq_none {id k : FiberId} {stage next : StopStage} {x : Exchange (Job α)}
    (h : stage.Goes p x next) : (o.after id x).fiber k = none ↔ o.fiber k = none := by
  cases h with
  | abort deadline loops =>
    change (if k ∈ loops then (o.fiber k).map fun _ => true else o.fiber k) = none ↔ _
    split
    · exact Option.map_eq_none_iff
    · exact Iff.rfl
  | hook deadline inTime x step steps rest reply => rw [after_hookStep]
  | _ => exact Iff.rfl

/-- One shutdown goes on, and the others are where they were. -/
theorem stages_heard {id : FiberId} {x : Exchange (Job α)} (hduty : o'.duty = o.duty)
    (hsaid : o'.said = o.said) (hid : o.duty id = some .shutdown) :
    (o'.heard id x).stages p =
      Function.update (o.stages p) id (some (p.stage (o.said id ++ [x]))) := by
  funext k
  unfold stages heard
  rw [hduty, hsaid]
  by_cases hk : k = id
  · subst hk
    simp only [hid, Function.update_self]
  · simp only [Function.update_of_ne hk]

/-- After one shutdown has gone on every stage is its next one, or is as it was. -/
theorem stages_cases {id k : FiberId} {next stage : StopStage}
    (hstages : o'.stages p = Function.update (o.stages p) id (some next))
    (hstage : o'.stages p k = some stage) :
    k = id ∧ stage = next ∨ k ≠ id ∧ o.stages p k = some stage := by
  rw [hstages, Function.update_apply] at hstage
  split at hstage
  · next hk => exact .inl ⟨hk, (Option.some.inj hstage).symm⟩
  · next hk => exact .inr ⟨hk, hstage⟩

/-- If no other shutdown was underway then only the one that has gone on can be. -/
theorem underway_only {id k : FiberId} {next stage : StopStage}
    (hstages : o'.stages p = Function.update (o.stages p) id (some next))
    (hothers : ∀ {k st}, k ≠ id → o.stages p k = some st → ¬ st.Underway)
    (hstage : o'.stages p k = some stage) (hunderway : stage.Underway) : k = id ∧ stage = next := by
  rcases stages_cases hstages hstage with hself | ⟨hk, hold⟩
  · exact hself
  · exact absurd hunderway (hothers hk hold)

/-- Who is told to take the stopping over has found the pool running. -/
theorem running_of_tells (h : o.Tells (⟨.beginDraining, true⟩ : Exchange (Job α))) :
    o.pool.status = .running :=
  of_decide_eq_true (Eq.symm h)

/-- Who has begun to shut executors down had begun before, or has just called a hook. -/
theorem marked_heard {id k : FiberId} {x : Exchange (Job α)} (hduty : o'.duty = o.duty)
    (hsaid : o'.said = o.said) (h : (o'.heard id x).Marked k) :
    o.Marked k ∨ k = id ∧ x.1.enters? ≠ none := by
  obtain ⟨hshutdown, hmark⟩ := h
  change o'.duty k = _ at hshutdown
  change hookCalls (Function.update o'.said id _ k) ≠ [] at hmark
  rw [hduty] at hshutdown
  rw [hsaid] at hmark
  by_cases hk : k = id
  · subst hk
    rw [Function.update_self, hookCalls_append] at hmark
    by_cases hbefore : hookCalls (o.said k) = []
    · refine .inr ⟨rfl, fun hnone => hmark ?_⟩
      rw [hbefore, hnone]
      rfl
    · exact .inl ⟨hshutdown, hbefore⟩
  · rw [Function.update_of_ne hk] at hmark
    exact .inl ⟨hshutdown, hmark⟩

/-- What is said without calling a hook begins no executor. -/
theorem marked_of_heard {id k : FiberId} {x : Exchange (Job α)} (hduty : o'.duty = o.duty)
    (hsaid : o'.said = o.said) (hnone : x.1.enters? = none)
    (h : (o'.heard id x).Marked k) : o.Marked k :=
  (marked_heard hduty hsaid h).resolve_right fun hx => hx.2 hnone

/-- After a start the old processes keep their duties, and the new ones are the planned loops. -/
theorem duty_started {planned : List (PlannedLoop α)} {k : FiberId} {d : Duty α}
    (h : (o.started planned).duty k = some d) :
    o.duty k = some d ∧ k < o.nextFiber ∨
      o.nextFiber ≤ k ∧ ∃ l, (Pool.loopsFrom o.loops.length planned)[k - o.nextFiber]? = some l ∧
        d = .loop (o.starts + 1) l := by
  unfold started at h
  dsimp only at h
  split at h
  · next hk => exact .inl ⟨h, hk⟩
  · next hk =>
    obtain ⟨l, hl, rfl⟩ := Option.map_eq_some_iff.1 h
    exact .inr ⟨Nat.le_of_not_lt hk, l, hl, rfl⟩

/-- A start leaves the shutdowns at their stages. -/
theorem stages_started (hfresh : o.Fresh) (planned : List (PlannedLoop α)) :
    (o.started planned).stages p = o.stages p := by
  funext k
  unfold stages started
  by_cases hk : k < o.nextFiber
  · simp only [if_pos hk]
  · simp only [if_neg hk, (hfresh k (Nat.le_of_not_lt hk)).1]
    cases (Pool.loopsFrom o.loops.length planned)[k - o.nextFiber]? <;> rfl

/-- Every change is a start, a stage of a shutdown, or nothing to the life of a pool. -/
theorem Change.turn (hfresh : o.Fresh) (h : o.Change p o') : o.Turn p o' := by
  cases h with
  | stay =>
    exact .steady (steady_of_same rfl rfl rfl (fun h => .inl h) (fun h => ⟨h, rfl⟩) fun _ h => h)
  | lower hstatus hopen =>
    refine .steady {
      status := rfl, shut := rfl, fibers := rfl, starts := rfl, stopper := rfl
      owned := ?_
      raised := fun hne => absurd hstatus hne
      stages := fun h => .inl h
      stages_kept := fun h => h
      marked := fun h => h
      loop := fun h => h
      alive := fun _ h => h }
    exact owned_apply _ _
  | start hstatus hopen hplan => exact .start hstatus hopen
  | call => exact .steady (steady_added hfresh fun start l => by simp)
  | say x hfiber hduty hwork hneutral =>
    exact .steady (steady_heard fun h => hwork (Option.some.inj (hduty.symm.trans h)))
  | @publish id start l called state hfiber hduty =>
    have hne : (o.published l.id state).duty id ≠ some .shutdown := by
      intro h
      cases hduty.symm.trans h
    exact .steady ((steady_published l.id state).trans (steady_heard hne))
  | @handOver id start l called e record hfiber hduty hboundary =>
    have hne : (o.handedOver e ⟨l.runner.processor, record⟩).duty id ≠ some .shutdown := by
      intro h
      change Function.update o.duty o.nextFiber _ id = _ at h
      rw [Function.update_of_ne (Nat.ne_of_lt (hfresh.lt hfiber)), hduty] at h
      cases h
    exact .steady ((steady_handedOver hfresh e _).trans (steady_heard hne))
  | @stop id called x hfiber hduty hgoes htells =>
    have hspared := spared_of_goes o id hgoes
    exact .stop x (stages_eq_some.2 ⟨hduty, rfl⟩) hgoes htells
      (stages_heard hspared.duty hspared.said hduty)
  | @again id start l called hfiber hduty =>
    refine .steady (steady_of_same rfl rfl rfl (fun h => .inl h) (fun {k} h => ⟨h, ?_⟩) fun _ h => h)
    have hk : k ≠ id := by
      rintro rfl
      cases hduty.symm.trans h
    exact Function.update_of_ne hk _ _
  | endLoop hfiber hduty hend => exact .steady (steady_without _)
  | dropLoop hfiber hduty => exact .steady (steady_without _)
  | @endWork id e job called hfiber hduty =>
    exact .steady ((steady_counted e (· - 1)).trans (steady_without id))
  | endShutdown hfiber hduty => exact .steady (steady_without _)

/-- Shutdowns do not get into each other's way. -/
structure Controlled (p : Pool α) (o : Outline α) : Prop where
  owned : o.pool.signal.owned = true
  draining : ∀ {k stage}, o.stages p k = some stage → stage.Underway → o.pool.status = .draining
  alone : ∀ {k k' stage stage'}, o.stages p k = some stage → o.stages p k' = some stage' →
    stage.Underway → stage'.Underway → k = k'
  raised : ∀ {k stage}, o.stages p k = some stage → stage.Raised → o.pool.signal.raised = true
  shut : ∀ {k}, o.Marked k → o.pool.executorsShutDown = true
  /-- Who has shut executors down is underway as long as the pool is not stopped. -/
  marked : ∀ {k}, o.Marked k → o.pool.status = .stopped ∨
    o.pool.status = .draining ∧ ∃ stage, o.stages p k = some stage ∧ stage.Underway
  marker : ∀ {k k'}, o.Marked k → o.Marked k' → k = k'

/-- A pool that was never started is under control. -/
theorem controlled_initial (p : Pool α) (clock : Instant) (shards : List ShardId)
    (limits : List Nat) : Controlled p (Service.initial clock shards limits : Service α).outline where
  owned := rfl
  draining h := by cases h
  alone h := by cases h
  raised h := by cases h
  shut h := by cases h.1
  marked h := by cases h.1
  marker h := by cases h.1

namespace Controlled

/-- Where the pool is not draining, no shutdown is under way. -/
theorem not_underway (h : Controlled p o) (hstatus : o.pool.status ≠ .draining) {k : FiberId}
    {stage : StopStage} (hstage : o.stages p k = some stage) : ¬ stage.Underway :=
  fun hunderway => hstatus (h.draining hstage hunderway)

/-- Beside a shutdown that is underway no other one is. -/
theorem others (h : Controlled p o) {id : FiberId} {stage : StopStage}
    (hstage : o.stages p id = some stage) (hbefore : stage.Underway) {k : FiberId}
    {st : StopStage} (hk : k ≠ id) (hst : o.stages p k = some st) : ¬ st.Underway :=
  fun hunderway => hk (h.alone hst hstage hunderway hbefore)

/-- A start finds no shutdown underway. -/
theorem not_underway_started (h : Controlled p o) (hfresh : o.Fresh)
    {planned : List (PlannedLoop α)} (hstatus : o.pool.status = .stopped) {k : FiberId}
    {stage : StopStage} (hstage : (o.started planned).stages p k = some stage) :
    ¬ stage.Underway := by
  rw [stages_started hfresh] at hstage
  exact h.not_underway (by rw [hstatus]; decide) hstage

/-- A change that is no matter to the shutdowns leaves the pool under control. -/
theorem steady (h : Controlled p o) (hsteady : Steady p o o') : Controlled p o' where
  owned := hsteady.owned.trans h.owned
  draining {k stage} hstage hunderway := by
    rcases hsteady.stages hstage with hold | rfl
    · exact hsteady.status.trans (h.draining hold hunderway)
    · exact hunderway.elim
  alone {k k' stage stage'} hstage hstage' hunderway hunderway' := by
    rcases hsteady.stages hstage with hold | rfl
    · rcases hsteady.stages hstage' with hold' | rfl
      · exact h.alone hold hold' hunderway hunderway'
      · exact hunderway'.elim
    · exact hunderway.elim
  raised {k stage} hstage hraised := by
    rcases hsteady.stages hstage with hold | rfl
    · have hdraining := h.draining hold hraised.1
      rw [hsteady.raised (by rw [hdraining]; decide)]
      exact h.raised hold hraised
    · exact hraised.1.elim
  shut hmarked := hsteady.shut.trans (h.shut (hsteady.marked hmarked))
  marked hmarked := by
    rcases h.marked (hsteady.marked hmarked) with hstopped | ⟨hdraining, stage, hstage, hunderway⟩
    · exact .inl (hsteady.status.trans hstopped)
    · exact .inr ⟨hsteady.status.trans hdraining, stage, hsteady.stages_kept hstage, hunderway⟩
  marker hmarked hmarked' := h.marker (hsteady.marked hmarked) (hsteady.marked hmarked')

/-- A start of a stopped pool leaves it under control. -/
theorem start (h : Controlled p o) (hfresh : o.Fresh) (planned : List (PlannedLoop α))
    (hstatus : o.pool.status = .stopped) (hopen : o.pool.executorsShutDown = false) :
    Controlled p (o.started planned) := by
  have hidle : ∀ {k stage}, (o.started planned).stages p k = some stage → ¬ stage.Underway :=
    h.not_underway_started hfresh hstatus
  have hunmarked : ∀ {k}, ¬ (o.started planned).Marked k := by
    rintro k ⟨hduty, hmark⟩
    rcases duty_started hduty with ⟨hold, -⟩ | ⟨-, l, -, hloop⟩
    · cases hopen.symm.trans (h.shut ⟨hold, hmark⟩)
    · cases hloop
  exact {
    owned := (owned_apply _ _).trans h.owned
    draining := fun hstage hunderway => absurd hunderway (hidle hstage)
    alone := fun hstage _ hunderway _ => absurd hunderway (hidle hstage)
    raised := fun hstage hraised => absurd hraised.1 (hidle hstage)
    shut := fun hmarked => absurd hmarked hunmarked
    marked := fun hmarked => absurd hmarked hunmarked
    marker := fun hmarked _ => absurd hmarked hunmarked }

section Stop

variable {id : FiberId} {stage next : StopStage} {x : Exchange (Job α)}

/-- A shutdown that is underway goes on. -/
theorem proceed (h : Controlled p o) (hspared : Spared o o') (hstage : o.stages p id = some stage)
    (hstages : (o'.heard id x).stages p = Function.update (o.stages p) id (some next))
    (hbefore : stage.Underway) (hafter : next.Underway) (hstatus : o'.pool.status = o.pool.status)
    (hraised : o'.pool.signal.raised = true ∨
      o'.pool.signal.raised = o.pool.signal.raised ∧ (next.Raised → stage.Raised))
    (hshut : o'.pool.executorsShutDown = true ∨
      o'.pool.executorsShutDown = o.pool.executorsShutDown ∧ x.1.enters? = none) :
    Controlled p (o'.heard id x) := by
  have hdraining := h.draining hstage hbefore
  -- every other shutdown would be underway together with this one
  have hunique : ∀ {k st}, (o'.heard id x).stages p k = some st → st.Underway →
      k = id ∧ st = next := underway_only hstages (h.others hstage hbefore)
  exact {
    owned := hspared.owned.trans h.owned
    draining := fun _ _ => hstatus.trans hdraining
    alone := fun hst hst' hunderway hunderway' =>
      (hunique hst hunderway).1.trans (hunique hst' hunderway').1.symm
    raised := by
      intro k st hst hst'
      obtain ⟨rfl, rfl⟩ := hunique hst hst'.1
      rcases hraised with hraised | ⟨hsame, hnext⟩
      · exact hraised
      · exact hsame.trans (h.raised hstage (hnext hst'))
    shut := by
      intro k hmarked
      rcases hshut with hshut | ⟨hsame, hnone⟩
      · exact hshut
      · exact hsame.trans (h.shut (marked_of_heard hspared.duty hspared.said hnone hmarked))
    marked := by
      intro k hmarked
      refine .inr ⟨hstatus.trans hdraining, ?_⟩
      rcases marked_heard hspared.duty hspared.said hmarked with hold | ⟨rfl, -⟩
      · rcases h.marked hold with hstopped | ⟨-, st, hst, hunderway⟩
        · cases hdraining.symm.trans hstopped
        · obtain rfl := h.alone hst hstage hunderway hbefore
          exact ⟨next, by rw [hstages, Function.update_self], hafter⟩
      · exact ⟨next, by rw [hstages, Function.update_self], hafter⟩
    marker := by
      have honly : ∀ {k}, (o'.heard id x).Marked k → k = id := by
        intro k hmarked
        rcases marked_heard hspared.duty hspared.said hmarked with hold | ⟨rfl, -⟩
        · rcases h.marked hold with hstopped | ⟨-, st, hst, hunderway⟩
          · cases hdraining.symm.trans hstopped
          · exact h.alone hst hstage hunderway hbefore
        · rfl
      intro k k' hmarked hmarked'
      exact (honly hmarked).trans (honly hmarked').symm }

/-- A shutdown that finds the pool not running leaves everything as it is. -/
theorem refuse (h : Controlled p o) (hstage : o.stages p id = some .calling)
    (hstages : (o.heard id ⟨.beginDraining, false⟩).stages p =
      Function.update (o.stages p) id (some .refused)) :
    Controlled p (o.heard id ⟨.beginDraining, false⟩) := by
  have hmarks : ∀ {k}, (o.heard id ⟨.beginDraining, false⟩).Marked k → o.Marked k :=
    marked_of_heard rfl rfl rfl
  have hlater : ∀ {k st}, (o.heard id ⟨.beginDraining, false⟩).stages p k = some st →
      st.Underway → o.stages p k = some st := by
    intro k st hst hunderway
    rcases stages_cases hstages hst with ⟨-, rfl⟩ | ⟨-, hbefore⟩
    · exact hunderway.elim
    · exact hbefore
  exact {
    owned := h.owned
    draining := fun hst hunderway => h.draining (hlater hst hunderway) hunderway
    alone := fun hst hst' hunderway hunderway' =>
      h.alone (hlater hst hunderway) (hlater hst' hunderway') hunderway hunderway'
    raised := fun hst hraised => h.raised (hlater hst hraised.1) hraised
    shut := fun hmarked => h.shut (hmarks hmarked)
    marked := by
      intro k hmarked
      rcases h.marked (hmarks hmarked) with hstopped | ⟨hdraining, st, hst, hunderway⟩
      · exact .inl hstopped
      · refine .inr ⟨hdraining, st, ?_, hunderway⟩
        rw [hstages, Function.update_of_ne]
        · exact hst
        · rintro rfl
          cases hstage.symm.trans hst
          exact hunderway
    marker := fun hmarked hmarked' => h.marker (hmarks hmarked) (hmarks hmarked') }

/-- A shutdown that finds the pool running is the only one underway, and none has shut executors
down. -/
theorem takeOver (h : Controlled p o) (hrunning : o.pool.status = .running)
    (hstages : ((o.begun true).heard id ⟨.beginDraining, true⟩).stages p =
      Function.update (o.stages p) id (some .alarming)) :
    Controlled p ((o.begun true).heard id ⟨.beginDraining, true⟩) := by
  have hmarks : ∀ {k}, ((o.begun true).heard id ⟨.beginDraining, true⟩).Marked k → o.Marked k :=
    marked_of_heard rfl rfl rfl
  have hunmarked : ∀ {k}, ¬ ((o.begun true).heard id ⟨.beginDraining, true⟩).Marked k := by
    intro k hmarked
    rcases h.marked (hmarks hmarked) with hstopped | ⟨hdraining, -⟩
    · cases hrunning.symm.trans hstopped
    · cases hrunning.symm.trans hdraining
  have hunique : ∀ {k st}, ((o.begun true).heard id ⟨.beginDraining, true⟩).stages p k = some st →
      st.Underway → k = id ∧ st = .alarming :=
    underway_only hstages fun _ => h.not_underway (by rw [hrunning]; decide)
  exact {
    owned := h.owned
    draining := fun _ _ => rfl
    alone := fun hst hst' hunderway hunderway' =>
      (hunique hst hunderway).1.trans (hunique hst' hunderway').1.symm
    raised := fun hst hraised => absurd (hunique hst hraised.1).2 hraised.2
    shut := fun hmarked => absurd hmarked hunmarked
    marked := fun hmarked => absurd hmarked hunmarked
    marker := fun hmarked _ => absurd hmarked hunmarked }

/-- When a shutdown declares the pool stopped none is underway any more. -/
theorem declareStopped (h : Controlled p o) {inTime : Bool}
    (hstage : o.stages p id = some (.ending inTime))
    (hstages : ((o.after id ⟨.endDraining, ()⟩).heard id ⟨.endDraining, ()⟩).stages p =
      Function.update (o.stages p) id (some (.finished inTime))) :
    Controlled p ((o.after id ⟨.endDraining, ()⟩).heard id ⟨.endDraining, ()⟩) := by
  have hmarks : ∀ {k}, ((o.after id ⟨.endDraining, ()⟩).heard id
      ⟨.endDraining, ()⟩).Marked k → o.Marked k := marked_of_heard rfl rfl rfl
  have hidle : ∀ {k st}, ((o.after id ⟨.endDraining, ()⟩).heard id
      ⟨.endDraining, ()⟩).stages p k = some st → ¬ st.Underway := by
    intro k st hst hunderway
    obtain ⟨-, rfl⟩ := underway_only hstages (h.others hstage trivial) hst hunderway
    exact hunderway
  exact {
    owned := h.owned
    draining := fun hst hunderway => absurd hunderway (hidle hst)
    alone := fun hst _ hunderway _ => absurd hunderway (hidle hst)
    raised := fun hst hraised => absurd hraised.1 (hidle hst)
    shut := fun hmarked => h.shut (hmarks hmarked)
    marked := fun _ => .inl rfl
    marker := fun hmarked hmarked' => h.marker (hmarks hmarked) (hmarks hmarked') }

/-- A request of a call that stops the pool leaves it under control, stage by stage. -/
theorem stop (h : Controlled p o) (hstage : o.stages p id = some stage)
    (hgoes : stage.Goes p x next) (htells : o.Tells x)
    (hstages : ((o.after id x).heard id x).stages p =
      Function.update (o.stages p) id (some next)) :
    Controlled p ((o.after id x).heard id x) := by
  have hspared := spared_of_goes o id hgoes
  cases hgoes with
  | refuse => exact h.refuse hstage hstages
  | begin => exact h.takeOver (running_of_tells htells) hstages
  | stop inTime => exact h.declareStopped hstage hstages
  | alarm =>
    refine h.proceed hspared hstage hstages trivial trivial rfl (.inl ?_) (.inr ⟨rfl, rfl⟩)
    show (o.pool.signal.apply (.say true)).raised = true
    unfold StopSignal.apply
    simp only [h.owned, if_true]
  | give _ _ | time _ _ | take _ _ | lose _ _ =>
    exact h.proceed hspared hstage hstages trivial trivial rfl
      (.inr ⟨rfl, fun _ => ⟨trivial, nofun⟩⟩) (.inr ⟨rfl, rfl⟩)
  | join _ _ | abort _ _ =>
    exact h.proceed hspared hstage hstages trivial (StopStage.late_atExecutor ..).underway rfl
      (.inr ⟨rfl, fun _ => ⟨trivial, nofun⟩⟩) (.inr ⟨rfl, rfl⟩)
  | enter deadline inTime x rest =>
    exact h.proceed hspared hstage hstages trivial (StopStage.late_hooked ..).underway rfl
      (.inr ⟨rfl, fun _ => ⟨trivial, nofun⟩⟩) (.inl rfl)
  | hook deadline inTime x step steps rest reply =>
    rw [after_hookStep] at hspared hstages ⊢
    exact h.proceed hspared hstage hstages trivial (StopStage.late_hooked ..).underway rfl
      (.inr ⟨rfl, fun _ => ⟨trivial, nofun⟩⟩) (.inr ⟨rfl, HookStep.enters?_request ..⟩)

end Stop

/-- Every turn leaves the pool under control. -/
theorem turn (h : Controlled p o) (hfresh : o.Fresh) (hturn : o.Turn p o') : Controlled p o' := by
  cases hturn with
  | steady hsteady => exact h.steady hsteady
  | start hstatus hopen => exact h.start hfresh _ hstatus hopen
  | stop x hstage hgoes htells hstages => exact h.stop hstage hgoes htells hstages

end Controlled

/-- Executors are shut down for good. -/
theorem Turn.shut (hshut : o.pool.executorsShutDown = true) (hturn : o.Turn p o') :
    o'.pool.executorsShutDown = true := by
  cases hturn with
  | steady hsteady => exact hsteady.shut.trans hshut
  | start hstatus hopen => cases hshut.symm.trans hopen
  | stop x hstage hgoes htells hstages =>
    cases hgoes with
    | enter deadline inTime x rest => rfl
    | hook deadline inTime x step steps rest reply =>
      rw [after_hookStep]
      exact hshut
    | _ => exact hshut

end Outline

/-- The shutdowns of a pool do not get into each other's way, however they are called. -/
theorem Service.Reached.controlled {p : Pool α} {s : Service α} (h : s.Reached p) :
    Outline.Controlled p s.outline :=
  h.induction (Outline.controlled_initial p) fun _ _ hfresh hold hchange =>
    hold.turn hfresh (hchange.turn hfresh)

end LeaseQueue
