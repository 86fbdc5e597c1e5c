import LeaseQueue.Proofs.PoolShutdown
import LeaseQueue.Proofs.ServiceTurns

/-!
# Shutdowns come to an end

A shutdown that has found the pool running looks at the time once, and all its waits are over at the
deadline that it makes of it.  So it comes to a result after a number of turns that depends only on
the executors and their hooks, and then the pool is stopped (`Pool.Settles`).

But the status is changed before the time is looked at.  If the deadline is out of reach then the
shutdown panics, and nothing ever moves the pool out of the status in which it was left
(`Pool.Stranded`).  A hook that panics takes the shutdown with it in the same way.

Main statement: `Pool.settles_iff`.
-/

set_option autoImplicit false

namespace LeaseQueue

variable {α : Type}

open Process

/-! ## Turns that are left -/

namespace StopStage

variable {ω : Type} {p : Pool α} {stage next : StopStage} {x : Exchange ω} {deadline : Tick}

/-- When a stage has waited for long enough. -/
def deadline? : StopStage → Option Tick
  | joining deadline _ => some deadline
  | hooking deadline .. => some deadline
  | _ => none

/-- A shutdown at this stage stops the pool by a deadline, or a hook has kept it from that. -/
def By (deadline : Tick) : StopStage → Prop
  | taking d | joining d _ | aborting d _ | entering d .. | hooking d .. => d = deadline
  | broken .. | ending _ | finished _ => True
  | _ => False

/-- How many turns it takes a shutdown to get to know the time. -/
def turnsToTime : StopStage → Nat
  | calling => 3
  | alarming => 2
  | timing => 1
  | _ => 0

/-- How many turns the hooks of executors take at most: one for each call and one for each step. -/
def hookTurns : List External → Nat
  | [] => 0
  | x :: rest => x.hook.steps.length + 1 + hookTurns rest

/-- How many turns it takes a shutdown that knows the time to come to its end, at most. -/
def turnsToEnd (p : Pool α) : StopStage → Nat
  | taking _ => hookTurns p.wiring.executors.values + 4
  | joining .. => hookTurns p.wiring.executors.values + 3
  | aborting .. => hookTurns p.wiring.executors.values + 2
  | entering _ _ x rest => hookTurns (x :: rest) + 1
  | hooking _ _ _ _ steps rest => steps.length + 1 + hookTurns rest + 1
  | ending _ => 1
  | _ => 0

/-- The turns for the last of these executors are among those for all of them. -/
theorem hookTurns_le_of_suffix {xs ys : List External} (h : xs <:+ ys) :
    hookTurns xs ≤ hookTurns ys := by
  obtain ⟨before, rfl⟩ := h
  induction before with
  | nil => exact Nat.le_refl _
  | cons x rest ih => exact Nat.le_trans ih (Nat.le_add_left _ _)

/-- A shutdown that has a deadline knows the time. -/
theorem By.knows (h : stage.By deadline) :
    (stage ≠ calling ∧ stage ≠ refused) ∧ stage.turnsToTime ≤ 0 := by
  cases stage <;> first | exact h.elim | exact ⟨⟨nofun, nofun⟩, Nat.le_refl 0⟩

/-- For every executor whose hook is still to be called there are the turns of its hook, and there
is one for the end. -/
theorem atExecutor_near (p : Pool α) (deadline : Tick) (inTime : Bool) (xs : List External)
    {turns : Nat} (h : hookTurns xs + 1 ≤ turns) :
    (atExecutor deadline inTime xs).By deadline ∧
      (atExecutor deadline inTime xs).turnsToEnd p ≤ turns := by
  cases xs with
  | nil => exact ⟨trivial, h⟩
  | cons x rest => exact ⟨rfl, h⟩

/-- A call in a hook comes to its end within the steps of this hook and of the hooks that are left.
-/
theorem hooked_near (p : Pool α) (deadline : Tick) (inTime : Bool) (x : External)
    (rest : List External) (steps : List HookStep) (came : Bool) {turns : Nat}
    (h : steps.length + hookTurns rest + 1 ≤ turns) :
    (hooked deadline inTime x rest steps came).By deadline ∧
      (hooked deadline inTime x rest steps came).turnsToEnd p ≤ turns := by
  refine hooked_cases (P := fun stage => stage.By deadline ∧ stage.turnsToEnd p ≤ turns) ?_ ?_ ?_
  · exact fun inTime' _ => atExecutor_near p deadline inTime' rest (by omega)
  · exact fun _ _ => ⟨trivial, Nat.zero_le _⟩
  · rintro step more - rfl
    refine ⟨rfl, ?_⟩
    simp only [turnsToEnd]
    simp only [List.length_cons] at h
    omega

/-- The turns that are left are at most those of all hooks and four more. -/
theorem turnsToEnd_le (h : stage.Fits p) :
    stage.turnsToEnd p ≤ hookTurns p.wiring.executors.values + 4 := by
  cases stage with
  | entering d inTime x rest =>
    have hturns := hookTurns_le_of_suffix h
    simp only [turnsToEnd]
    omega
  | hooking d inTime x step steps rest =>
    have hturns := hookTurns_le_of_suffix h.1
    have hsteps := h.2.length_le
    simp only [turnsToEnd]
    simp only [hookTurns] at hturns ⊢
    simp only [List.length_cons] at hsteps
    omega
  | _ => simp only [turnsToEnd]; omega

/-- A shutdown that has a deadline comes to no error, or says that the time was over, unless a hook
has panicked. -/
theorem By.outcome (h : stage.By deadline) {o : Except Panic (Except PoolError Unit)}
    (ho : stage.outcome? = some o) :
    (o = .ok (.ok ()) ∨ o = .ok (.error .shutdownTimeout)) ∨
      ∃ cause rest, stage = .broken cause rest ∧ o = .error cause := by
  cases stage with
  | finished inTime => cases inTime <;> cases ho <;> simp
  | broken cause rest =>
    cases ho
    exact .inr ⟨cause, rest, rfl, rfl⟩
  | refused | doomed => exact h.elim
  | _ => cases ho

/-- A shutdown that has a deadline and no turns left has come to something. -/
theorem By.over (h : stage.By deadline) (hleft : stage.turnsToEnd p = 0) :
    ∃ o, stage.outcome? = some o := by
  cases stage with
  | finished inTime => cases inTime <;> exact ⟨_, rfl⟩
  | broken cause rest => exact ⟨_, rfl⟩
  | refused | doomed | calling | alarming | timing => exact h.elim
  | _ => cases hleft

/-- Along the good stages, each turn from a time on brings a shutdown nearer to where nothing is
left. -/
structure Nearing (p : Pool α) (since : Tick) (Good : StopStage → Prop) (left : StopStage → Nat) :
    Prop where
  goes : ∀ {stage next} {x : Exchange (Job α)}, Good stage → stage.Goes p x next →
    Good next ∧ left next ≤ left stage - 1
  asks : ∀ {stage}, Good stage → left stage ≠ 0 →
    (stage.request? : Option (Request (Job α))) ≠ none ∧ ∀ d ∈ stage.deadline?, d ≤ since

/-- A shutdown that has come to something goes no further. -/
theorem Goes.not_of_outcome? (hgoes : stage.Goes p x next)
    {o : Except Panic (Except PoolError Unit)} (ho : stage.outcome? = some o) : False := by
  cases hgoes <;> cases ho

/-- A shutdown that has panicked has not declared the pool stopped. -/
theorem underway_of_panicked {cause : Panic} (h : stage.outcome? = some (.error cause)) :
    stage.Underway := by
  cases stage with
  | finished inTime => cases inTime <;> cases h
  | doomed | broken _ _ => exact trivial
  | _ => cases h

/-- Whatever the time is, a shutdown that has found the pool running gets to know it. -/
theorem nearing_time (p : Pool α) :
    Nearing p 0 (fun stage => stage ≠ calling ∧ stage ≠ refused) turnsToTime where
  goes {stage next x} hgood hgoes := by
    cases hgoes with
    | refuse => exact absurd rfl hgood.1
    | begin => exact absurd rfl hgood.1
    | join _ _ | abort _ _ => exact (atExecutor_near p _ _ _ (Nat.le_refl _)).1.knows
    | enter _ _ _ _ | hook _ _ _ _ _ _ _ =>
      exact (hooked_near p _ _ _ _ _ _ (Nat.le_refl _)).1.knows
    | _ => exact ⟨⟨nofun, nofun⟩, Nat.le_refl _⟩
  asks {stage} _ hleft := by
    cases stage with
    | alarming | timing | calling => exact ⟨nofun, nofun⟩
    | _ => exact absurd rfl hleft

/-- From its deadline on a shutdown does not have to wait. -/
theorem nearing_end (p : Pool α) (deadline : Tick) :
    Nearing p deadline (By deadline) (turnsToEnd p) where
  goes {stage next x} hgood hgoes := by
    cases hgoes with
    | join d loops =>
      obtain rfl : d = deadline := hgood
      exact atExecutor_near p d true _ (Nat.le_succ _)
    | abort d loops =>
      obtain rfl : d = deadline := hgood
      exact atExecutor_near p d false _ (Nat.le_refl _)
    | enter d inTime x rest =>
      obtain rfl : d = deadline := hgood
      refine hooked_near p d inTime x rest _ true ?_
      simp only [turnsToEnd, hookTurns]
      omega
    | hook d inTime x step steps rest reply =>
      obtain rfl : d = deadline := hgood
      refine hooked_near p d inTime x rest steps _ ?_
      simp only [turnsToEnd]
      omega
    | refuse | begin | alarm | give _ _ | time _ _ => exact hgood.elim
    | lose _ _ | take _ _ => exact ⟨hgood, Nat.le_refl _⟩
    | stop inTime => exact ⟨trivial, Nat.le_refl _⟩
  asks {stage} hgood hleft := by
    cases stage with
    | finished inTime => exact absurd rfl hleft
    | broken cause rest => exact absurd rfl hleft
    | refused | doomed | calling | alarming | timing => exact hgood.elim
    | joining d loops | hooking d inTime x step steps rest =>
      obtain rfl : d = deadline := hgood
      refine ⟨nofun, ?_⟩
      rintro _ ⟨⟩
      exact Nat.le_refl _
    | _ => exact ⟨nofun, nofun⟩

/-- A shutdown that was told this time has given up, or it stops the pool by the deadline. -/
def Timed (p : Pool α) (now : Tick) (stage : StopStage) : Prop :=
  tickLimit ≤ now + p.config.shutdownTimeout.nanos ∧ stage = doomed ∨
    now + p.config.shutdownTimeout.nanos < tickLimit ∧
      stage.By (now + p.config.shutdownTimeout.nanos)

/-- A call that keeps to the clock keeps to it at its next stage. -/
theorem Timed.goes {now : Tick} {x : Exchange (Job α)} (h : stage.Timed p now)
    (hgoes : stage.Goes p x next) : next.Timed p now := by
  rcases h with ⟨hfar, rfl⟩ | ⟨hnear, hby⟩
  · cases hgoes
  · exact .inr ⟨hnear, ((nearing_end p _).goes hby hgoes).1⟩

end StopStage

namespace Pool

open StopStage

variable {p : Pool α} {said : List (Exchange (Job α))}
  {left : Process (Job α) (Except PoolError Unit)}

/-- A shutdown that has found the pool running and knows the time was told it. -/
theorem timed_of_runs (h : Runs p.shutdown said left) (hnot : p.stage said ≠ .refused)
    (hleft : (p.stage said).turnsToTime = 0) :
    ∃ now : Tick, ⟨.tick, now⟩ ∈ said ∧ (p.stage said).Timed p now := by
  refine said_induction (P := fun stage said => stage ≠ .refused → stage.turnsToTime = 0 →
    ∃ now : Tick, ⟨.tick, now⟩ ∈ said ∧ stage.Timed p now) ?_ ?_ h hnot hleft
  · exact fun _ hleft => by cases hleft
  · intro stage es x next hgoes ih hnot hleft
    have hnext := hgoes
    cases hgoes with
    | refuse => exact absurd rfl hnot
    | begin | alarm => cases hleft
    | give now hfar =>
      exact ⟨now, List.mem_append_right _ (List.mem_singleton_self _), .inl ⟨hfar, rfl⟩⟩
    | time now hnear =>
      exact ⟨now, List.mem_append_right _ (List.mem_singleton_self _), .inr ⟨hnear, rfl⟩⟩
    | _ =>
      obtain ⟨now, hnow, htimed⟩ := ih nofun rfl
      exact ⟨now, List.mem_append_left _ hnow, htimed.goes hnext⟩

end Pool

namespace World

variable {w : World (Job α) (Except PoolError Unit)} {id k : FiberId}

/-- A request of a shutdown is answered at once, unless it waits for its deadline. -/
theorem answers_of_request? (id : FiberId) {stage : StopStage} {r : Request (Job α)}
    (hr : stage.request? = some r) (htime : ∀ d ∈ stage.deadline?, d ≤ w.time) :
    ∃ w' reply, w.perform Job.work id r = (w', .answer reply) := by
  cases stage with
  | calling =>
    cases hr
    simp only [perform]
    split <;> exact ⟨_, _, rfl⟩
  | joining deadline loops =>
    cases hr
    simp only [perform]
    split
    · exact ⟨_, _, rfl⟩
    · rw [if_pos (htime deadline rfl)]
      exact ⟨_, _, rfl⟩
  | hooking deadline inTime x step steps rest =>
    cases hr
    cases step with
    | close => exact ⟨_, _, rfl⟩
    | awaitJobs =>
      simp only [HookStep.request, perform]
      split
      · exact ⟨_, _, rfl⟩
      · rw [if_pos (by simpa using htime deadline rfl)]
        exact ⟨_, _, rfl⟩
    | pass gate =>
      simp only [HookStep.request, perform]
      split
      · exact ⟨_, _, rfl⟩
      · rw [if_pos (htime deadline rfl)]
        exact ⟨_, _, rfl⟩
  | refused | doomed | broken _ _ | finished _ => cases hr
  | _ =>
    cases hr
    exact ⟨_, _, rfl⟩

/-! ## Processes that stay -/

/-- A process is there when it stands in the sketch under a number that has been given. -/
theorem hosts_iff : w.Hosts id ↔ w.sketch.standing id ≠ none ∧ id < w.sketch.nextFiber := by
  have hthere : w.fibers.contains id = true ↔ w.sketch.standing id ≠ none := by
    simp [sketch, OrderedMap.contains, Option.isSome_iff_ne_none]
  exact ⟨fun h => ⟨hthere.1 h.there, h.lt⟩, fun h => ⟨hthere.2 h.1, h.2⟩⟩

/-- A process stays when another one is made. -/
theorem Hosts.spawn (h : w.Hosts id) (body : Body (Job α) (Except PoolError Unit)) :
    (w.spawn body).Hosts id := by
  obtain ⟨hthere, hlt⟩ := hosts_iff.1 h
  rw [hosts_iff, sketch_spawn]
  refine ⟨?_, Nat.lt_succ_of_lt hlt⟩
  exact (Function.update_of_ne (Nat.ne_of_lt hlt) _ _).trans_ne hthere

/-- A process stays when another one goes. -/
theorem Hosts.dismiss (h : w.Hosts id) (hne : id ≠ k) : (w.dismiss k).Hosts id := by
  rw [hosts_iff] at h ⊢
  rw [sketch_dismiss]
  exact ⟨(Function.update_of_ne hne _ _).trans_ne h.1, h.2⟩

/-- A process stays when another one is buried. -/
theorem Hosts.bury (h : w.Hosts id) (hne : id ≠ k) (f : Fiber (Job α) (Except PoolError Unit)) :
    (w.bury k f).Hosts id := by
  rw [hosts_iff] at h ⊢
  rw [sketch_bury]
  obtain ⟨body, held, called⟩ := f
  cases body <;> exact ⟨(Function.update_of_ne hne _ _).trans_ne h.1, h.2⟩

/-- A process stays when loops are started. -/
theorem Hosts.startLoops (h : w.Hosts id) (planned : List (PlannedLoop α)) :
    (planned.foldl Pool.startLoop w).Hosts id := by
  induction planned generalizing w with
  | nil => exact h
  | cons l rest ih =>
    refine ih ?_
    unfold Pool.startLoop
    refine Hosts.spawn ?_ _
    exact ⟨h.there, h.lt⟩

end World

namespace Service

variable {p : Pool α} {s : Service α} {k : FiberId} {stage : StopStage} {m : Move α}

/-- A process is there when it is in the outline. -/
theorem Accounted.hosts_iff (h : s.Accounted p) :
    s.world.Hosts k ↔ s.outline.fiber k ≠ none := by
  have hfiber : s.outline.fiber k ≠ none ↔ s.world.sketch.standing k ≠ none :=
    not_congr Option.map_eq_none_iff
  rw [hfiber, World.hosts_iff]
  refine ⟨And.left, fun hthere => ⟨hthere, Nat.lt_of_not_le fun hle => ?_⟩⟩
  exact hfiber.2 hthere (h.fresh k hle).2.2

/-- A shutdown at a stage that asks something asks it next. -/
theorem Accounted.body_asks (h : s.Accounted p) (hduty : s.duty k = some .shutdown)
    {r : Request (Job α)} (hr : (p.stage (s.said k)).request? = some r)
    {f : Fiber (Job α) (Except PoolError Unit)} (hf : s.world.fibers.get? k = some f) :
    ∃ next, f.body.request? = some ⟨r, next⟩ := by
  obtain ⟨duty, hduty', hleft⟩ := h.left (standing_of_fiber hf)
  cases hduty.symm.trans hduty'
  generalize f.body = body at hleft
  cases hleft with
  | @shutdown es left hruns =>
    have hfollows := Pool.follows_stage hruns
    cases left with
    | done a => cases (StopStage.request?_of_outcome? hfollows).symm.trans hr
    | panic cause => cases (StopStage.request?_of_outcome? hfollows).symm.trans hr
    | call r' next =>
      cases hr.symm.trans hfollows.1
      exact ⟨_, rfl⟩

/-- A shutdown that asks something stays, unless it is given up. -/
theorem Accounted.hosts_step (h : s.Accounted p) (hduty : s.duty k = some .shutdown)
    {r : Request (Job α)} (hr : (p.stage (s.said k)).request? = some r) (hm : m ≠ .drop k)
    (hk : s.world.Hosts k) : (s.step p m).world.Hosts k := by
  cases m with
  | start =>
    have hspec := p.start_spec s.world
    unfold Service.step start
    generalize p.start s.world = result at hspec
    cases hspec with
    | busy hstatus => exact hk
    | shut hstatus hshut => exact hk
    | fail hstatus hopen hplan => exact ⟨hk.there, hk.lt⟩
    | @succeed planned hstatus hopen hplan =>
      have hemptied : s.world.emptied.Hosts k := ⟨hk.there, hk.lt⟩
      exact hemptied.startLoops planned
  | shutdown => exact hk.spawn _
  | go id =>
    unfold Service.step go
    dsimp only
    split
    · exact hk
    · next f hf =>
      split
      · next r next hbody =>
        have hasked := hk.perform Job.work id r
        unfold ask
        split
        · next w condition hwait =>
          rw [hwait] at hasked
          exact hasked
        · next w reply hanswer =>
          rw [hanswer] at hasked
          exact ⟨(World.contains_modify ..).trans hasked.there, hasked.lt⟩
      · next hbody =>
        have hne : k ≠ id := by
          rintro rfl
          obtain ⟨next, hasks⟩ := h.body_asks hduty hr hf
          cases hbody.symm.trans hasks
        unfold finish
        split
        · exact ⟨(World.contains_modify ..).trans hk.there, hk.lt⟩
        · exact hk.dismiss hne
        · refine World.Hosts.dismiss ?_ hne
          exact ⟨hk.there, hk.lt⟩
        · refine World.Hosts.dismiss ?_ hne
          exact ⟨hk.there, hk.lt⟩
  | drop id =>
    have hne : k ≠ id := fun hk => hm (hk ▸ rfl)
    unfold Service.step drop
    dsimp only
    split
    · exact hk
    · split
      · exact hk.bury hne _
      · exact hk
  | meanwhile surroundings => exact ⟨hk.there, hk.lt⟩

/-! ## Turns that are made -/

/-- A shutdown has come to a stage, and it is there as long as it asks something. -/
structure Awaited (p : Pool α) (s : Service α) (k : FiberId) (stage : StopStage) : Prop where
  stages : s.outline.stages p k = some stage
  there : (stage.request? : Option (Request (Job α))) ≠ none → s.world.Hosts k

/-- A shutdown that is not given up stays at its stage or goes on to the next one. -/
theorem Awaited.step (ha : s.Awaited p k stage) (h : s.Accounted p) (hm : m ≠ .drop k) :
    (s.step p m).Awaited p k stage ∨
      ∃ (x : Exchange (Job α)) (next : StopStage), stage.Goes p x next ∧
        (s.step p m).Awaited p k next := by
  obtain ⟨hduty, hsaid⟩ := Outline.stages_eq_some.1 ha.stages
  have hthere : (stage.request? : Option (Request (Job α))) ≠ none →
      (s.step p m).world.Hosts k := by
    intro hasks
    obtain ⟨r, hr⟩ := Option.ne_none_iff_exists'.1 hasks
    exact h.hosts_step hduty (hsaid ▸ hr) hm (ha.there hasks)
  have hturn := (h.change m).turn h.fresh
  rcases hturn.stages_next h.fresh ha.stages with hsame | ⟨x, next, hgoes, hnext⟩
  · exact .inl ⟨hsame, hthere⟩
  · refine .inr ⟨x, next, hgoes, hnext, fun _ => hthere ?_⟩
    cases hgoes <;> exact nofun

/-- A shutdown that asks something and does not have to wait goes on in its turn. -/
theorem Awaited.go (ha : s.Awaited p k stage) (h : s.Accounted p)
    (hasks : (stage.request? : Option (Request (Job α))) ≠ none)
    (htime : ∀ d ∈ stage.deadline?, d ≤ s.world.time) :
    ∃ (x : Exchange (Job α)) (next : StopStage), stage.Goes p x next ∧
      (s.step p (.go k)).Awaited p k next := by
  obtain ⟨hduty, rfl⟩ := Outline.stages_eq_some.1 ha.stages
  obtain ⟨r, hr⟩ := Option.ne_none_iff_exists'.1 hasks
  have hhosts := ha.there hasks
  obtain ⟨f, hf⟩ := Option.isSome_iff_exists.1 hhosts.there
  obtain ⟨next, hbody⟩ := h.body_asks hduty hr hf
  obtain ⟨w, reply, hanswer⟩ := World.answers_of_request? k hr htime
  have hgoes := StopStage.goes_after (p := p) (x := ⟨r, reply⟩) hr
  refine ⟨_, _, hgoes, ?_, fun _ => h.hosts_step hduty hr nofun hhosts⟩
  have hasked : s.step p (.go k) = s.answered w k ⟨r, reply⟩ (next reply) := by
    simp only [Service.step, Service.go, hf, hbody, ask, hanswer]
  have hspared := Outline.spared_of_goes s.outline k hgoes
  rw [hasked, outline_answered _ hanswer, Outline.stages_heard hspared.duty hspared.said hduty,
    Function.update_self]
  exact congrArg some (Pool.stage_append _ _)

/-- Whether a move is a turn of a process, from a time on. -/
def isTurn (id : FiberId) (since : Tick) (s : Service α) : Move α → Bool
  | .go k => decide (k = id ∧ since ≤ s.world.time)
  | _ => false

/-- How many of these moves are turns of a process, from a time on. -/
def turns (p : Pool α) (id : FiberId) (since : Tick) (s : Service α) : List (Move α) → Nat
  | [] => 0
  | m :: rest => (s.step p m).turns p id since rest + (s.isTurn id since m).toNat

/-- A turn of a process since some time is a move of it at that time or later. -/
theorem isTurn_iff {id : FiberId} {since : Tick} :
    s.isTurn id since m = true ↔ m = .go id ∧ since ≤ s.world.time := by
  cases m <;> simp [isTurn]

/-- A shutdown that is not given up and has its turns comes to where nothing is left. -/
theorem Awaited.run {since : Tick} {Good : StopStage → Prop} {left : StopStage → Nat}
    (ha : s.Awaited p k stage) (hnearing : StopStage.Nearing p since Good left)
    (h : s.Accounted p) (hgood : Good stage) {moves : List (Move α)} (hkept : .drop k ∉ moves)
    (hturns : left stage ≤ s.turns p k since moves) :
    ∃ last, (s.run p moves).Awaited p k last ∧ Good last ∧ left last = 0 := by
  induction moves generalizing s stage with
  | nil => exact ⟨stage, ha, hgood, Nat.le_zero.1 hturns⟩
  | cons m rest ih =>
    obtain ⟨hm, hrest⟩ := not_or.1 fun hdrop => hkept (List.mem_cons.2 hdrop)
    have hafter := h.step m
    unfold turns at hturns
    by_cases hturn : s.isTurn k since m = true ∧ left stage ≠ 0
    · obtain ⟨⟨rfl, htime⟩, hleft⟩ := hturn.imp_left isTurn_iff.1
      obtain ⟨hasks, hdeadline⟩ := hnearing.asks hgood hleft
      obtain ⟨x, next, hgoes, hnext⟩ :=
        ha.go h hasks fun d hd => Nat.le_trans (hdeadline d hd) htime
      obtain ⟨hgood', hless⟩ := hnearing.goes hgood hgoes
      rw [hturn.1, Bool.toNat_true] at hturns
      exact ih hnext hafter hgood' hrest (by omega)
    · -- the other moves may leave the shutdown where it is
      have hle : left stage ≤ (s.step p m).turns p k since rest := by
        cases hcounts : s.isTurn k since m with
        | false => simpa [hcounts] using hturns
        | true =>
          rw [Classical.not_not.1 fun hleft => hturn ⟨hcounts, hleft⟩]
          exact Nat.zero_le _
      rcases ha.step h (Ne.symm hm) with hsame | ⟨x, next, hgoes, hnext⟩
      · exact ih hsame hafter hgood hrest hle
      · obtain ⟨hgood', hless⟩ := hnearing.goes hgood hgoes
        exact ih hnext hafter hgood' hrest (by omega)

/-- A shutdown that finds the pool running has its turns to come. -/
theorem Reached.awaited_begun (h : s.Reached p) (hcalls : s.Calls k)
    (hrunning : s.world.pool.status = .running) : (s.step p (.go k)).Awaited p k .alarming where
  stages := by
    rw [h.accounted.outline_begun hcalls hrunning, Outline.stages_heard rfl rfl hcalls.duty,
      Function.update_self]
    exact congrArg (fun said => some (p.stage (said ++ [⟨.beginDraining, true⟩]))) hcalls.said
  there _ := h.accounted.hosts_step hcalls.duty
    (by rw [hcalls.said]; rfl : (p.stage (s.said k)).request? = some .beginDraining) nofun
    (h.accounted.hosts_iff.2 hcalls.there)

/-- What is kept from stage to stage is kept by all moves, also if the shutdown is given up. -/
theorem Reached.stages_run (h : s.Reached p) {P : StopStage → Prop}
    (hgoes : ∀ {stage next} {x : Exchange (Job α)}, P stage → stage.Goes p x next → P next)
    (hstage : s.outline.stages p k = some stage) (hP : P stage) (moves : List (Move α)) :
    ∃ last, (s.run p moves).outline.stages p k = some last ∧ P last := by
  refine h.turns (P := fun o => ∃ last, o.stages p k = some last ∧ P last) ?_
    ⟨stage, hstage, hP⟩ moves
  rintro o o' hfresh - hturn ⟨last, hlast, hlastP⟩
  rcases hturn.stages_next hfresh hlast with hsame | ⟨x, next, hstep, hnext⟩
  · exact ⟨last, hsame, hlastP⟩
  · exact ⟨next, hnext, hgoes hlastP hstep⟩

end Service

/-! ## What comes of a shutdown -/

namespace Pool

variable {p : Pool α} {s : Service α} {k : FiberId} {stage : StopStage}

/-- A shutdown has panicked, and the pool is neither running nor stopped. -/
structure Stranded (p : Pool α) (cause : Panic) (k : FiberId) (s : Service α) : Prop where
  panicked : Runs p.shutdown (s.said k) (.panic cause)
  status : s.world.pool.status = .draining
  /-- A start is refused and changes nothing. -/
  start : p.start s.world = (s.world, .error .alreadyRunning)
  /-- A shutdown comes to no error at once and changes nothing else. -/
  shutdown : ∀ {j}, s.Calls j → s.step p (.go j) =
    s.answered s.world j ⟨.beginDraining, false⟩ (.operation (.done (.ok ())))

/-- Whatever happens, a shutdown stops the pool by a deadline unless a hook panics; so many starts
have succeeded before it. -/
structure Settles (p : Pool α) (starts : Nat) (s : Service α) (k : FiberId) (deadline : Tick) :
    Prop where
  /-- It comes to no error, or says that the time was over. -/
  result : ∀ moves {result}, Returns p.shutdown ((s.run p moves).said k) result →
    result = .ok () ∨ result = .error .shutdownTimeout
  /-- When it has come to a result the pool is stopped, until another start succeeds. -/
  stopped : ∀ moves {result}, Returns p.shutdown ((s.run p moves).said k) result →
    (s.run p moves).starts = starts → (s.run p moves).world.pool.status = .stopped
  /-- It panics only with a hook that it has called. -/
  blamed : ∀ moves {cause}, Runs p.shutdown ((s.run p moves).said k) (.panic cause) →
    ∃ x ∈ p.wiring.executors.values, x.hook.panic = some cause ∧
      x.executor ∈ hookCalls ((s.run p moves).said k)
  /-- If it does, the pool is stranded for good. -/
  stranded : ∀ moves {cause}, Runs p.shutdown ((s.run p moves).said k) (.panic cause) →
    ∀ later, p.Stranded cause k ((s.run p moves).run p later)
  /-- Unless it is given up it comes to a result or panics, at the latest after some turns from its
  deadline on. -/
  ends : ∀ moves, .drop k ∉ moves →
    StopStage.hookTurns p.wiring.executors.values + 4 ≤ s.turns p k deadline moves →
      (∃ result, Returns p.shutdown ((s.run p moves).said k) result) ∨
        ∃ cause, Runs p.shutdown ((s.run p moves).said k) (.panic cause)

/-- If no hook panics then a shutdown that settles the pool does not panic. -/
theorem Settles.calm {starts : Nat} {deadline : Tick} (h : p.Settles starts s k deadline)
    (hcalm : ∀ x ∈ p.wiring.executors.values, x.hook.Calm) (moves : List (Service.Move α))
    (cause : Panic) : ¬ Runs p.shutdown ((s.run p moves).said k) (.panic cause) := by
  intro hpanic
  obtain ⟨x, hx, hcause, -⟩ := h.blamed moves hpanic
  cases (hcalm x hx).symm.trans hcause

/-- If no hook panics then a shutdown that settles the pool and is not given up comes to a
result. -/
theorem Settles.returns {starts : Nat} {deadline : Tick} (h : p.Settles starts s k deadline)
    (hcalm : ∀ x ∈ p.wiring.executors.values, x.hook.Calm) {moves : List (Service.Move α)}
    (hkept : .drop k ∉ moves)
    (hturns : StopStage.hookTurns p.wiring.executors.values + 4 ≤ s.turns p k deadline moves) :
    ∃ result, Returns p.shutdown ((s.run p moves).said k) result := by
  rcases h.ends moves hkept hturns with hreturns | ⟨cause, hpanic⟩
  · exact hreturns
  · exact absurd hpanic (h.calm hcalm moves cause)

/-- The stage of a shutdown is that of what it has said. -/
theorem runs_of_stages (h : s.Reached p) (hstage : s.outline.stages p k = some stage) :
    p.stage (s.said k) = stage ∧ ∃ left, Runs p.shutdown (s.said k) left := by
  obtain ⟨hduty, hsaid⟩ := Outline.stages_eq_some.1 hstage
  exact ⟨hsaid, h.accounted.ran hduty⟩

/-- A shutdown that has panicked leaves the pool as it is for good. -/
theorem stranded_of_panicked (h : s.Reached p) (hstage : s.outline.stages p k = some stage)
    {cause : Panic} (hcause : stage.outcome? = some (.error cause))
    (later : List (Service.Move α)) : p.Stranded cause k (s.run p later) := by
  obtain ⟨_, hstage', rfl⟩ := h.stages_run (P := (· = stage))
    (fun hsame hgoes => (hsame ▸ hgoes).not_of_outcome? hcause |>.elim) hstage rfl later
  have hlater := h.run later
  obtain ⟨hsaid, left, hruns⟩ := runs_of_stages hlater hstage'
  have hstatus : (s.run p later).world.pool.status = .draining :=
    hlater.controlled.draining hstage' (StopStage.underway_of_panicked hcause)
  exact {
    panicked := (panics_iff hruns).2 (by rw [hsaid]; exact hcause)
    status := hstatus
    start := by unfold Pool.start; rw [if_pos (by rw [hstatus]; decide)]
    shutdown := fun hcalls => hlater.accounted.step_refused hcalls (by rw [hstatus]; decide) }

/-- A shutdown that is to stop the pool by a deadline settles it. -/
theorem settles_of_by {starts : Nat} {deadline : Tick} (h : s.Reached p)
    (ha : s.Awaited p k stage) (hby : stage.By deadline)
    (hsince : ∀ moves, Outline.Since p starts k (s.run p moves).outline) :
    p.Settles starts s k deadline := by
  have hlater (moves : List (Service.Move α)) :
      ∃ last, (s.run p moves).outline.stages p k = some last ∧ last.By deadline ∧
        p.stage ((s.run p moves).said k) = last ∧
          ∃ left, Runs p.shutdown ((s.run p moves).said k) left := by
    have hnearing := StopStage.nearing_end p deadline
    obtain ⟨last, hlast, hgood⟩ :=
      h.stages_run (fun hgood hgoes => (hnearing.goes hgood hgoes).1) ha.stages hby moves
    exact ⟨last, hlast, hgood, runs_of_stages (h.run moves) hlast⟩
  exact {
    result := fun moves result hreturns => by
      obtain ⟨last, -, hgood, rfl, -⟩ := hlater moves
      rcases hgood.outcome (outcome?_of_returns hreturns) with (h | h) | ⟨_, _, -, h⟩
      · exact .inl (Except.ok.inj h)
      · exact .inr (Except.ok.inj h)
      · cases h
    stopped := fun moves result hreturns hstarts => by
      rcases (hsince moves).course hstarts with ⟨stage, hstage, hunderway⟩ | ⟨hstopped, -⟩
      · -- a shutdown that is underway has come to no result
        obtain ⟨rfl, -⟩ := runs_of_stages (h.run moves) hstage
        exact absurd hunderway (StopStage.not_underway_of_outcome? (outcome?_of_returns hreturns))
      · exact hstopped
    blamed := fun moves cause hpanic => by
      obtain ⟨last, -, hgood, rfl, left, hruns⟩ := hlater moves
      rcases hgood.outcome ((panics_iff hruns).1 hpanic) with (h | h) | ⟨_, rest, hbroken, h⟩
      · cases h
      · cases h
      · cases h
        exact hook_of_broken hruns hbroken
    stranded := fun moves cause hpanic => by
      obtain ⟨last, hstage, -, rfl, left, hruns⟩ := hlater moves
      exact stranded_of_panicked (h.run moves) hstage ((panics_iff hruns).1 hpanic)
    ends := fun moves hkept hturns => by
      obtain ⟨hstage, left, hruns⟩ := runs_of_stages h ha.stages
      have hleft := StopStage.turnsToEnd_le (fits_of_runs hruns)
      rw [hstage] at hleft
      obtain ⟨last, hlast, hgood, hnone⟩ := ha.run (StopStage.nearing_end p deadline) h.accounted
        hby hkept (Nat.le_trans hleft hturns)
      obtain ⟨rfl, left, hruns⟩ := runs_of_stages (h.run moves) hlast.stages
      obtain ⟨cause | result, houtcome⟩ := hgood.over hnone
      · exact .inr ⟨cause, (panics_iff hruns).2 houtcome⟩
      · exact .inl ⟨result, (returns_iff hruns).2 houtcome⟩ }

/-- A shutdown that finds the pool running and has its turns gets to know the time.  If its deadline
can be reached then it stops the pool unless a hook panics, whatever else happens; if not, the pool
is stranded for good. -/
theorem settles_iff (hs : s.Reached p) (hcalls : s.Calls k)
    (hrunning : s.world.pool.status = .running) {before : List (Service.Move α)}
    (hkept : .drop k ∉ before) (hturns : 2 ≤ (s.step p (.go k)).turns p k 0 before) :
    ∃ now : Tick, ⟨.tick, now⟩ ∈ ((s.step p (.go k)).run p before).said k ∧
      (p.Settles s.starts ((s.step p (.go k)).run p before) k
          (now + p.config.shutdownTimeout.nanos) ↔
        now + p.config.shutdownTimeout.nanos < tickLimit) ∧
      (tickLimit ≤ now + p.config.shutdownTimeout.nanos → ∀ moves,
        p.Stranded deadlineOverflow k (((s.step p (.go k)).run p before).run p moves)) := by
  have hafter : (s.step p (.go k)).Reached p := hs.run [.go k]
  have hsince (moves : List (Service.Move α)) :
      Outline.Since p s.starts k (((s.step p (.go k)).run p before).run p moves).outline := by
    rw [← Service.run_append]
    exact hafter.turns (fun hfresh hcontrolled hturn h => h.turn hfresh hcontrolled hturn)
      (hs.since hcalls (.inl hrunning)) _
  obtain ⟨last, hlast, ⟨-, hnot⟩, hnone⟩ := (hs.awaited_begun hcalls hrunning).run
    (StopStage.nearing_time p) hafter.accounted ⟨nofun, nofun⟩ hkept hturns
  have htold := hafter.run before
  generalize (s.step p (.go k)).run p before = told at hsince hlast htold
  obtain ⟨rfl, left, hruns⟩ := runs_of_stages htold hlast.stages
  obtain ⟨now, hnow, htimed⟩ := timed_of_runs hruns hnot hnone
  refine ⟨now, hnow, ?_⟩
  rcases htimed with ⟨hfar, hdoomed⟩ | ⟨hnear, hby⟩
  · have hstranded : ∀ moves, p.Stranded deadlineOverflow k (told.run p moves) :=
      stranded_of_panicked htold hlast.stages (by rw [hdoomed]; rfl)
    refine ⟨iff_of_false (fun hsettles => ?_) (Nat.not_lt.2 hfar), fun _ => hstranded⟩
    -- no hook has been called that could be blamed
    obtain ⟨x, -, -, hcalled⟩ := hsettles.blamed [] (hstranded []).panicked
    have hall := hookCalls_append_uncalled hruns
    rw [hdoomed] at hall
    rw [Service.run, List.append_left_eq_self.1 hall] at hcalled
    cases hcalled
  · refine ⟨iff_of_true (settles_of_by htold hlast hby hsince) hnear, fun hfar => ?_⟩
    exact absurd hnear (Nat.not_lt.2 hfar)

/-- A shutdown that has been called while the loop of a pool runs. -/
def summoned (p : Pool String) : Service String :=
  (Service.initial .epoch [] []).run p [.start, .shutdown]

/-- The shutdown has given the sign to stop and been told the time. -/
def informed (p : Pool String) : Service String :=
  ((summoned p).step p (.go 1)).run p [.go 1, .go 1]

/-- What `settles_iff` says of a pool with half a minute for its shutdown and no executors: with
four turns from then on the shutdown comes to a result. -/
theorem settles_gated : (summoned (gated [default])).Reached (gated [default]) ∧
    (summoned (gated [default])).Calls 1 ∧
    (summoned (gated [default])).world.pool.status = .running ∧
    (gated [default]).Settles 1 (informed (gated [default])) 1 30000000000 ∧
    ∀ moves, .drop 1 ∉ moves →
      4 ≤ (informed (gated [default])).turns (gated [default]) 1 30000000000 moves →
        ∃ result, Returns (gated [default]).shutdown
          (((informed (gated [default])).run (gated [default]) moves).said 1) result := by
  have hreached : (summoned (gated [default])).Reached (gated [default]) := ⟨_, _, _, _, rfl⟩
  have hcalls : (summoned (gated [default])).Calls 1 := ⟨rfl, Option.some_ne_none false, rfl⟩
  have hsaid : (informed (gated [default])).said 1 =
      [⟨.beginDraining, true⟩, ⟨.signalStop true, ()⟩, ⟨.tick, (0 : Nat)⟩] := rfl
  have hkept : .drop 1 ∉ ([.go 1, .go 1] : List (Service.Move String)) := by simp
  obtain ⟨now, hnow, hiff, -⟩ := settles_iff hreached hcalls rfl hkept (by decide)
  change _ ∈ (informed (gated [default])).said 1 at hnow
  rw [hsaid] at hnow
  simp only [List.mem_cons, List.not_mem_nil, or_false] at hnow
  rcases hnow with h | h | h <;> cases h
  have hsettles : (gated [default]).Settles 1 (informed (gated [default])) 1 30000000000 :=
    hiff.2 (by decide)
  exact ⟨hreached, hcalls, rfl, hsettles, fun _ hkept hturns => hsettles.returns nofun hkept hturns⟩

/-- A pool whose shutdowns have all the time that there is. -/
def patient : Pool String := { gated [default] with config := ⟨.longest⟩ }

/-- What somebody throws whose connection is gone. -/
def outage : Panic := .text "connection lost"

/-- A pool with an executor whose hook closes it and panics then. -/
def fragile : Pool String := handing [(Store.someQueue, ⟨0, ⟨[.close], some outage⟩⟩)]

/-- The loop has ended, and the shutdown has called the hook. -/
def wrecked : Service String :=
  (summoned fragile).run fragile <|
    List.replicate 4 (.go 1) ++ List.replicate 3 (.go 0) ++ List.replicate 3 (.go 1)

set_option maxRecDepth 2000 in
/-- A shutdown that may take too long panics when it has found the pool running, and the pool stays
as it has left it: it cannot be started, and another shutdown does nothing.  A hook that panics
does the same to a shutdown that has time enough. -/
theorem stranded_patient :
    (summoned patient).Reached patient ∧ (summoned patient).Calls 1 ∧
    (summoned patient).world.pool.status = .running ∧
    Runs patient.shutdown ((informed patient).said 1) (.panic deadlineOverflow) ∧
    (informed patient).world.pool.status = .draining ∧
    patient.start (informed patient).world = ((informed patient).world, .error .alreadyRunning) ∧
    Returns patient.shutdown (((informed patient).run patient [.shutdown, .go 2]).said 2) (.ok ()) ∧
    ((informed patient).run patient [.shutdown, .go 2]).world.pool.status = .draining ∧
    (fragile.Accepted (handingRegistrations [(Store.someQueue, ⟨0, ⟨[.close], some outage⟩⟩)]) ∧
      wrecked.Reached fragile ∧ Runs fragile.shutdown (wrecked.said 1) (.panic outage) ∧
      wrecked.world.pool.status = .draining ∧
      fragile.start wrecked.world = (wrecked.world, .error .alreadyRunning) ∧
      Returns fragile.shutdown ((wrecked.run fragile [.shutdown, .go 2]).said 2) (.ok ()) ∧
      (wrecked.run fragile [.shutdown, .go 2]).world.pool.status = .draining) := by
  have hreached : (summoned patient).Reached patient := ⟨_, _, _, _, rfl⟩
  have hinformed : (informed patient).Reached patient := hreached.run (.go 1 :: [.go 1, .go 1])
  have hduty : (informed patient).duty 1 = some .shutdown := rfl
  obtain ⟨left, hruns⟩ := hinformed.accounted.ran hduty
  have hwrecked : wrecked.Reached fragile := Service.Reached.run ⟨_, _, _, _, rfl⟩ _
  have hone : wrecked.duty 1 = some .shutdown := rfl
  obtain ⟨_, hbroken⟩ := hwrecked.accounted.ran hone
  refine ⟨hreached, ⟨rfl, Option.some_ne_none false, rfl⟩, rfl, ?_, rfl, rfl, .cons .nil, rfl,
    rfl, hwrecked, ?_, rfl, rfl, .cons .nil, rfl⟩
  · exact (panics_iff hruns).2 rfl
  · exact (panics_iff hbroken).2 rfl

end Pool

end LeaseQueue
