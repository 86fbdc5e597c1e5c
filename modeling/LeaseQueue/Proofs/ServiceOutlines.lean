import LeaseQueue.Proofs.ServiceRuns
import LeaseQueue.Proofs.StopStages

/-!
# The outline of a service

What becomes of a pool depends on little of the world: its state, the entries of its loops, which
processes are there and which of them have been called off, and how many jobs the executors have.
The outline of a service keeps just that, with the account of the processes, and
`Service.outline_answered` says what the answer to a request does to it.

`Outline.Change` lists what a move can do to the outline, with all that is known when it happens.
What the life of a pool keeps is proved from this list.
-/

set_option autoImplicit false

namespace LeaseQueue

variable {α : Type}

open Process

/-! ## Outlines -/

/-- All that the life of a pool depends on, with the account of its processes. -/
structure Outline (α : Type) where
  pool : PoolState
  loops : List LoopEntry
  /-- How many unfinished jobs an executor has. -/
  active : ExecutorId → Option Nat
  /-- The processes that are there, and whether they have been called off. -/
  fiber : FiberId → Option Bool
  nextFiber : FiberId
  duty : FiberId → Option (Duty α)
  said : FiberId → List (Exchange (Job α))
  starts : Nat
  stopper : Option FiberId

/-- The outline of a sketch with an account. -/
def World.Sketch.outline (d : World.Sketch (Job α) (Except PoolError Unit))
    (duty : FiberId → Option (Duty α)) (said : FiberId → List (Exchange (Job α))) (starts : Nat)
    (stopper : Option FiberId) : Outline α where
  pool := d.pool
  loops := d.loops
  active := d.active
  fiber id := (d.standing id).map Prod.snd
  nextFiber := d.nextFiber
  duty := duty
  said := said
  starts := starts
  stopper := stopper

/-- The outline of a service. -/
def Service.outline (s : Service α) : Outline α :=
  s.world.sketch.outline s.duty s.said s.starts s.stopper

namespace Outline

/-- The status after somebody has asked to take the stopping over. -/
def begun (o : Outline α) (running : Bool) : Outline α :=
  if running then { o with pool := { o.pool with status := .draining } } else o

/-- One more process, with a duty. -/
def added (o : Outline α) (duty : Duty α) : Outline α :=
  { o with
    fiber := Function.update o.fiber o.nextFiber (some false)
    duty := Function.update o.duty o.nextFiber (some duty)
    nextFiber := o.nextFiber + 1 }

/-- The number of unfinished jobs of an executor has changed. -/
def counted (o : Outline α) (e : ExecutorId) (f : Nat → Nat) : Outline α :=
  { o with active := Function.update o.active e ((o.active e).map f) }

/-- A loop has let others know what it is doing. -/
def published (o : Outline α) (loop : LoopId) (state : LoopState) : Outline α :=
  { o with loops := o.loops.modify loop fun l => { l with state := state } }

/-- A job has been handed over. -/
def handedOver (o : Outline α) (e : ExecutorId) (job : Job α) : Outline α :=
  (o.counted e (· + 1)).added (.work e job)

/-- Processes have been called off. -/
def calledOff (o : Outline α) (ids : List FiberId) : Outline α :=
  { o with fiber := fun k => if k ∈ ids then (o.fiber k).map fun _ => true else o.fiber k }

/-- What the answer to a request of a process changes. -/
def after (o : Outline α) (id : FiberId) : Exchange (Job α) → Outline α
  | ⟨.publish loop state, _⟩ => o.published loop state
  | ⟨.handOver e job, _⟩ => o.handedOver e job
  | ⟨.signalStop on, _⟩ =>
    { o with pool := { o.pool with signal := o.pool.signal.apply (.say on) } }
  | ⟨.beginDraining, running⟩ => o.begun running
  | ⟨.takeLoops, _⟩ => { o with pool := { o.pool with fibers := [] } }
  | ⟨.abort ids, _⟩ => o.calledOff ids
  | ⟨.enterHook _, _⟩ => { o with pool := { o.pool with executorsShutDown := true } }
  | ⟨.endDraining, _⟩ =>
    { o with pool := { o.pool with status := .stopped }, stopper := some id }
  | _ => o

/-- A process has asked and been told. -/
def heard (o : Outline α) (id : FiberId) (x : Exchange (Job α)) : Outline α :=
  { o with said := Function.update o.said id (o.said id ++ [x]) }

/-- A process is gone. -/
def without (o : Outline α) (id : FiberId) : Outline α :=
  { o with fiber := Function.update o.fiber id none }

/-- A start has succeeded. -/
def started (o : Outline α) (planned : List (PlannedLoop α)) : Outline α :=
  let loops := Pool.loopsFrom o.loops.length planned
  { o with
    pool := {
      status := .running
      signal := o.pool.signal.apply (.say false)
      executorsShutDown := o.pool.executorsShutDown
      loops := loops.map PollLoop.id
      fibers := List.range' o.nextFiber planned.length }
    loops := o.loops ++ loops.map fun l => ⟨l.shard, l.location, .idle⟩
    fiber := fun k =>
      if k < o.nextFiber then o.fiber k else (loops[k - o.nextFiber]?).map fun _ => false
    nextFiber := o.nextFiber + planned.length
    duty := fun k =>
      if k < o.nextFiber then o.duty k
      else (loops[k - o.nextFiber]?).map (.loop (o.starts + 1))
    starts := o.starts + 1 }

/-- What an answer says of the state in which it is given. -/
def Tells (o : Outline α) : Exchange (Job α) → Prop
  | ⟨.beginDraining, running⟩ => running = decide (o.pool.status = .running)
  | ⟨.takeLoops, loops⟩ => loops = o.pool.fibers
  | ⟨.ended loops _, ended⟩ => ended = true → ∀ k ∈ loops, o.fiber k = none
  | ⟨.drained e _, drained⟩ => drained = true → o.active e = some 0
  | _ => True

/-- What a move can do to an outline. -/
inductive Change (p : Pool α) (o : Outline α) : Outline α → Prop
  | stay : Change p o o
  /-- A start takes the sign to stop back before it fails. -/
  | lower (hstatus : o.pool.status = .stopped) (hopen : o.pool.executorsShutDown = false) :
    Change p o { o with pool := { o.pool with signal := o.pool.signal.apply (.say false) } }
  | start {planned : List (PlannedLoop α)} (hstatus : o.pool.status = .stopped)
    (hopen : o.pool.executorsShutDown = false) (hplan : p.plan = .ok planned) :
    Change p o (o.started planned)
  /-- A shutdown is called. -/
  | call : Change p o (o.added .shutdown)
  /-- A loop or a job asks something that does not concern the pool. -/
  | say {id : FiberId} {duty : Duty α} {called : Bool} (x : Exchange (Job α))
    (hfiber : o.fiber id = some called) (hduty : o.duty id = some duty)
    (hwork : duty ≠ .shutdown) (hneutral : x.1.Neutral) : Change p o (o.heard id x)
  | publish {id : FiberId} {start : Nat} {l : PollLoop α} {called : Bool} (state : LoopState)
    (hfiber : o.fiber id = some called) (hduty : o.duty id = some (.loop start l)) :
    Change p o ((o.published l.id state).heard id ⟨.publish l.id state, ()⟩)
  | handOver {id : FiberId} {start : Nat} {l : PollLoop α} {called : Bool} {e : ExecutorId}
    (record : TaskRecord) (hfiber : o.fiber id = some called)
    (hduty : o.duty id = some (.loop start l)) (hboundary : l.runner.boundary = .handedOver e) :
    Change p o ((o.handedOver e ⟨l.runner.processor, record⟩).heard id
      ⟨.handOver e ⟨l.runner.processor, record⟩, ()⟩)
  /-- A shutdown goes on to its next stage. -/
  | stop {id : FiberId} {called : Bool} (x : Exchange (Job α)) (hfiber : o.fiber id = some called)
    (hduty : o.duty id = some .shutdown)
    (hgoes : (p.stage (o.said id)).Goes p x (p.stage (o.said id ++ [x]))) (htells : o.Tells x) :
    Change p o ((o.after id x).heard id x)
  /-- A loop begins its next round. -/
  | again {id : FiberId} {start : Nat} {l : PollLoop α} {called : Bool}
    (hfiber : o.fiber id = some called) (hduty : o.duty id = some (.loop start l)) :
    Change p o { o with said := Function.update o.said id [] }
  | endLoop {id : FiberId} {start : Nat} {l : PollLoop α} {called : Bool}
    (hfiber : o.fiber id = some called) (hduty : o.duty id = some (.loop start l))
    (hend : Returns l.round (o.said id) false ∨ ∃ cause, Runs l.round (o.said id) (.panic cause)) :
    Change p o (o.without id)
  /-- A loop that was called off is gone. -/
  | dropLoop {id : FiberId} {start : Nat} {l : PollLoop α} (hfiber : o.fiber id = some true)
    (hduty : o.duty id = some (.loop start l)) : Change p o (o.without id)
  | endWork {id : FiberId} {e : ExecutorId} {job : Job α} {called : Bool}
    (hfiber : o.fiber id = some called) (hduty : o.duty id = some (.work e job)) :
    Change p o ((o.counted e (· - 1)).without id)
  /-- A shutdown is over or given up. -/
  | endShutdown {id : FiberId} {called : Bool} (hfiber : o.fiber id = some called)
    (hduty : o.duty id = some .shutdown) : Change p o (o.without id)

/-- Processes that are to come have no duty and have said nothing. -/
def Fresh (o : Outline α) : Prop :=
  ∀ k, o.nextFiber ≤ k → o.duty k = none ∧ o.said k = [] ∧ o.fiber k = none

/-- Requests that only concern the stores, the time and other processes change no outline. -/
theorem after_of_neutral {o : Outline α} {id : FiberId} {x : Exchange (Job α)}
    (h : x.1.Neutral) : o.after id x = o := by
  obtain ⟨r, reply⟩ := x
  cases r <;> first | rfl | exact h.elim

/-- What a hook does changes no outline. -/
theorem after_hookStep (o : Outline α) (id : FiberId) (e : ExecutorId) (deadline : Tick)
    (step : HookStep) (reply : (step.request e deadline : Request (Job α)).Reply) :
    o.after id ⟨step.request e deadline, reply⟩ = o := by
  cases step <;> rfl

end Outline

/-! ## Requests -/

namespace World.Sketch

variable (d : World.Sketch (Job α) (Except PoolError Unit)) (duty : FiberId → Option (Duty α))
  (said : FiberId → List (Exchange (Job α))) (starts : Nat) (stopper : Option FiberId)

/-- A process that is set in the sketch is set in the outline. -/
theorem outline_set (id : FiberId)
    (standing : Option (Body (Job α) (Except PoolError Unit) × Bool)) :
    (d.set id standing).outline duty said starts stopper =
      { d.outline duty said starts stopper with
        fiber := Function.update (d.outline duty said starts stopper).fiber id
          (standing.map Prod.snd) } := by
  unfold set outline
  congr 1
  funext k
  simp only [Function.update_apply]
  split <;> rfl

/-- The outline does not see what is left of a process. -/
theorem outline_goOn (id : FiberId) (left : Body (Job α) (Except PoolError Unit)) :
    (d.set id ((d.standing id).map fun x => (left, x.2))).outline duty said starts stopper =
      d.outline duty said starts stopper := by
  rw [outline_set]
  have hsame : ((d.standing id).map fun x => (left, x.2)).map Prod.snd =
      (d.outline duty said starts stopper).fiber id := by
    rw [Option.map_map]
    rfl
  rw [hsame, Function.update_eq_self]

end World.Sketch

namespace Service

variable {p : Pool α} {s : Service α}

/-- What an answer says is so. -/
theorem tells_perform {w : World (Job α) (Except PoolError Unit)} {id : FiberId}
    {r : Request (Job α)} {reply : r.Reply}
    (h : s.world.perform Job.work id r = (w, .answer reply)) : s.outline.Tells ⟨r, reply⟩ := by
  cases r with
  | beginDraining =>
    simp only [World.perform] at h
    split at h
    · next hrunning =>
      cases h
      exact (decide_eq_true hrunning).symm
    · next hrunning =>
      cases h
      exact (decide_eq_false hrunning).symm
  | takeLoops =>
    cases h
    rfl
  | ended loops deadline =>
    rintro (rfl : (reply : Bool) = true) k hk
    simp only [World.perform] at h
    split at h
    · next hall =>
      have hgone := List.all_eq_true.1 hall k hk
      cases hfiber : s.world.fibers.get? k with
      | none => simp [outline, World.Sketch.outline, World.sketch, hfiber]
      | some f => simp [OrderedMap.contains, hfiber] at hgone
    · split at h <;> cases h
  | drained e deadline =>
    rintro (rfl : (reply : Bool) = true)
    simp only [World.perform] at h
    split at h
    · next hdrained =>
      -- an executor that is not there is not closed
      unfold World.executor at hdrained
      cases he : s.world.executors[e]? with
      | none =>
        rw [he] at hdrained
        cases hdrained
      | some x =>
        rw [he] at hdrained
        have hactive : x.active = 0 := by
          simp only [Executor.isDrained, Option.getD_some, Bool.and_eq_true, beq_iff_eq] at hdrained
          exact hdrained.2
        simp [outline, World.Sketch.outline, World.sketch, he, hactive]
    · split at h <;> cases h
  | _ => trivial

/-- A neutral request leaves the outline as it is. -/
theorem outline_of_neutral {w : World (Job α) (Except PoolError Unit)} {id : FiberId}
    {r : Request (Job α)} {reply : Reply r.Reply} (hneutral : r.Neutral)
    (h : s.world.perform Job.work id r = (w, reply)) :
    w.sketch.outline (s.dutiesAfter r) s.said s.starts (s.stopperAfter id r) = s.outline := by
  have hsame : w.sketch = s.world.sketch :=
    (congrArg (fun x => x.1.sketch) h).symm.trans (World.sketch_perform_of_neutral hneutral)
  have hduty : s.dutiesAfter r = s.duty := by
    cases r <;> first | rfl | exact hneutral.elim
  have hstopper : s.stopperAfter id r = s.stopper := by
    cases r <;> first | rfl | exact hneutral.elim
  rw [hsame, hduty, hstopper]
  rfl

/-- The answer to a request changes the outline as it should. -/
theorem outline_perform {w : World (Job α) (Except PoolError Unit)} {id : FiberId}
    {r : Request (Job α)} {reply : r.Reply}
    (h : s.world.perform Job.work id r = (w, .answer reply)) :
    w.sketch.outline (s.dutiesAfter r) s.said s.starts (s.stopperAfter id r) =
      s.outline.after id ⟨r, reply⟩ := by
  by_cases hneutral : r.Neutral
  · rw [Outline.after_of_neutral hneutral]
    exact outline_of_neutral hneutral h
  have hw : (s.world.perform Job.work id r).1 = w := congrArg Prod.fst h
  cases r with
  | handOver e job =>
    have hsketch := hw ▸ World.sketch_handOver Job.work s.world id e job
    rw [hsketch]
    exact congrArg (fun o : Outline α => { o with nextFiber := s.world.nextFiber + 1 })
      (World.Sketch.outline_set (s.world.sketch.count e (· + 1))
        (s.dutiesAfter (.handOver e job)) s.said s.starts s.stopper s.world.nextFiber
        (some (.job e job.work, false)))
  | close e =>
    have hsketch := hw ▸ World.sketch_close Job.work s.world id e
    rw [hsketch]
    rfl
  | abort ids =>
    cases h
    rw [World.sketch_abort]
    have hfiber : ∀ k, ((if k ∈ ids then (s.world.sketch.standing k).map fun x => (x.1, true)
        else s.world.sketch.standing k).map Prod.snd) =
        if k ∈ ids then (s.outline.fiber k).map fun _ => true else s.outline.fiber k := by
      intro k
      split
      · simp [outline, World.Sketch.outline, Function.comp_def]
      · rfl
    exact congrArg (fun fiber => { s.outline with fiber := fiber }) (funext hfiber)
  | beginDraining =>
    simp only [World.perform] at h
    split at h <;> cases h <;> rfl
  | publish loop state => cases h; rfl
  | signalStop on => cases h; rfl
  | takeLoops => cases h; rfl
  | enterHook _ => cases h; rfl
  | endDraining => cases h; rfl
  | _ => exact absurd trivial hneutral

/-- Only what is handed over is new; everything else is left as it was. -/
theorem standing_perform {w : World (Job α) (Except PoolError Unit)} {id k : FiberId}
    {r : Request (Job α)} {reply : Reply r.Reply}
    {body : Body (Job α) (Except PoolError Unit)} {called : Bool}
    (h : s.world.perform Job.work id r = (w, reply))
    (hk : w.sketch.standing k = some (body, called)) :
    (∃ called', s.world.sketch.standing k = some (body, called')) ∨
      ∃ e job, r = .handOver e job ∧ k = s.world.nextFiber ∧ body = .job e job.work := by
  have hw : (s.world.perform Job.work id r).1 = w := congrArg Prod.fst h
  by_cases hneutral : r.Neutral
  · rw [← hw, World.sketch_perform_of_neutral hneutral] at hk
    exact .inl ⟨called, hk⟩
  cases r with
  | handOver e job =>
    have hsketch := hw ▸ World.sketch_handOver Job.work s.world id e job
    rw [hsketch] at hk
    change Function.update s.world.sketch.standing s.world.nextFiber _ k = _ at hk
    rw [Function.update_apply] at hk
    split at hk
    · next hnew =>
      cases hk
      exact .inr ⟨e, job, rfl, hnew, rfl⟩
    · exact .inl ⟨called, hk⟩
  | abort ids =>
    cases h
    rw [World.sketch_abort] at hk
    dsimp only at hk
    split at hk
    · obtain ⟨⟨body', called'⟩, hstanding, heq⟩ := Option.map_eq_some_iff.1 hk
      cases heq
      exact .inl ⟨called', hstanding⟩
    · exact .inl ⟨called, hk⟩
  | beginDraining =>
    simp only [World.perform] at hw
    split at hw
    · subst hw
      exact .inl ⟨called, hk⟩
    · subst hw
      exact .inl ⟨called, hk⟩
  | close e =>
    rw [← hw, World.sketch_close] at hk
    exact .inl ⟨called, hk⟩
  | publish _ _ | signalStop _ | takeLoops | enterHook _ | endDraining =>
    subst hw
    exact .inl ⟨called, hk⟩
  | _ => exact absurd trivial hneutral

/-- An answered request changes the outline by what it does, and is heard. -/
theorem outline_answered {w : World (Job α) (Except PoolError Unit)} {id : FiberId}
    {r : Request (Job α)} {reply : r.Reply} (left : Body (Job α) (Except PoolError Unit))
    (h : s.world.perform Job.work id r = (w, .answer reply)) :
    (s.answered w id ⟨r, reply⟩ left).outline =
      (s.outline.after id ⟨r, reply⟩).heard id ⟨r, reply⟩ := by
  unfold outline answered
  rw [World.sketch_goOn, World.Sketch.outline_goOn]
  exact congrArg (fun o : Outline α => o.heard id ⟨r, reply⟩) (outline_perform h)

end Service

/-! ## Processes to come -/

namespace Outline

variable {p : Pool α} {o o' : Outline α}

/-- The number of a process is one that has been given. -/
theorem Fresh.lt (h : o.Fresh) {id : FiberId} {called : Bool} (hfiber : o.fiber id = some called) :
    id < o.nextFiber := by
  refine Nat.lt_of_not_le fun hle => ?_
  rw [(h id hle).2.2] at hfiber
  cases hfiber

/-- A number that has a duty is one that has been given. -/
theorem Fresh.lt_of_duty (h : o.Fresh) {id : FiberId} {duty : Duty α}
    (hduty : o.duty id = some duty) : id < o.nextFiber := by
  refine Nat.lt_of_not_le fun hle => ?_
  rw [(h id hle).1] at hduty
  cases hduty

/-- A new process takes a new number. -/
theorem Fresh.added (h : o.Fresh) (duty : Duty α) : (o.added duty).Fresh := by
  intro k hk
  have hne : k ≠ o.nextFiber := Nat.ne_of_gt hk
  obtain ⟨hduty, hsaid, hfiber⟩ := h k (Nat.le_of_succ_le hk)
  refine ⟨?_, hsaid, ?_⟩
  · exact (Function.update_of_ne hne _ _).trans hduty
  · exact (Function.update_of_ne hne _ _).trans hfiber

/-- A request keeps the numbers of later processes free. -/
theorem Fresh.after (h : o.Fresh) (id : FiberId) (x : Exchange (Job α)) : (o.after id x).Fresh := by
  by_cases hneutral : x.1.Neutral
  · rw [after_of_neutral hneutral]
    exact h
  obtain ⟨r, reply⟩ := x
  cases r with
  | handOver e job =>
    have hcounted : (o.counted e (· + 1)).Fresh := fun k hk => h k hk
    exact hcounted.added (.work e job)
  | abort ids =>
    intro k hk
    obtain ⟨hduty, hsaid, hfiber⟩ := h k hk
    refine ⟨hduty, hsaid, ?_⟩
    simp only [Outline.after, calledOff, hfiber, Option.map_none, ite_self]
  | beginDraining =>
    cases (reply : Bool) with
    | true => exact fun k hk => h k hk
    | false => exact h
  | close _ | publish _ _ | signalStop _ | takeLoops | enterHook _ | endDraining =>
    exact fun k hk => h k hk
  | _ => exact absurd trivial hneutral

/-- A request takes no number back. -/
theorem nextFiber_le_after (o : Outline α) (id : FiberId) (x : Exchange (Job α)) :
    o.nextFiber ≤ (o.after id x).nextFiber := by
  obtain ⟨r, reply⟩ := x
  cases r with
  | handOver e job => exact Nat.le_succ _
  | beginDraining => cases (reply : Bool) <;> exact Nat.le_refl _
  | _ => exact Nat.le_refl _

/-- What is said keeps the numbers of later processes free. -/
theorem Fresh.heard (h : o.Fresh) {id : FiberId} (hid : id < o.nextFiber) (x : Exchange (Job α)) :
    (o.heard id x).Fresh := by
  intro k hk
  have hne : k ≠ id := Nat.ne_of_gt (Nat.lt_of_lt_of_le hid hk)
  obtain ⟨hduty, hsaid, hfiber⟩ := h k hk
  exact ⟨hduty, (Function.update_of_ne hne _ _).trans hsaid, hfiber⟩

/-- A process that goes keeps the numbers of later processes free. -/
theorem Fresh.without (h : o.Fresh) (id : FiberId) : (o.without id).Fresh := by
  intro k hk
  obtain ⟨hduty, hsaid, hfiber⟩ := h k hk
  refine ⟨hduty, hsaid, ?_⟩
  simp only [Outline.without, Function.update_apply, hfiber, ite_self]

/-- Every change keeps the numbers of later processes free. -/
theorem Fresh.change (h : o.Fresh) (hchange : o.Change p o') : o'.Fresh := by
  have hafter : ∀ {id : FiberId} {called : Bool} (x : Exchange (Job α)),
      o.fiber id = some called → ((o.after id x).heard id x).Fresh := fun x hfiber =>
    (h.after _ x).heard (Nat.lt_of_lt_of_le (h.lt hfiber) (nextFiber_le_after o _ x)) x
  cases hchange with
  | stay => exact h
  | lower hstatus hopen => exact fun k hk => h k hk
  | @start planned hstatus hopen hplan =>
    intro k hk
    have hle : o.nextFiber ≤ k := Nat.le_trans (Nat.le_add_right _ _) hk
    have hnone : (Pool.loopsFrom o.loops.length planned)[k - o.nextFiber]? = none := by
      rw [List.getElem?_eq_none_iff, Pool.length_loopsFrom]
      exact Nat.le_sub_of_add_le' hk
    refine ⟨?_, (h k hle).2.1, ?_⟩
    · simp only [started, if_neg (Nat.not_lt_of_le hle), hnone, Option.map_none]
    · simp only [started, if_neg (Nat.not_lt_of_le hle), hnone, Option.map_none]
  | call => exact h.added .shutdown
  | say x hfiber hduty hwork hneutral => exact h.heard (h.lt hfiber) x
  | @publish id start l called state hfiber hduty => exact hafter ⟨.publish l.id state, ()⟩ hfiber
  | @handOver id start l called e record hfiber hduty hboundary =>
    exact hafter ⟨.handOver e ⟨l.runner.processor, record⟩, ()⟩ hfiber
  | stop x hfiber hduty hgoes htells => exact hafter x hfiber
  | @again id start l called hfiber hduty =>
    intro k hk
    have hne : k ≠ id := Nat.ne_of_gt (Nat.lt_of_lt_of_le (h.lt hfiber) hk)
    obtain ⟨hduty, hsaid, hfiber⟩ := h k hk
    exact ⟨hduty, (Function.update_of_ne hne _ _).trans hsaid, hfiber⟩
  | endLoop hfiber hduty hend => exact h.without _
  | dropLoop hfiber hduty => exact h.without _
  | @endWork id e job called hfiber hduty =>
    have hcounted : (o.counted e (· - 1)).Fresh := fun k hk => h k hk
    exact hcounted.without id
  | endShutdown hfiber hduty => exact h.without _

end Outline

end LeaseQueue
