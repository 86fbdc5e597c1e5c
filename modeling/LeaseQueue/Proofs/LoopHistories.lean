import LeaseQueue.Proofs.LoopLives
import LeaseQueue.Proofs.LoopPlacement

/-!
# The loops of a pool live whole lives

A start makes the entry of each of its loops and lets others see it idle.  From then on nobody but
the loop itself says in its name what it is doing, so in a pool in service every loop leads a life
in the sense of `PollLoop.Lives` (`Service.Reached.living`), whatever starts, shutdowns, jobs and
other loops there are meanwhile.  What is known of such lives is therefore known of the loops of
every pool.  Main statement: `Service.Reached.loop_course`, that they go through whole cycles.
-/

set_option autoImplicit false

namespace LeaseQueue

variable {α : Type}

open Process

/-- A shutdown and a job say nothing in the name of a loop, and a loop speaks for itself only. -/
theorem Duty.Asks.said_eq_none {p : Pool α} {duty : Duty α} {es : List (Exchange (Job α))}
    {r : Request (Job α)} (h : duty.Asks p es r) {loop : LoopId}
    (hother : ∀ start l, duty = .loop start l → l.id ≠ loop) : r.said? loop = none := by
  have hneutral : r.Neutral → r.said? loop = none := by
    intro hneutral
    cases r <;> first | rfl | exact hneutral.elim
  cases duty with
  | loop start l =>
    rcases l.only_round.of_asks h with (hasks | ⟨e, record, -, rfl⟩) | ⟨state, rfl⟩
    · exact hneutral hasks
    · rfl
    · exact if_neg (hother start l rfl)
  | work e job => exact hneutral (job.only_work.of_asks h).neutral
  | shutdown =>
    obtain ⟨reply⟩ := r.nonempty_reply
    have hgoes := Pool.goes_of_asks h reply
    generalize p.stage es = stage, p.stage (es ++ [⟨r, reply⟩]) = next at hgoes
    cases hgoes with
    | hook deadline inTime x step steps rest reply => cases step <;> rfl
    | _ => rfl

/-- The polls of a loop say nothing in its name. -/
theorem PollLoop.discreet_poll (l : PollLoop α) : l.Discreet l.runner.poll := by
  refine l.runner.only_poll.mono fun r hasks => ?_
  rcases hasks with hneutral | ⟨e, record, -, rfl⟩
  · cases r <;> first | rfl | exact hneutral.elim
  · rfl

namespace Service

variable {p : Pool α} {s : Service α}

/-- The loops that are there have lived, each from a world on in which others saw it idle. -/
def Living (s : Service α) : Prop :=
  ∀ (id : FiberId) (start : Nat) (l : PollLoop α) (body : Body (Job α) (Except PoolError Unit))
    (called : Bool), s.duty id = some (.loop start l) →
    s.world.sketch.standing id = some (body, called) →
      ∃ left w₀ n es, body = .loop l.round left ∧
        (w₀ : World (Job α) (Except PoolError Unit)).seen l.id = some .idle ∧
        l.Lives (fun _ => l.runner.poll) Job.work id w₀ n es left s.world

/-- A loop lives on as long as nobody touches it or speaks in its name. -/
theorem Living.of_seen (h : s.Living) {w : World (Job α) (Except PoolError Unit)} {id : FiberId}
    {start : Nat} {l : PollLoop α} {body : Body (Job α) (Except PoolError Unit)} {called : Bool}
    (hduty : s.duty id = some (.loop start l))
    (hstanding : s.world.sketch.standing id = some (body, called))
    (hseen : w.seen l.id = s.world.seen l.id) :
    ∃ left w₀ n es, body = .loop l.round left ∧
      (w₀ : World (Job α) (Except PoolError Unit)).seen l.id = some .idle ∧
      l.Lives (fun _ => l.runner.poll) Job.work id w₀ n es left w := by
  obtain ⟨left, w₀, n, es, hbody, hidle, hlives⟩ := h _ _ _ _ _ hduty hstanding
  exact ⟨left, w₀, n, es, hbody, hidle, hlives.meanwhile hseen⟩

/-- A start leaves the lives of the loops as they are, and begins those of the new ones. -/
theorem Living.start (h : s.Living) (hs : s.Reached p) : (s.start p).Living := by
  have hfresh : ∀ k, s.world.nextFiber ≤ k → s.world.sketch.standing k = none :=
    fun k hk => Option.map_eq_none_iff.1 (hs.accounted.fresh k hk).2.2
  have hspec := p.start_spec s.world
  unfold Service.start
  generalize p.start s.world = result at hspec
  cases hspec with
  | busy hstatus => exact h
  | shut hstatus hshut => exact h
  | fail hstatus hopen hplan => exact fun _ _ _ _ _ hduty hk => h.of_seen hduty hk rfl
  | @succeed planned hstatus hopen hplan =>
    intro id start l body called hduty hk
    have hseen : ∀ i, (planned.foldl Pool.startLoop s.world.emptied).seen i =
        ((s.world.loops ++ (Pool.loopsFrom s.world.loops.length planned).map fun l =>
          (⟨l.shard, l.location, .idle⟩ : LoopEntry))[i]?).map LoopEntry.state := fun i =>
      congrArg (fun d : World.Sketch (Job α) (Except PoolError Unit) =>
        (d.loops[i]?).map LoopEntry.state)
        (Pool.sketch_startLoops (w := s.world.emptied) planned hfresh)
    dsimp only at hduty hk ⊢
    rw [Pool.sketch_startLoops (w := s.world.emptied) planned hfresh] at hk
    change (if id < s.world.nextFiber then s.world.sketch.standing id else
      ((Pool.loopsFrom s.world.loops.length planned)[id - s.world.nextFiber]?).map _) = _ at hk
    unfold dutiesAfterStart at hduty
    rw [hplan] at hduty
    split at hk
    · next hlt =>
      rw [if_pos hlt] at hduty
      refine h.of_seen hduty hk ((hseen l.id).trans ?_)
      exact congrArg (Option.map LoopEntry.state)
        (List.getElem?_append_left (hs.placed.lt_length hduty))
    · next hlt =>
      rw [if_neg hlt] at hduty
      change ((Pool.loopsFrom s.world.loops.length planned)[id - s.world.nextFiber]?).map _ = _
        at hduty
      obtain ⟨l', hl, hloop⟩ := Option.map_eq_some_iff.1 hduty
      cases hloop
      rw [hl] at hk
      cases hk
      have hidle : (planned.foldl Pool.startLoop s.world.emptied).seen l.id = some .idle := by
        rw [hseen, (Pool.getElem?_loopsFrom hl).1, List.getElem?_append_right (Nat.le_add_right ..),
          Nat.add_sub_cancel_left, List.getElem?_map, hl]
        rfl
      have hborn : l.Lives (fun _ => l.runner.poll) Job.work id
          (planned.foldl Pool.startLoop s.world.emptied) 0 [] (l.roundOf l.runner.poll) _ := .start
      exact ⟨l.round, _, 0, [], rfl, hidle, hborn⟩

/-- A request of any process is part of the life of its loop, if it is one, and leaves the others
theirs. -/
theorem Living.ask (h : s.Living) (hs : s.Reached p) {id : FiberId}
    {f : Fiber (Job α) (Except PoolError Unit)} (hf : s.world.fibers.get? id = some f)
    {r : Request (Job α)} {next : r.Reply → Body (Job α) (Except PoolError Unit)}
    (hbody : f.body.request? = some ⟨r, next⟩) : (s.ask id r next).Living := by
  obtain ⟨duty, hduty, hleft⟩ := hs.accounted.left (standing_of_fiber hf)
  have hasks := hleft.asks hbody
  unfold Service.ask
  split
  · next w condition hwait =>
    have hsame : w.sketch = s.world.sketch := World.sketch_of_wait hwait
    intro k start l body called hloop hk
    exact h.of_seen hloop (hsame ▸ hk) (congrArg (fun d : World.Sketch (Job α) _ =>
      (d.loops[l.id]?).map LoopEntry.state) hsame)
  · next w reply hanswer =>
    intro k start l body called hloop hk
    unfold answered at hloop hk ⊢
    dsimp only at hloop hk ⊢
    have hbefore : s.duty k = some (.loop start l) := by
      cases r with
      | handOver e job =>
        change Function.update s.duty s.world.nextFiber _ k = _ at hloop
        rw [Function.update_apply] at hloop
        split at hloop
        · cases hloop
        · exact hloop
      | _ => exact hloop
    rw [World.sketch_goOn] at hk
    change Function.update w.sketch.standing id _ k = _ at hk
    by_cases hself : k = id
    · subst hself
      rw [Function.update_self] at hk
      obtain ⟨x, -, hx⟩ := Option.map_eq_some_iff.1 hk
      cases hx
      obtain ⟨left, w₀, n, es, hleft', hidle, hlives⟩ :=
        h _ _ _ _ _ hbefore (standing_of_fiber hf)
      rw [hleft'] at hbody
      cases left with
      | done _ => cases hbody
      | panic _ => cases hbody
      | call r' next' =>
        cases hbody
        exact ⟨next' reply, w₀, n, _, rfl, hidle, (hlives.told hanswer).meanwhile rfl⟩
    · rw [Function.update_of_ne hself] at hk
      rcases standing_perform hanswer hk with ⟨called', hstanding⟩ | ⟨e, job, rfl, rfl, rfl⟩
      · refine h.of_seen hbefore hstanding ?_
        have hsaid : r.said? l.id = none := by
          refine hasks.said_eq_none fun start' l' hloop' hid => hself ?_
          exact hs.placed.distinct hbefore (hloop' ▸ hduty) hid.symm
        have hperform := World.seen_perform Job.work s.world id r l.id
        rw [hanswer, hsaid] at hperform
        exact hperform.trans Option.map_id'
      · exact absurd (hs.accounted.fresh.lt_of_duty hbefore) (Nat.lt_irrefl _)

/-- Processes that go leave the loops that stay as they are. -/
theorem Living.of_fewer (h : s.Living) {w : World (Job α) (Except PoolError Unit)}
    (hw : ∀ k, w.sketch.standing k = none ∨ w.sketch.standing k = s.world.sketch.standing k)
    (hloops : w.loops = s.world.loops) : ({ s with world := w } : Service α).Living := by
  intro id start l body called hduty hk
  rcases hw id with hgone | hsame
  · cases hgone.symm.trans hk
  · exact h.of_seen hduty (hsame ▸ hk) (congrArg (fun loops : List LoopEntry =>
      (loops[l.id]?).map LoopEntry.state) hloops)

/-- A loop whose round is over lives on in the next one, and any other process just goes. -/
theorem Living.finish (h : s.Living) (hs : s.Reached p) {id : FiberId}
    {f : Fiber (Job α) (Except PoolError Unit)} (hf : s.world.fibers.get? id = some f) :
    (s.finish id f.body).Living := by
  obtain ⟨duty, hduty, hleft⟩ := hs.accounted.left (standing_of_fiber hf)
  obtain ⟨body, held, called⟩ := f
  cases hleft with
  | @loop start l es left hruns =>
    by_cases hmore : left = .done true
    · subst hmore
      intro k start' l' body' called' hloop hk
      unfold Service.finish at hloop hk ⊢
      dsimp only at hloop hk ⊢
      rw [World.sketch_goOn] at hk
      change Function.update s.world.sketch.standing id _ k = _ at hk
      by_cases hself : k = id
      · subst hself
        rw [Function.update_self] at hk
        obtain ⟨x, -, hx⟩ := Option.map_eq_some_iff.1 hk
        cases hx
        cases hduty.symm.trans hloop
        obtain ⟨left, w₀, n, es, hleft, hidle, hlives⟩ :=
          h _ _ _ _ _ hduty (standing_of_fiber hf)
        cases hleft
        exact ⟨l.round, w₀, n + 1, es, rfl, hidle, hlives.again.meanwhile rfl⟩
      · rw [Function.update_of_ne hself] at hk
        exact h.of_seen hloop hk rfl
    · have hgone : s.finish id (.loop l.round left) = { s with world := s.world.dismiss id } := by
        unfold Service.finish
        split <;> simp_all
      rw [hgone]
      exact h.of_fewer (standing_dismiss s.world id) rfl
  | @work e job es left hruns =>
    refine h.of_fewer (fun k => ?_) rfl
    rcases standing_dismiss (s.world.setExecutor e (s.world.executor e).finish) id k with hk | hk
    · exact .inl hk
    · exact .inr hk
  | @shutdown es left hruns => exact h.of_fewer (standing_dismiss _ id) rfl

/-- A process that is dropped leaves the other loops their lives. -/
theorem Living.drop (h : s.Living) (id : FiberId) : (s.drop id).Living := by
  unfold Service.drop
  split
  · exact h
  · next f hf =>
    split
    · have hsketch := s.world.sketch_bury id f
      refine h.of_fewer (fun k => ?_) ?_
      · rw [hsketch]
        by_cases hk : k = id
        · exact .inl (hk ▸ Function.update_self ..)
        · refine .inr ((Function.update_of_ne hk _ _).trans ?_)
          split <;> rfl
      · refine (congrArg World.Sketch.loops hsketch).trans ?_
        cases f.body <;> rfl
    · exact h

/-- The loops live on whatever happens. -/
theorem Living.step (h : s.Living) (hs : s.Reached p) (m : Move α) : (s.step p m).Living := by
  cases m with
  | start => exact h.start hs
  | shutdown =>
    intro k start l body called hduty hk
    have hbefore : s.duty k = some (.loop start l) := by
      change Function.update s.duty s.world.nextFiber _ k = _ at hduty
      rw [Function.update_apply] at hduty
      split at hduty
      · cases hduty
      · exact hduty
    have hnew : k ≠ s.world.nextFiber := Nat.ne_of_lt (hs.accounted.fresh.lt_of_duty hbefore)
    unfold Service.step Service.shutdown at hk
    dsimp only at hk
    rw [World.sketch_spawn] at hk
    change Function.update s.world.sketch.standing s.world.nextFiber _ k = _ at hk
    rw [Function.update_of_ne hnew] at hk
    exact h.of_seen hbefore hk rfl
  | go id =>
    unfold Service.step Service.go
    dsimp only
    split
    · exact h
    · next f hf =>
      split
      · next r next hbody => exact h.ask hs hf hbody
      · exact h.finish hs hf
  | drop id => exact h.drop id
  | meanwhile surroundings => exact h.of_fewer (fun _ => .inr rfl) rfl

/-- Every loop of a pool in service lives among the other processes, since others first saw it
idle. -/
theorem Reached.living (h : s.Reached p) : s.Living := by
  obtain ⟨clock, shards, limits, moves, rfl⟩ := h
  have hboth := run_induction (P := fun s => s.Reached p ∧ s.Living)
    ⟨⟨clock, shards, limits, [], rfl⟩, fun _ _ _ _ _ hduty _ => by cases hduty⟩
    (fun s m h => ⟨h.1.run [m], h.2.step h.1 m⟩) moves
  exact hboth.2

/-- However a pool is used, every loop of it that is there is at a moment of whole cycles of its own
polls, and others see what it has said last. -/
theorem Reached.loop_course (h : s.Reached p) {id : FiberId} {start : Nat} {l : PollLoop α}
    {f : Fiber (Job α) (Except PoolError Unit)} (hcalm : l.Calm)
    (hduty : s.duty id = some (.loop start l)) (hf : s.world.fibers.get? id = some f) :
    ∃ left cycles n es, f.body = .loop l.round left ∧
      PollLoop.InTurn (fun _ => l.runner.poll) cycles ∧ l.Course cycles n es left s.world := by
  obtain ⟨left, w₀, n, es, hbody, hidle, hlives⟩ :=
    h.living _ _ _ _ _ hduty (standing_of_fiber hf)
  have hnow := hlives.seen hidle
  obtain ⟨before, rest, rfl, hturn, rfl, hruns⟩ := hlives.cycles
  obtain ⟨cycles, hcycles, hcourse⟩ :=
    PollLoop.course_of_runs hcalm (fun _ => l.discreet_poll) hturn hruns hnow
  exact ⟨left, cycles, _, _, hbody, hcycles, hcourse⟩

end Service

end LeaseQueue
