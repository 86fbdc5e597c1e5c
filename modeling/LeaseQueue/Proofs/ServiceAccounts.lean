import LeaseQueue.Proofs.LoopRounds
import LeaseQueue.Proofs.ServiceOutlines

/-!
# The account of a service

What is left of a process is what is left of its program after what it has asked and been told, so
what a process can do next is read from its program and its account (`Duty.Left.asks`).

Main statements: every move of an accounted service does to its outline one of the things that
`Outline.Change` lists, and leaves an account behind (`Service.Accounted.change`,
`Service.Accounted.step`).  `Service.Reached.induction_from` turns that into a principle: what holds
of a pool that was never started and is kept by every change holds of every service that can be
reached, and neither the programs nor the world have to be looked at again.
-/

set_option autoImplicit false

namespace LeaseQueue

variable {α : Type}

open Process

/-! ## Processes and their programs -/

/-- What is left of a process with a duty, after it has asked and been told this. -/
inductive Duty.Left (p : Pool α) :
    Duty α → List (Exchange (Job α)) → Body (Job α) (Except PoolError Unit) → Prop
  | loop {start : Nat} {l : PollLoop α} {es : List (Exchange (Job α))}
    {left : Process (Job α) Bool} (h : Runs l.round es left) :
    Left p (.loop start l) es (.loop l.round left)
  | work {e : ExecutorId} {job : Job α} {es : List (Exchange (Job α))}
    {left : Process (Job α) Unit} (h : Runs job.work es left) :
    Left p (.work e job) es (.job e left)
  | shutdown {es : List (Exchange (Job α))} {left : Process (Job α) (Except PoolError Unit)}
    (h : Runs p.shutdown es left) : Left p .shutdown es (.operation left)

/-- What a process with a duty asks next. -/
def Duty.Asks (p : Pool α) (es : List (Exchange (Job α))) (r : Request (Job α)) : Duty α → Prop
  | .loop _ l => Process.Asks l.round es r
  | .work _ job => Process.Asks job.work es r
  | .shutdown => Process.Asks p.shutdown es r

section Left

variable {p : Pool α} {duty : Duty α} {es : List (Exchange (Job α))}
  {body : Body (Job α) (Except PoolError Unit)} {r : Request (Job α)}
  {next : r.Reply → Body (Job α) (Except PoolError Unit)}

/-- The next request of what is left of a duty is one of its requests. -/
theorem Duty.Left.asks (h : duty.Left p es body) (hbody : body.request? = some ⟨r, next⟩) :
    duty.Asks p es r := by
  cases h with
  | @loop start l es left h =>
    cases left <;> cases hbody
    exact ⟨_, h⟩
  | @work e job es left h =>
    cases left <;> cases hbody
    exact ⟨_, h⟩
  | @shutdown es left h =>
    cases left <;> cases hbody
    exact ⟨_, h⟩

/-- Once a request is answered, what is left is what comes after it. -/
theorem Duty.Left.answered (h : duty.Left p es body) (hbody : body.request? = some ⟨r, next⟩)
    (reply : r.Reply) : duty.Left p (es ++ [⟨r, reply⟩]) (next reply) := by
  cases h with
  | @loop start l es left h =>
    cases left <;> cases hbody
    exact .loop (h.answered reply)
  | @work e job es left h =>
    cases left <;> cases hbody
    exact .work (h.answered reply)
  | @shutdown es left h =>
    cases left <;> cases hbody
    exact .shutdown (h.answered reply)

end Left

/-! ## Moves -/

namespace Service

variable {p : Pool α} {s : Service α}

/-- What is left of every process is what is left of its program after what it has asked and been
told. -/
structure Followed (p : Pool α) (s : Service α) : Prop where
  left : ∀ {id : FiberId} {body : Body (Job α) (Except PoolError Unit)} {called : Bool},
    s.world.sketch.standing id = some (body, called) →
      ∃ duty, s.duty id = some duty ∧ duty.Left p (s.said id) body
  /-- Also a shutdown that is gone has said what its program says. -/
  ran : ∀ {id : FiberId}, s.duty id = some .shutdown → ∃ left, Runs p.shutdown (s.said id) left

/-- Every process has followed its program, and processes that are to come have said nothing. -/
structure Accounted (p : Pool α) (s : Service α) : Prop extends s.Followed p where
  fresh : s.outline.Fresh

/-- In a pool that was never started every process is accounted for. -/
theorem accounted_initial (p : Pool α) (clock : Instant) (shards : List ShardId)
    (limits : List Nat) : (initial clock shards limits : Service α).Accounted p where
  left h := by cases h
  ran h := by cases h
  fresh _ _ := ⟨rfl, rfl, rfl⟩

/-- A process of the world stands in its sketch. -/
theorem standing_of_fiber {id : FiberId} {f : Fiber (Job α) (Except PoolError Unit)}
    (h : s.world.fibers.get? id = some f) :
    s.world.sketch.standing id = some (f.body, f.aborted) := by
  simp only [World.sketch, h, Option.map_some]

/-- A process that stands in the sketch stands in the outline. -/
theorem fiber_of_standing {id : FiberId} {body : Body (Job α) (Except PoolError Unit)}
    {called : Bool} (h : s.world.sketch.standing id = some (body, called)) :
    s.outline.fiber id = some called :=
  congrArg (Option.map Prod.snd) h

/-- A process asks what its duty lets it ask. -/
theorem Accounted.change_ask (h : s.Accounted p) {id : FiberId}
    {f : Fiber (Job α) (Except PoolError Unit)} (hf : s.world.fibers.get? id = some f)
    {r : Request (Job α)} {next : r.Reply → Body (Job α) (Except PoolError Unit)}
    (hbody : f.body.request? = some ⟨r, next⟩) :
    s.outline.Change p (s.ask id r next).outline := by
  obtain ⟨duty, hduty, hleft⟩ := h.left (standing_of_fiber hf)
  have hfiber := fiber_of_standing (standing_of_fiber hf)
  have hasks := hleft.asks hbody
  unfold ask
  split
  · next w condition hwait =>
    have hsame : w.sketch = s.world.sketch := World.sketch_of_wait hwait
    have houtline : ({ s with world := w } : Service α).outline = s.outline := by
      unfold outline
      rw [hsame]
    rw [houtline]
    exact .stay
  · next w reply hanswer =>
    rw [outline_answered (next reply) hanswer]
    cases duty with
    | loop start l =>
      rcases l.only_round.of_asks hasks with (hneutral | ⟨e, record, hboundary, rfl⟩) | ⟨state, rfl⟩
      · rw [Outline.after_of_neutral hneutral]
        exact .say _ hfiber hduty nofun hneutral
      · exact .handOver record hfiber hduty hboundary
      · exact .publish state hfiber hduty
    | work e job =>
      have hneutral := (job.only_work.of_asks hasks).neutral
      rw [Outline.after_of_neutral hneutral]
      exact .say _ hfiber hduty nofun hneutral
    | shutdown =>
      exact .stop _ hfiber hduty (Pool.goes_of_asks hasks reply) (tells_perform hanswer)

/-- A process that goes is gone from the outline, and nothing else is changed. -/
theorem outline_dismiss (s : Service α) (id : FiberId) :
    ({ s with world := s.world.dismiss id } : Service α).outline = s.outline.without id := by
  unfold outline
  rw [World.sketch_dismiss, World.Sketch.outline_set]
  rfl

/-- The end of a process is a change of the outline. -/
theorem Accounted.change_finish (h : s.Accounted p) {id : FiberId}
    {f : Fiber (Job α) (Except PoolError Unit)} (hf : s.world.fibers.get? id = some f)
    (hbody : f.body.request? = none) : s.outline.Change p (s.finish id f.body).outline := by
  obtain ⟨duty, hduty, hleft⟩ := h.left (standing_of_fiber hf)
  have hfiber := fiber_of_standing (standing_of_fiber hf)
  obtain ⟨body, held, called⟩ := f
  cases hleft with
  | @loop start l es left hruns =>
    cases left with
    | done more =>
      cases more with
      | true =>
        have hagain : (s.finish id (.loop l.round (.done true))).outline =
            { s.outline with said := Function.update s.outline.said id [] } := by
          unfold finish outline
          rw [World.sketch_goOn, World.Sketch.outline_goOn]
          rfl
        rw [hagain]
        exact .again hfiber hduty
      | false =>
        have hgone := s.outline_dismiss id
        unfold finish
        rw [hgone]
        exact .endLoop hfiber hduty (.inl hruns)
    | panic cause =>
      unfold finish
      rw [s.outline_dismiss id]
      exact .endLoop hfiber hduty (.inr ⟨cause, hruns⟩)
    | call r next => cases hbody
  | @work e job es left hruns =>
    have hgone : (s.finish id (.job e left)).outline = (s.outline.counted e (· - 1)).without id := by
      unfold finish outline
      rw [World.sketch_dismiss,
        World.sketch_setExecutor _ e Executor.finish (· - 1) World.active_finish,
        World.Sketch.outline_set]
      rfl
    rw [hgone]
    exact .endWork hfiber hduty
  | @shutdown es left hruns =>
    have hgone : (s.finish id (.operation left)).outline = s.outline.without id := by
      unfold finish outline
      rw [World.sketch_dismiss, World.Sketch.outline_set]
      rfl
    rw [hgone]
    exact .endShutdown hfiber hduty

/-- A dropped process is a change of the outline. -/
theorem Accounted.change_drop (h : s.Accounted p) (id : FiberId) :
    s.outline.Change p (s.drop id).outline := by
  unfold drop
  split
  · exact .stay
  · next f hf =>
    split
    · next hallowed =>
      obtain ⟨duty, hduty, hleft⟩ := h.left (standing_of_fiber hf)
      have hfiber := fiber_of_standing (standing_of_fiber hf)
      obtain ⟨body, held, called⟩ := f
      have hsketch := s.world.sketch_bury id ⟨body, held, called⟩
      cases hleft with
      | @loop start l es left hruns =>
        have hgone : ({ s with world := s.world.bury id ⟨.loop l.round left, held, called⟩ } :
            Service α).outline = s.outline.without id := by
          unfold outline
          rw [hsketch, World.Sketch.outline_set]
          rfl
        rw [hgone]
        have hcalled : called = true := by simpa [Body.isOperation] using hallowed
        exact .dropLoop (hcalled ▸ hfiber) hduty
      | @work e job es left hruns =>
        have hgone : ({ s with world := s.world.bury id ⟨.job e left, held, called⟩ } :
            Service α).outline = (s.outline.counted e (· - 1)).without id := by
          unfold outline
          rw [hsketch, World.Sketch.outline_set]
          rfl
        rw [hgone]
        exact .endWork hfiber hduty
      | @shutdown es left hruns =>
        have hgone : ({ s with world := s.world.bury id ⟨.operation left, held, called⟩ } :
            Service α).outline = s.outline.without id := by
          unfold outline
          rw [hsketch, World.Sketch.outline_set]
          rfl
        rw [hgone]
        exact .endShutdown hfiber hduty
    · exact .stay

/-- A start is a change of the outline. -/
theorem Accounted.change_start (h : s.Accounted p) : s.outline.Change p (s.start p).outline := by
  have hspec := p.start_spec s.world
  unfold start
  generalize p.start s.world = result at hspec
  cases hspec with
  | busy hstatus => exact .stay
  | shut hstatus hshut => exact .stay
  | fail hstatus hopen hplan => exact Outline.Change.lower (o := s.outline) hstatus hopen
  | @succeed planned hstatus hopen hplan =>
    have hfresh : ∀ k, s.world.nextFiber ≤ k → s.world.sketch.standing k = none :=
      fun k hk => Option.map_eq_none_iff.1 (h.fresh k hk).2.2
    have hstarted : ({ s with
        world := planned.foldl Pool.startLoop s.world.emptied
        duty := s.dutiesAfterStart p
        starts := s.starts + 1 } : Service α).outline = s.outline.started planned := by
      unfold outline
      dsimp only
      rw [Pool.sketch_startLoops (w := s.world.emptied) planned hfresh]
      have hduties : s.dutiesAfterStart p = (s.outline.started planned).duty := by
        unfold dutiesAfterStart
        rw [hplan]
        rfl
      have hfiber : ∀ k, (if k < s.world.nextFiber then s.world.sketch.standing k
          else ((Pool.loopsFrom s.world.loops.length planned)[k - s.world.nextFiber]?).map fun l =>
            ((.loop l.round l.round, false) :
              Body (Job α) (Except PoolError Unit) × Bool)).map Prod.snd =
          (s.outline.started planned).fiber k := by
        intro k
        unfold Outline.started
        dsimp only
        split
        · next hk => exact (if_pos hk).symm
        · next hk => exact (Option.map_map ..).trans (if_neg hk).symm
      rw [hduties]
      exact congrArg (fun fiber => { s.outline.started planned with fiber := fiber }) (funext hfiber)
    exact hstarted ▸ Outline.Change.start (o := s.outline) hstatus hopen hplan

/-- Every move of an accounted service is one of the changes. -/
theorem Accounted.change (h : s.Accounted p) (m : Move α) :
    s.outline.Change p (s.step p m).outline := by
  cases m with
  | start => exact h.change_start
  | shutdown =>
    have hcalled : (s.shutdown p).outline = s.outline.added .shutdown := by
      unfold shutdown outline
      rw [World.sketch_spawn]
      exact congrArg (fun o : Outline α => { o with nextFiber := s.world.nextFiber + 1 })
        (World.Sketch.outline_set s.world.sketch
          (Function.update s.duty s.world.nextFiber (some .shutdown)) s.said s.starts s.stopper
          s.world.nextFiber (some (.operation p.shutdown, false)))
    exact hcalled ▸ Outline.Change.call
  | go id =>
    unfold step go
    dsimp only
    split
    · exact .stay
    · next f hf =>
      split
      · next r next hbody => exact h.change_ask hf hbody
      · next hbody => exact h.change_finish hf hbody
  | drop id => exact h.change_drop id
  | meanwhile surroundings => exact .stay

/-! ## The account -/

/-- A process of which the same is left and whose account is the same has followed its program. -/
theorem Followed.left_of_same (h : s.Followed p) {duties : FiberId → Option (Duty α)}
    {said : FiberId → List (Exchange (Job α))} {k : FiberId}
    {body : Body (Job α) (Except PoolError Unit)} {called : Bool}
    (hk : s.world.sketch.standing k = some (body, called)) (hduty : duties k = s.duty k)
    (hsaid : said k = s.said k) : ∃ duty, duties k = some duty ∧ duty.Left p (said k) body := by
  rw [hduty, hsaid]
  exact h.left hk

/-- Processes may go as long as the accounts stay. -/
theorem Followed.of_fewer (h : s.Followed p) {w : World (Job α) (Except PoolError Unit)}
    (hw : ∀ k, w.sketch.standing k = none ∨ w.sketch.standing k = s.world.sketch.standing k) :
    ({ s with world := w } : Service α).Followed p where
  left {k body called} hk := by
    rcases hw k with hgone | hsame
    · rw [hgone] at hk
      cases hk
    · rw [hsame] at hk
      exact h.left hk
  ran hk := h.ran hk

/-- After a start every process has followed its program. -/
theorem Accounted.followed_start (h : s.Accounted p) : (s.start p).Followed p := by
  have hspec := p.start_spec s.world
  unfold start
  generalize p.start s.world = result at hspec
  cases hspec with
  | busy hstatus => exact h.toFollowed
  | shut hstatus hshut => exact h.toFollowed
  | fail hstatus hopen hplan => exact h.of_fewer fun k => .inr rfl
  | @succeed planned hstatus hopen hplan =>
    have hfresh : ∀ k, s.world.nextFiber ≤ k → s.world.sketch.standing k = none :=
      fun k hk => Option.map_eq_none_iff.1 (h.fresh k hk).2.2
    have hold : ∀ {k}, k < s.world.nextFiber → s.dutiesAfterStart p k = s.duty k :=
      fun hk => if_pos hk
    have hnew : ∀ {k}, ¬ k < s.world.nextFiber → s.dutiesAfterStart p k =
        ((Pool.loopsFrom s.world.loops.length planned)[k - s.world.nextFiber]?).map
          (.loop (s.starts + 1)) := by
      intro k hk
      unfold dutiesAfterStart
      rw [if_neg hk, hplan]
      rfl
    refine ⟨fun {k body called} hk => ?_, fun {k} hk => ?_⟩
    · dsimp only at hk ⊢
      rw [Pool.sketch_startLoops (w := s.world.emptied) planned hfresh] at hk
      change (if k < s.world.nextFiber then s.world.sketch.standing k else
        ((Pool.loopsFrom s.world.loops.length planned)[k - s.world.nextFiber]?).map _) = _ at hk
      split at hk
      · next hlt => exact h.left_of_same hk (hold hlt) rfl
      · next hlt =>
        obtain ⟨l, hl, hbody⟩ := Option.map_eq_some_iff.1 hk
        cases hbody
        rw [hnew hlt, hl, show s.said k = [] from (h.fresh k (Nat.le_of_not_lt hlt)).2.1]
        exact ⟨_, rfl, .loop .nil⟩
    · by_cases hlt : k < s.world.nextFiber
      · exact h.ran ((hold hlt).symm.trans hk)
      · dsimp only at hk
        rw [hnew hlt] at hk
        obtain ⟨l, -, hl⟩ := Option.map_eq_some_iff.1 hk
        cases hl

/-- After a shutdown is called every process has followed its program. -/
theorem Accounted.followed_shutdown (h : s.Accounted p) : (s.shutdown p).Followed p := by
  obtain ⟨-, hsaid, -⟩ := h.fresh s.world.nextFiber (Nat.le_refl _)
  have hother : ∀ {k}, k ≠ s.world.nextFiber → (s.shutdown p).duty k = s.duty k :=
    fun hk => Function.update_of_ne hk _ _
  refine ⟨fun {k body called} hk => ?_, fun {k} hk => ?_⟩
  · unfold shutdown at hk
    dsimp only at hk
    rw [World.sketch_spawn] at hk
    change Function.update s.world.sketch.standing s.world.nextFiber _ k = _ at hk
    by_cases hnew : k = s.world.nextFiber
    · subst hnew
      rw [Function.update_self] at hk
      cases hk
      refine ⟨.shutdown, Function.update_self .., ?_⟩
      change Duty.Left p .shutdown (s.said s.world.nextFiber) _
      rw [show s.said s.world.nextFiber = [] from hsaid]
      exact .shutdown .nil
    · rw [Function.update_of_ne hnew] at hk
      exact h.left_of_same hk (hother hnew) rfl
  · by_cases hnew : k = s.world.nextFiber
    · subst hnew
      change ∃ left, Runs p.shutdown (s.said s.world.nextFiber) left
      rw [show s.said s.world.nextFiber = [] from hsaid]
      exact ⟨_, .nil⟩
    · exact h.ran ((hother hnew).symm.trans hk)

/-- After a request every process has followed its program. -/
theorem Accounted.followed_ask (h : s.Accounted p) {id : FiberId}
    {f : Fiber (Job α) (Except PoolError Unit)} (hf : s.world.fibers.get? id = some f)
    {r : Request (Job α)} {next : r.Reply → Body (Job α) (Except PoolError Unit)}
    (hbody : f.body.request? = some ⟨r, next⟩) : (s.ask id r next).Followed p := by
  obtain ⟨duty, hduty, hleft⟩ := h.left (standing_of_fiber hf)
  have hid : id < s.world.nextFiber := h.fresh.lt (fiber_of_standing (standing_of_fiber hf))
  -- what is handed over is new
  have hduties : ∀ {k}, k < s.world.nextFiber → s.dutiesAfter r k = s.duty k := by
    intro k hk
    cases r with
    | handOver e job => exact Function.update_of_ne (Nat.ne_of_lt hk) _ _
    | _ => rfl
  unfold ask
  split
  · next w condition hwait =>
    exact h.of_fewer fun k => .inr (congrArg (·.standing k) (World.sketch_of_wait hwait))
  · next w reply hanswer =>
    have hother : ∀ {k}, k ≠ id → Function.update s.said id (s.said id ++ [⟨r, reply⟩]) k =
        s.said k := fun hk => Function.update_of_ne hk _ _
    unfold answered
    refine ⟨fun {k body called} hk => ?_, fun {k} hk => ?_⟩
    · dsimp only at hk ⊢
      rw [World.sketch_goOn] at hk
      change Function.update w.sketch.standing id _ k = _ at hk
      by_cases hself : k = id
      · subst hself
        rw [Function.update_self] at hk
        obtain ⟨x, -, hx⟩ := Option.map_eq_some_iff.1 hk
        cases hx
        rw [hduties hid, Function.update_self]
        exact ⟨duty, hduty, hleft.answered hbody reply⟩
      · rw [Function.update_of_ne hself] at hk
        rcases standing_perform hanswer hk with ⟨called', hbefore⟩ | ⟨e, job, rfl, rfl, rfl⟩
        · have hlt := h.fresh.lt (fiber_of_standing hbefore)
          exact h.left_of_same hbefore (hduties hlt) (hother hself)
        · refine ⟨.work e job, Function.update_self .., ?_⟩
          rw [hother hself, show s.said s.world.nextFiber = [] from
            (h.fresh s.world.nextFiber (Nat.le_refl _)).2.1]
          exact .work .nil
    · dsimp only at hk ⊢
      have hbefore : s.duty k = some .shutdown := by
        cases r with
        | handOver e job =>
          change Function.update s.duty s.world.nextFiber _ k = _ at hk
          rw [Function.update_apply] at hk
          split at hk
          · cases hk
          · exact hk
        | _ => exact hk
      by_cases hself : k = id
      · subst hself
        rw [Function.update_self]
        rw [hduty] at hbefore
        cases hbefore
        have hanswered := hleft.answered hbody reply
        generalize next reply = body at hanswered
        cases hanswered with
        | shutdown hruns => exact ⟨_, hruns⟩
      · rw [hother hself]
        exact h.ran hbefore

/-- A process that goes leaves the others where they stand. -/
theorem standing_dismiss (w : World (Job α) (Except PoolError Unit)) (id k : FiberId) :
    (w.dismiss id).sketch.standing k = none ∨
      (w.dismiss id).sketch.standing k = w.sketch.standing k := by
  rw [World.sketch_dismiss]
  by_cases hk : k = id
  · exact .inl (hk ▸ Function.update_self ..)
  · exact .inr (Function.update_of_ne hk _ _)

/-- After the end of a process every process has followed its program. -/
theorem Accounted.followed_finish (h : s.Accounted p) {id : FiberId}
    {f : Fiber (Job α) (Except PoolError Unit)} (hf : s.world.fibers.get? id = some f) :
    (s.finish id f.body).Followed p := by
  obtain ⟨duty, hduty, hleft⟩ := h.left (standing_of_fiber hf)
  obtain ⟨body, held, called⟩ := f
  cases hleft with
  | @loop start l es left hruns =>
    by_cases hmore : left = .done true
    · -- the next round begins with nothing said
      subst hmore
      refine ⟨fun {k body called} hk => ?_, fun {k} hk => ?_⟩
      · unfold finish at hk ⊢
        dsimp only at hk ⊢
        rw [World.sketch_goOn] at hk
        change Function.update s.world.sketch.standing id _ k = _ at hk
        by_cases hself : k = id
        · subst hself
          rw [Function.update_self] at hk ⊢
          obtain ⟨x, -, hx⟩ := Option.map_eq_some_iff.1 hk
          cases hx
          exact ⟨_, hduty, .loop .nil⟩
        · rw [Function.update_of_ne hself] at hk
          exact h.left_of_same hk rfl (Function.update_of_ne hself _ _)
      · have hself : k ≠ id := by
          rintro rfl
          cases hduty.symm.trans hk
        unfold finish
        dsimp only
        rw [Function.update_of_ne hself]
        exact h.ran hk
    · have hgone : s.finish id (.loop l.round left) = { s with world := s.world.dismiss id } := by
        unfold finish
        split <;> simp_all
      rw [hgone]
      exact h.of_fewer (standing_dismiss s.world id)
  | @work e job es left hruns =>
    refine h.of_fewer fun k => ?_
    rcases standing_dismiss (s.world.setExecutor e (s.world.executor e).finish) id k with hk | hk
    · exact .inl hk
    · exact .inr hk
  | @shutdown es left hruns => exact h.of_fewer (standing_dismiss _ id)

/-- After a process is dropped every process has followed its program. -/
theorem Accounted.followed_drop (h : s.Accounted p) (id : FiberId) : (s.drop id).Followed p := by
  unfold drop
  split
  · exact h.toFollowed
  · next f hf =>
    split
    · refine h.of_fewer fun k => ?_
      rw [World.sketch_bury]
      by_cases hk : k = id
      · exact .inl (hk ▸ Function.update_self ..)
      · refine .inr ((Function.update_of_ne hk _ _).trans ?_)
        split <;> rfl
    · exact h.toFollowed

/-- Every move leaves all processes accounted for. -/
theorem Accounted.step (h : s.Accounted p) (m : Move α) : (s.step p m).Accounted p where
  toFollowed := by
    cases m with
    | start => exact h.followed_start
    | shutdown => exact h.followed_shutdown
    | go id =>
      unfold Service.step go
      dsimp only
      split
      · exact h.toFollowed
      · next f hf =>
        split
        · next r next hbody => exact h.followed_ask hf hbody
        · exact h.followed_finish hf
    | drop id => exact h.followed_drop id
    | meanwhile surroundings => exact h.of_fewer fun _ => .inr rfl
  fresh := h.fresh.change (h.change m)

/-- The services that a pool can come to, however its calls, its loops and their jobs are
interleaved. -/
def Reached (p : Pool α) (s : Service α) : Prop :=
  ∃ clock shards limits moves, s = (initial clock shards limits).run p moves

/-- In a reached state every process is accounted for. -/
theorem Reached.accounted (h : s.Reached p) : s.Accounted p := by
  obtain ⟨clock, shards, limits, moves, rfl⟩ := h
  exact run_induction (accounted_initial p clock shards limits) (fun s m h => h.step m) moves

/-- What is reached from a reached state is reached. -/
theorem Reached.run (h : s.Reached p) (moves : List (Move α)) : (s.run p moves).Reached p := by
  obtain ⟨clock, shards, limits, before, rfl⟩ := h
  exact ⟨clock, shards, limits, before ++ moves, (run_append ..).symm⟩

/-- What holds of a pool that was never started and is kept by every change holds of every service
that can be reached.  What is known of all of these may be used on the way. -/
theorem Reached.induction_from {P Q : Outline α → Prop}
    (hknown : ∀ {s : Service α}, s.Reached p → Q s.outline)
    (hinitial : ∀ clock shards limits, P (initial clock shards limits).outline)
    (hchange : ∀ o o', o.Fresh → Q o → P o → o.Change p o' → P o') (h : s.Reached p) :
    P s.outline := by
  obtain ⟨clock, shards, limits, moves, rfl⟩ := h
  have hboth := run_induction (P := fun s => s.Reached p ∧ P s.outline)
    ⟨⟨clock, shards, limits, [], rfl⟩, hinitial clock shards limits⟩
    (fun s m h => ⟨h.1.run [m],
      hchange _ _ h.1.accounted.fresh (hknown h.1) h.2 (h.1.accounted.change m)⟩) moves
  exact hboth.2

/-- What holds at first and is kept by every change holds of every reached state. -/
theorem Reached.induction {P : Outline α → Prop}
    (hinitial : ∀ clock shards limits, P (initial clock shards limits).outline)
    (hchange : ∀ o o', o.Fresh → P o → o.Change p o' → P o') (h : s.Reached p) : P s.outline :=
  h.induction_from (Q := fun _ => True) (fun _ => trivial) hinitial
    fun o o' hfresh _ => hchange o o' hfresh

end Service

end LeaseQueue
