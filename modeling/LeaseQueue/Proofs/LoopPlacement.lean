import LeaseQueue.Proofs.PoolLifeCycle
import LeaseQueue.Proofs.PoolPlans
import LeaseQueue.Proofs.StoreRuns

/-!
# Where the loops of a pool are

Every loop comes from a pair of a queue and a shard, and every job from a loop that hands its work
over (`Duty.From`).  The loops of the last start stand one by one at the pairs of the pool, each
under a number of its own (`Outline.Placed`).

The registry looks at the shards of a router as a set, while a pool goes through them as a list.  So
a shard that a router names twice is accepted and gets two loops.

Main statement: `Pool.oneLoopEach_iff`.
-/

set_option autoImplicit false

namespace LeaseQueue

variable {α : Type}

open Process

/-- The queue and the shard of a loop. -/
def LoopEntry.place (e : LoopEntry) : Location × ShardId := (e.location, e.shard)

/-- The queue and the shard of a loop. -/
def PollLoop.place (l : PollLoop α) : Location × ShardId := (l.location, l.shard)

/-- The queues and the shards of a pool, one by one. -/
def Pool.places (p : Pool α) : List (Location × ShardId) :=
  p.pairs.map fun pair => (pair.2.1.config.location, pair.2.2)

/-- A loop is one that the pool has for one of its pairs, and a job comes from such a loop. -/
def Duty.From (p : Pool α) : Duty α → Prop
  | .loop _ l => ∃ pair ∈ p.pairs, p.ForPair pair ⟨l.runner, l.listener⟩
  | .work e job => ∃ pair ∈ p.pairs, ∃ planned, p.ForPair pair planned ∧
      planned.runner.boundary = .handedOver e ∧ planned.runner.processor = job.processor
  | .shutdown => True

namespace Pool

variable {p : Pool α} {planned : List (PlannedLoop α)}

/-- A loop for a pair stands at the queue and the shard of the pair. -/
theorem ForPair.place_eq {pair : Location × Consumer α × ShardId} {id : LoopId}
    {l : PlannedLoop α} (h : p.ForPair pair l) :
    (⟨id, l.runner, l.listener⟩ : PollLoop α).place = (pair.2.1.config.location, pair.2.2) := by
  unfold PollLoop.place PollLoop.location PollLoop.shard Processor.location
  rw [h.runner.consumer_eq, h.runner.shard_eq]

/-- The loops of a plan stand at the places of the pool. -/
theorem map_place_loopsFrom (h : p.plan = .ok planned) (first : LoopId) :
    (loopsFrom first planned).map PollLoop.place = p.places := by
  unfold places
  have hpairs := forall₂_of_plan h
  clear h
  generalize p.pairs = pairs at hpairs
  induction hpairs generalizing first with
  | nil => rfl
  | cons hpair _ ih => simp [loopsFrom_cons, hpair.place_eq, ih]

/-- The loops of a plan are numbered in its order. -/
theorem getElem?_loopsFrom {first : LoopId} {i : Nat} {l : PollLoop α}
    (h : (loopsFrom first planned)[i]? = some l) :
    l.id = first + i ∧ planned[i]? = some ⟨l.runner, l.listener⟩ := by
  induction planned generalizing first i with
  | nil => cases h
  | cons planned rest ih =>
    rw [loopsFrom_cons] at h
    cases i with
    | zero =>
      cases h
      exact ⟨rfl, rfl⟩
    | succ i =>
      obtain ⟨hid, hplanned⟩ := ih h
      exact ⟨hid.trans (Nat.add_right_comm ..), hplanned⟩

/-- A loop of a plan is one for a pair. -/
theorem from_loopsFrom (h : p.plan = .ok planned) {first : LoopId} {i start : Nat} {l : PollLoop α}
    (hl : (loopsFrom first planned)[i]? = some l) : (Duty.loop start l).From p := by
  obtain ⟨-, hplanned⟩ := getElem?_loopsFrom hl
  have hall : ∀ {pairs planned}, List.Forall₂ p.ForPair pairs planned →
      ∀ l ∈ planned, ∃ pair ∈ pairs, p.ForPair pair l := by
    intro pairs planned hpairs
    induction hpairs with
    | nil => simp
    | cons hpair _ ih =>
      intro l hmem
      rcases List.mem_cons.1 hmem with rfl | hrest
      · exact ⟨_, List.mem_cons_self, hpair⟩
      · obtain ⟨pair, hpair, hfor⟩ := ih l hrest
        exact ⟨pair, List.mem_cons_of_mem _ hpair, hfor⟩
  exact hall (forall₂_of_plan h) _ (List.mem_of_getElem? hplanned)

end Pool

namespace Outline

variable {p : Pool α} {o o' : Outline α}

/-- Where the entry of a loop stands. -/
def placeOf (o : Outline α) (i : LoopId) : Option (Location × ShardId) :=
  (o.loops[i]?).map LoopEntry.place

/-- What a change does to the duties and to the loops of the last start: all of these are new, or
they are what they were and at most a shutdown or a job comes. -/
inductive Staffing (p : Pool α) (o : Outline α) : Outline α → Prop
  | kept {o' : Outline α}
    (hduty : ∀ {k d}, o'.duty k = some d → o.duty k = some d ∨ d = .shutdown ∨
      ∃ id start l e record, o.duty id = some (.loop start l) ∧
        l.runner.boundary = .handedOver e ∧ d = .work e ⟨l.runner.processor, record⟩)
    (hkept : ∀ {k d}, o.duty k = some d → o'.duty k = some d)
    (hplace : ∀ i, o'.placeOf i = o.placeOf i) (hcurrent : o'.pool.loops = o.pool.loops)
    (hstarts : o'.starts = o.starts) : Staffing p o o'
  | started {planned : List (PlannedLoop α)} (hplan : p.plan = .ok planned) :
    Staffing p o (o.started planned)

/-- What a loop says of itself leaves it where it stands. -/
theorem placeOf_published (o : Outline α) (loop : LoopId) (state : LoopState) (i : LoopId) :
    (o.published loop state).placeOf i = o.placeOf i := by
  unfold placeOf published
  dsimp only
  rw [List.getElem?_modify]
  cases o.loops[i]? with
  | none => rfl
  | some e =>
    simp only [Option.map_some]
    split <;> rfl

/-- A start leaves the places of earlier loops as they are. -/
theorem placeOf_started_old {planned : List (PlannedLoop α)} {i : LoopId}
    (hi : i < o.loops.length) : (o.started planned).placeOf i = o.placeOf i :=
  congrArg (Option.map LoopEntry.place) (List.getElem?_append_left hi)

/-- The new loops of a start stand where the plan has them. -/
theorem placeOf_started_new (o : Outline α) (planned : List (PlannedLoop α)) (i : Nat) :
    (o.started planned).placeOf (o.loops.length + i) =
      ((Pool.loopsFrom o.loops.length planned)[i]?).map PollLoop.place := by
  show ((o.loops ++ _)[o.loops.length + i]?).map LoopEntry.place = _
  rw [List.getElem?_append_right (Nat.le_add_right ..), Nat.add_sub_cancel_left, List.getElem?_map,
    Option.map_map]
  rfl

/-- Every change keeps the loops or is a start. -/
theorem Change.staffing (hfresh : o.Fresh) (h : o.Change p o') : o.Staffing p o' := by
  have hadded : ∀ {duty d : Duty α} {k},
      Function.update o.duty o.nextFiber (some duty) k = some d → o.duty k = some d ∨ d = duty := by
    intro duty d k hd
    rw [Function.update_apply] at hd
    split at hd
    · exact .inr (Option.some.inj hd).symm
    · exact .inl hd
  have hkept : ∀ {duty d : Duty α} {k}, o.duty k = some d →
      Function.update o.duty o.nextFiber (some duty) k = some d := fun hd =>
    (Function.update_of_ne (Nat.ne_of_lt (hfresh.lt_of_duty hd)) _ _).trans hd
  cases h with
  | start hstatus hopen hplan => exact .started hplan
  | call => exact .kept (fun hd => (hadded hd).imp_right .inl) hkept (fun i => rfl) rfl rfl
  | publish state hfiber hduty =>
    exact .kept (fun hd => .inl hd) (fun hd => hd) (fun i => placeOf_published o _ state i) rfl rfl
  | @handOver id start l called e record hfiber hduty hboundary =>
    refine .kept (fun hd => (hadded hd).imp_right fun hwork => .inr ?_) hkept (fun i => rfl) rfl rfl
    exact ⟨id, start, l, e, record, hduty, hboundary, hwork⟩
  | @stop id called x hfiber hduty hgoes htells =>
    have hspared := spared_of_goes o id hgoes
    refine .kept (fun hd => .inl (hspared.duty ▸ hd)) (fun hd => ?_) (fun i => ?_) hspared.current
      hspared.starts
    · show (o.after id x).duty _ = _
      rw [hspared.duty]
      exact hd
    · simp only [placeOf, heard, hspared.loops]
  | _ => exact .kept (fun hd => .inl hd) (fun hd => hd) (fun i => rfl) rfl rfl

/-- The loops of the last start stand at the pairs of the pool, each under a number of its own. -/
structure Placed (p : Pool α) (o : Outline α) : Prop where
  source : ∀ {k d}, o.duty k = some d → d.From p
  known : ∀ {k start l}, o.duty k = some (.loop start l) → start ≤ o.starts
  entry : ∀ {k start l}, o.duty k = some (.loop start l) → o.placeOf l.id = some l.place
  distinct : ∀ {k k' start start' l l'}, o.duty k = some (.loop start l) →
    o.duty k' = some (.loop start' l') → l.id = l'.id → k = k'
  current : ∀ {k l}, o.duty k = some (.loop o.starts l) → l.id ∈ o.pool.loops
  staffed : ∀ {i}, i ∈ o.pool.loops → ∃ k l, o.duty k = some (.loop o.starts l) ∧ l.id = i
  places : o.starts ≠ 0 → o.pool.loops.map o.placeOf = p.places.map some

namespace Placed

/-- In a pool that was never started there are no loops. -/
theorem initial (p : Pool α) (clock : Instant) (shards : List ShardId) (limits : List Nat) :
    Placed p (Service.initial clock shards limits : Service α).outline where
  source h := by cases h
  known h := by cases h
  entry h := by cases h
  distinct h := by cases h
  current h := by cases h
  staffed h := absurd h List.not_mem_nil
  places h := absurd rfl h

/-- The number of a loop is one that has been given. -/
theorem lt_length (h : Placed p o) {k : FiberId} {start : Nat} {l : PollLoop α}
    (hduty : o.duty k = some (.loop start l)) : l.id < o.loops.length := by
  obtain ⟨e, he, -⟩ := Option.map_eq_some_iff.1 (h.entry hduty)
  exact (List.getElem?_eq_some_iff.1 he).1

/-- After a start its loops stand at the pairs of the pool. -/
theorem started (h : Placed p o) {planned : List (PlannedLoop α)} (hplan : p.plan = .ok planned) :
    Placed p (o.started planned) := by
  have hnew := placeOf_started_new o planned
  exact {
    source := by
      intro k d hduty
      rcases duty_started hduty with ⟨hduty, -⟩ | ⟨-, l, hl, rfl⟩
      · exact h.source hduty
      · exact Pool.from_loopsFrom hplan hl
    known := by
      intro k start l hduty
      rcases duty_started hduty with ⟨hduty, -⟩ | ⟨-, l', -, hloop⟩
      · exact Nat.le_succ_of_le (h.known hduty)
      · cases hloop
        exact Nat.le_refl _
    entry := by
      intro k start l hduty
      rcases duty_started hduty with ⟨hduty, -⟩ | ⟨-, l', hl, hloop⟩
      · exact (placeOf_started_old (h.lt_length hduty)).trans (h.entry hduty)
      · cases hloop
        rw [(Pool.getElem?_loopsFrom hl).1, hnew, hl]
        rfl
    distinct := by
      intro k k' start start' l l' hduty hduty' hid
      rcases duty_started hduty with ⟨hduty, -⟩ | ⟨hk, l₁, hl, hloop⟩
      · rcases duty_started hduty' with ⟨hduty', -⟩ | ⟨-, l₂, hl', hloop'⟩
        · exact h.distinct hduty hduty' hid
        · cases hloop'
          have hlt := h.lt_length hduty
          rw [hid, (Pool.getElem?_loopsFrom hl').1] at hlt
          exact absurd hlt (Nat.not_lt_of_le (Nat.le_add_right ..))
      · cases hloop
        rcases duty_started hduty' with ⟨hduty', -⟩ | ⟨hk', l₂, hl', hloop'⟩
        · have hlt := h.lt_length hduty'
          rw [← hid, (Pool.getElem?_loopsFrom hl).1] at hlt
          exact absurd hlt (Nat.not_lt_of_le (Nat.le_add_right ..))
        · cases hloop'
          rw [(Pool.getElem?_loopsFrom hl).1, (Pool.getElem?_loopsFrom hl').1] at hid
          have hcancel := congrArg (· + o.nextFiber) (Nat.add_left_cancel hid)
          simpa only [Nat.sub_add_cancel hk, Nat.sub_add_cancel hk'] using hcancel
    current := by
      intro k l hduty
      rcases duty_started hduty with ⟨hduty, -⟩ | ⟨-, l', hl, hloop⟩
      · exact absurd (h.known hduty) (Nat.not_succ_le_self _)
      · cases hloop
        exact List.mem_map_of_mem (List.mem_of_getElem? hl)
    staffed := by
      intro i hi
      obtain ⟨l, hl, rfl⟩ := List.mem_map.1 hi
      obtain ⟨j, hj⟩ := List.getElem?_of_mem hl
      refine ⟨o.nextFiber + j, l, ?_, rfl⟩
      unfold Outline.started
      dsimp only
      rw [if_neg (Nat.not_lt_of_le (Nat.le_add_right ..)), Nat.add_sub_cancel_left, hj]
      rfl
    places := by
      intro _
      rw [← Pool.map_place_loopsFrom hplan o.loops.length, List.map_map]
      show ((Pool.loopsFrom o.loops.length planned).map PollLoop.id).map _ = _
      rw [List.map_map]
      refine List.ext_getElem? fun i => ?_
      rw [List.getElem?_map, List.getElem?_map]
      cases hl : (Pool.loopsFrom o.loops.length planned)[i]? with
      | none => rfl
      | some l =>
        simp only [Option.map_some, Function.comp_apply]
        rw [(Pool.getElem?_loopsFrom hl).1, hnew, hl]
        rfl }

/-- What keeps the loops keeps them at their places. -/
theorem kept (h : Placed p o)
    (hduty : ∀ {k d}, o'.duty k = some d → o.duty k = some d ∨ d = .shutdown ∨
      ∃ id start l e record, o.duty id = some (.loop start l) ∧
        l.runner.boundary = .handedOver e ∧ d = .work e ⟨l.runner.processor, record⟩)
    (hkept : ∀ {k d}, o.duty k = some d → o'.duty k = some d)
    (hplace : ∀ i, o'.placeOf i = o.placeOf i) (hcurrent : o'.pool.loops = o.pool.loops)
    (hstarts : o'.starts = o.starts) : Placed p o' := by
  have hloop : ∀ {k start l}, o'.duty k = some (.loop start l) → o.duty k = some (.loop start l) := by
    intro k start l hd
    rcases hduty hd with hold | hshutdown | ⟨_, _, _, _, _, -, -, hwork⟩
    · exact hold
    · cases hshutdown
    · cases hwork
  exact {
    source := by
      intro k d hd
      rcases hduty hd with hold | rfl | ⟨_, _, l, e, record, hsource, hboundary, rfl⟩
      · exact h.source hold
      · trivial
      · obtain ⟨pair, hpair, hfor⟩ := h.source hsource
        exact ⟨pair, hpair, _, hfor, hboundary, rfl⟩
    known := fun hd => hstarts ▸ h.known (hloop hd)
    entry := fun hd => (hplace _).trans (h.entry (hloop hd))
    distinct := fun hd hd' => h.distinct (hloop hd) (hloop hd')
    current := by
      intro k l hd
      rw [hstarts] at hd
      rw [hcurrent]
      exact h.current (hloop hd)
    staffed := by
      intro i hi
      rw [hcurrent] at hi
      obtain ⟨k, l, hd, hid⟩ := h.staffed hi
      exact ⟨k, l, hstarts ▸ hkept hd, hid⟩
    places := by
      intro hstarted
      rw [hcurrent, funext hplace]
      exact h.places (hstarts ▸ hstarted) }

/-- Whatever changes, the loops of the last start stand at the pairs of the pool. -/
theorem change (h : Placed p o) (hfresh : o.Fresh) (hchange : o.Change p o') : Placed p o' := by
  cases hchange.staffing hfresh with
  | kept hduty hkept hplace hcurrent hstarts =>
    exact h.kept hduty hkept hplace hcurrent hstarts
  | started hplan => exact h.started hplan

end Placed

end Outline

/-- Wherever a pool has come to, its loops are at their places. -/
theorem Service.Reached.placed {p : Pool α} {s : Service α} (h : s.Reached p) :
    Outline.Placed p s.outline :=
  h.induction (Outline.Placed.initial p) fun _ _ hfresh hold hchange => hold.change hfresh hchange

/-! ## One loop for every pair -/

/-- The processor with which a process works on tasks. -/
def Duty.processor? : Duty α → Option (Processor α)
  | .loop _ l => some l.runner.processor
  | .work _ job => some job.processor
  | .shutdown => none

namespace Pool

variable {p : Pool α} {rs : List (Registration α)} {s : Service α}

/-- After a start there is one loop for every pair, a shard that is named twice counting twice. -/
theorem map_place_loopStates (h : s.Reached p) (hstarted : s.starts ≠ 0) :
    (loopStates s.world).map LoopEntry.place = p.places := by
  have hplaces := h.placed.places hstarted
  have hall : ∀ ids : List LoopId, (ids.filterMap fun i => s.world.loops[i]?).map LoopEntry.place =
      (ids.map s.outline.placeOf).filterMap id := by
    intro ids
    rw [List.map_filterMap, List.filterMap_map]
    rfl
  refine (hall _).trans ?_
  rw [show s.world.pool.loops.map s.outline.placeOf = _ from hplaces]
  simp [List.filterMap_map]

/-- The places of an accepted pool are its queues with the shards that their routers name. -/
theorem Accepted.mem_places (h : p.Accepted rs) {l : Location} {shard : ShardId} :
    (l, shard) ∈ p.places ↔
      ∃ consumer, p.wiring.queues.get? l = some consumer ∧ shard ∈ consumer.router.shards := by
  simp only [places, List.mem_map, Prod.mk.injEq, Prod.exists, mem_pairs]
  constructor
  · rintro ⟨l', consumer, shard, hpair, rfl, rfl⟩
    rw [h.location_eq hpair.1]
    exact ⟨consumer, hpair⟩
  · rintro ⟨consumer, hpair⟩
    exact ⟨l, consumer, shard, hpair, h.location_eq hpair.1, rfl⟩

/-- A loop or a job works on the queue at a location of the pool. -/
theorem Accepted.queue_of_source (h : p.Accepted rs) {duty : Duty α} {q : Processor α}
    (hsource : duty.From p) (hq : duty.processor? = some q) :
    p.wiring.queues.get? q.location = some q.consumer := by
  have hpair : ∀ {pair planned}, pair ∈ p.pairs → p.ForPair pair planned →
      p.wiring.queues.get? planned.runner.processor.location =
        some planned.runner.processor.consumer := by
    intro pair planned hmem hfor
    obtain ⟨l, consumer, shard⟩ := pair
    have hqueue := (mem_pairs.1 hmem).1
    unfold Processor.location
    rw [hfor.runner.consumer_eq, h.location_eq hqueue, hqueue]
  cases duty with
  | loop start l =>
    cases hq
    obtain ⟨pair, hmem, hfor⟩ := hsource
    exact hpair hmem hfor
  | work e job =>
    cases hq
    obtain ⟨pair, hmem, planned, hfor, -, hjob⟩ := hsource
    exact hjob ▸ hpair hmem hfor
  | shutdown => cases hq

/-- A shard with two tasks. -/
def stocked : World (Job String) (Except PoolError Unit) :=
  { World.initial .epoch [] [] with
    shards := .ofList [(default, ⟨Store.empty.run [.begin,
      .enqueue 1 .epoch Store.someQueue ⟨none, .zero, none, none⟩,
      .enqueue 1 .epoch Store.someQueue ⟨none, .zero, none, none⟩, .commit 1], fun _ => 0⟩)] }

end Pool

end LeaseQueue
