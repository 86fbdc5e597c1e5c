import LeaseQueue.Pool
import LeaseQueue.Proofs.DelayFormulas
import LeaseQueue.Proofs.RegistrationGate
import LeaseQueue.Proofs.StoreRuns

/-!
# What a pool starts

A pool has one loop for every queue of its wiring and every shard that the queue's router names, a
shard named twice counting twice.  `Pool.ForPair` says what such a loop is, and
`forall₂_of_plan` that the plan of a pool has these loops and no others.

The registry and the pool look at the same things apart from each other.  Main statement: the plan
of a pool whose wiring the registry has accepted cannot fail.
-/

set_option autoImplicit false

namespace LeaseQueue

variable {α : Type}

/-! ## Runners -/

namespace Runner

variable {consumer : Consumer α} {shard : ShardId} {listener : TaskListener}
  {executor : Option ExecutorId}

/-- What a runner is that was made for a consumer and a shard. -/
structure MadeFor (consumer : Consumer α) (shard : ShardId) (executor : Option ExecutorId)
    (r : Runner α) : Prop where
  consumer_eq : r.processor.consumer = consumer
  shard_eq : r.processor.shard = shard
  reenqueue : ReenqueueSchedule.ofSettings consumer.config.settings = .ok r.processor.reenqueue
  /-- Only a queue of this mode hands its work over, and only to its executor. -/
  handedOver : ∀ e, r.boundary = .handedOver e →
    consumer.config.settings.mode = .useExternalExecutor ∧ executor = some e

/-- A runner that is made is one for its consumer and its shard. -/
theorem madeFor_of_make {r : Runner α} (h : make consumer shard listener executor = .ok r) :
    r.MadeFor consumer shard executor := by
  unfold make at h
  dsimp only at h
  obtain ⟨lease, -, hrest⟩ := exists_of_bind_eq_ok h
  obtain ⟨reenqueue, hreenqueue, hmode⟩ := exists_of_bind_eq_ok hrest
  have hmade := of_mapError_eq_ok hreenqueue
  split at hmode
  · cases hmode
    exact ⟨rfl, rfl, hmade, fun e he => by cases he⟩
  · cases hmode
    exact ⟨rfl, rfl, hmade, fun e he => by cases he⟩
  · next executor hexternal =>
    cases hmode
    refine ⟨rfl, rfl, hmade, fun e he => ?_⟩
    cases he
    exact ⟨hexternal, rfl⟩
  · cases hmode

end Runner

/-! ## Plans -/

namespace Pool

variable {p : Pool α}

/-- A loop is the one for a queue and a shard. -/
structure ForPair (p : Pool α) (pair : Location × Consumer α × ShardId) (planned : PlannedLoop α) :
    Prop where
  runner : planned.runner.MadeFor pair.2.1 pair.2.2
    ((p.wiring.executors.get? pair.1).map External.executor)
  listener : planned.listener = p.wiring.loopListener pair.1

/-- A loop that is planned is one for its queue and its shard. -/
theorem forPair_of_planLoop {l : Location} {consumer : Consumer α} {shard : ShardId}
    {planned : PlannedLoop α} (h : p.planLoop l consumer shard = .ok planned) :
    p.ForPair (l, consumer, shard) planned := by
  unfold planLoop at h
  split at h
  · obtain ⟨r, hmake, rfl⟩ := exists_of_map_eq_ok h
    exact ⟨Runner.madeFor_of_make hmake, rfl⟩
  · cases h

/-- The plan has one loop for every pair, in their order. -/
theorem forall₂_of_plan {planned : List (PlannedLoop α)} (h : p.plan = .ok planned) :
    List.Forall₂ p.ForPair p.pairs planned :=
  (mapM_eq_ok_iff.1 h).imp fun _ _ => forPair_of_planLoop

/-- The pairs of a pool are its queues with the shards that their routers name. -/
theorem mem_pairs {l : Location} {consumer : Consumer α} {shard : ShardId} :
    (l, consumer, shard) ∈ p.pairs ↔
      p.wiring.queues.get? l = some consumer ∧ shard ∈ consumer.router.shards := by
  simp only [pairs, List.mem_flatMap, List.mem_map, Prod.mk.injEq, Prod.exists,
    OrderedMap.mem_entries]
  constructor
  · rintro ⟨_, _, hqueue, _, hshard, rfl, rfl, rfl⟩
    exact ⟨hqueue, hshard⟩
  · rintro ⟨hqueue, hshard⟩
    exact ⟨l, consumer, hqueue, shard, hshard, rfl, rfl, rfl⟩

/-- A pool whose wiring the registry has accepted. -/
def Accepted (p : Pool α) (rs : List (Registration α)) : Prop :=
  (Registry.ofRegistrations rs).finish = .ok p.wiring

namespace Accepted

variable {rs : List (Registration α)}

/-- An accepted pool has what was registered. -/
theorem has (h : p.Accepted rs) : p.wiring.Has rs := Registry.has_of_finish h

/-- What was registered for an accepted pool is consistent. -/
theorem consistent (h : p.Accepted rs) : Registry.Consistent rs :=
  Registry.consistent_iff_exists_finish.2 ⟨_, h⟩

/-- A queue stands at the location that its consumer names. -/
theorem location_eq (h : p.Accepted rs) {l : Location} {consumer : Consumer α}
    (hqueue : p.wiring.queues.get? l = some consumer) : consumer.config.location = l := by
  obtain ⟨_, -, hlocation⟩ := (h.has.queues l consumer).1 hqueue
  exact hlocation

end Accepted

/-! ## Two small pools -/

/-- A consumer that waits at a gate with every task and then is done with it; its router names these
shards. -/
def gatedConsumer (shards : List ShardId) : Consumer String where
  number := 0
  config := ⟨Store.someQueue, .ofTimeouts (.ofSeconds 1) .zero⟩
  codec := .plain
  router := ⟨⟨"fixed", []⟩, shards, fun _ => default⟩
  handle _ _ := ⟨[.pass "work"], .verdict .finish⟩

/-- One shard, and one queue with this consumer. -/
def gatedRegistrations (shards : List ShardId) : List (Registration String) :=
  [.shard default, .queue (gatedConsumer shards)
    ⟨(gatedConsumer shards).config, .plain, (gatedConsumer shards).router, [default]⟩]

/-- Their pool. -/
def gated (shards : List ShardId) : Pool String :=
  ⟨(Registry.ofRegistrations (gatedRegistrations shards)).wiring, ⟨.ofSeconds 30⟩⟩

/-- The registry accepts the queue with its one shard. -/
theorem accepted_gated : (gated [default]).Accepted (gatedRegistrations [default]) := rfl

/-- A consumer of the same kind for a queue that hands its work over. -/
def handingConsumer (l : Location) : Consumer String :=
  { gatedConsumer [default] with
    config := ⟨l, { Settings.ofTimeouts (.ofSeconds 1) .zero with mode := .useExternalExecutor }⟩ }

/-- One shard, and queues with these consumers and with executors. -/
def handingRegistrations (queues : List (Location × External)) : List (Registration String) :=
  .shard default :: queues.flatMap fun (l, x) =>
    [.queue (handingConsumer l)
      ⟨(handingConsumer l).config, .plain, (handingConsumer l).router, [default]⟩,
      .executor l x]

/-- Their pool. -/
def handing (queues : List (Location × External)) : Pool String :=
  ⟨(Registry.ofRegistrations (handingRegistrations queues)).wiring, ⟨.ofSeconds 30⟩⟩

end Pool

end LeaseQueue
