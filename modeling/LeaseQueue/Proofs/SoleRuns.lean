import LeaseQueue.Consumer
import LeaseQueue.World.Schedule
import LeaseQueue.Proofs.ProcessRuns

/-!
# Processes that run alone

A process that runs alone and uses one shard, whose operations are not made to fail, sees only the
clock, the store of that shard, the gates and the calls of consumers, and adds to what is seen from
outside.  `Scene` is this part of a world and `Ends` says how a process comes to its end in it;
there is a rule for every way to put processes together.  `World.run_of_ends` carries this to the
turn of a process in a world.

A process that leaves the stores alone comes to the same end whatever its store is
(`ends_of_harmless`).
-/

set_option autoImplicit false

namespace LeaseQueue

variable {ω α β γ : Type}

/-- What a process that runs alone sees of the world and of one shard. -/
structure Scene where
  clock : Instant
  time : Tick
  trace : List (Tick × Notice)
  gates : List String
  calls : OrderedMap Nat Nat
  store : Store

namespace Scene

/-- The scene with another store. -/
def on (s : Scene) (store : Store) : Scene := { s with store := store }

/-- A scene with a store has that store. -/
@[simp] theorem on_store (s : Scene) (store : Store) : (s.on store).store = store := rfl

/-- What is answered to a request, unless it has to wait or goes beyond the shard. -/
def answer? (home : ShardId) (s : Scene) : (r : Request ω) → Option (Scene × r.Reply)
  | .now => some (s, s.clock)
  | .advance d => some ({ s with clock := s.clock.advance d }, ())
  | .report notice => some ({ s with trace := (s.time, notice) :: s.trace }, ())
  | .probe shard _ => if shard = home then some (s, .ok ()) else none
  | .begin shard =>
    if shard = home then some (s.on s.store.begin.1, s.store.begin.2.map (Handle.mk home)) else none
  | .pick tx location lease =>
    if tx.shard = home then
      some (s.on (s.store.pick tx.transaction s.clock location lease).1,
        (s.store.pick tx.transaction s.clock location lease).2)
    else none
  | .delete tx location id =>
    if tx.shard = home then
      (s.store.delete tx.transaction location id).2.map fun answer =>
        (s.on (s.store.delete tx.transaction location id).1, answer)
    else none
  | .reenqueue tx asOf location id delay fresh =>
    if tx.shard = home then
      (s.store.reenqueue tx.transaction asOf location id delay fresh).2.map fun answer =>
        (s.on (s.store.reenqueue tx.transaction asOf location id delay fresh).1, answer)
    else none
  | .commit tx =>
    if tx.shard = home then
      some (s.on (s.store.commit tx.transaction).1, (s.store.commit tx.transaction).2)
    else none
  | .abandon tx =>
    if tx.shard = home then some (s.on (s.store.abandon tx.transaction), ()) else none
  | .outage shard _ => if shard = home then none else some (s, ())
  | .invocation consumer =>
    some ({ s with calls := s.calls.insert consumer ((s.calls.get? consumer).getD 0 + 1) },
      (s.calls.get? consumer).getD 0)
  | .pass gate => if s.gates.contains gate then some (s, ()) else none
  | _ => none

end Scene

namespace Process

/-- In a scene a process comes to an end, which is a result or a panic, and leaves another scene. -/
inductive Ends (home : ShardId) : Process ω α → Scene → Except Panic α → Scene → Prop
  | done {a : α} {s : Scene} : Ends home (.done a) s (.ok a) s
  | panic {cause : Panic} {s : Scene} : Ends home (.panic cause) s (.error cause) s
  | call {r : Request ω} {next : r.Reply → Process ω α} {reply : r.Reply} {s mid s' : Scene}
    {o : Except Panic α} (hanswer : s.answer? home r = some (mid, reply))
    (h : Ends home (next reply) mid o s') : Ends home (.call r next) s o s'

section Ends

variable {home : ShardId} {s mid s' : Scene}

/-- A single request ends with its answer. -/
theorem ends_ask {r : Request ω} {reply : r.Reply} (h : s.answer? home r = some (s', reply)) :
    (ask r).Ends home s (.ok reply) s' :=
  .call h .done

/-- A sequence ends where its second part does, once the first has returned. -/
theorem ends_bind {p : Process ω α} {f : α → Process ω β} {a : α} {o : Except Panic β}
    (hp : p.Ends home s (.ok a) mid) (hf : (f a).Ends home mid o s') :
    (p.bind f).Ends home s o s' := by
  generalize ho : Except.ok a = first at hp
  induction hp with
  | done =>
    cases ho
    exact hf
  | panic => cases ho
  | call hanswer _ ih => exact .call hanswer (ih hf ho)

/-- A sequence ends with the panic of its first part. -/
theorem ends_bind_panic {p : Process ω α} {f : α → Process ω β} {cause : Panic}
    (hp : p.Ends home s (.error cause) s') : (p.bind f).Ends home s (.error cause) s' := by
  generalize ho : Except.error cause = first at hp
  induction hp with
  | done => cases ho
  | panic =>
    cases ho
    exact .panic
  | call hanswer _ ih => exact .call hanswer (ih ho)

/-- A caught process ends without a panic, with the outcome of the process. -/
theorem ends_attempt {p : Process ω α} {o : Except Panic α} (hp : p.Ends home s o s') :
    p.attempt.Ends home s (.ok o) s' := by
  induction hp with
  | done => exact .done
  | panic => exact .done
  | call hanswer _ ih => exact .call hanswer ih

/-- A process with a last request ends with its own outcome, after the request. -/
theorem ends_followedBy {p : Process ω α} {last : Process ω Unit} {o : Except Panic α}
    (hp : p.Ends home s o mid) (hlast : last.Ends home mid (.ok ()) s') :
    (p.followedBy last).Ends home s o s' := by
  refine ends_bind (ends_attempt hp) (ends_bind hlast ?_)
  cases o with
  | ok a => exact .done
  | error cause => exact .panic

/-- An observer that does not panic is told and the process goes on. -/
theorem ends_react {r : Reaction} (h : r.panic = none) (s : Scene) :
    ∃ s' : Scene, s'.gates = s.gates ∧
      ∀ store, (react r : Process ω Unit).Ends home (s.on store) (.ok ()) (s'.on store) := by
  unfold react
  rw [h]
  induction r.notices generalizing s with
  | nil => exact ⟨s, rfl, fun _ => .done⟩
  | cons notice rest ih =>
    obtain ⟨s', hgates, hrest⟩ := ih { s with trace := (s.time, notice) :: s.trace }
    exact ⟨s', hgates, fun store => .call rfl (hrest store)⟩

end Ends

end Process

/-! ## Requests that leave the stores alone -/

/-- A request that has nothing to do with the store and need not wait. -/
def Request.Harmless (home : ShardId) (gates : List String) : Request ω → Prop
  | .now => True
  | .advance _ => True
  | .report _ => True
  | .invocation _ => True
  | .pass gate => gates.contains gate = true
  | .outage shard _ => shard ≠ home
  | _ => False

/-- An effect of a consumer that has nothing to do with the store and need not be waited for. -/
def Effect.Harmless (home : ShardId) (gates : List String) : Effect → Prop
  | .announce _ => True
  | .advance _ => True
  | .outage shard _ => shard ≠ home
  | .pass gate => gates.contains gate = true

namespace Process

section Harmless

variable {home : ShardId}

/-- The answer to such a request is the same whatever the store is. -/
theorem answer?_of_harmless {r : Request ω} {s : Scene} (h : r.Harmless home s.gates) :
    ∃ (reply : r.Reply) (s' : Scene), s'.gates = s.gates ∧
      ∀ store, (s.on store).answer? home r = some (s'.on store, reply) := by
  cases r with
  | now => exact ⟨s.clock, s, rfl, fun _ => rfl⟩
  | advance d => exact ⟨(), { s with clock := s.clock.advance d }, rfl, fun _ => rfl⟩
  | report notice => exact ⟨(), { s with trace := (s.time, notice) :: s.trace }, rfl, fun _ => rfl⟩
  | invocation consumer =>
    exact ⟨(s.calls.get? consumer).getD 0,
      { s with calls := s.calls.insert consumer ((s.calls.get? consumer).getD 0 + 1) }, rfl,
      fun _ => rfl⟩
  | pass gate => exact ⟨(), s, rfl, fun _ => if_pos h⟩
  | outage shard on => exact ⟨(), s, rfl, fun _ => if_neg h⟩
  | _ => exact h.elim

/-- So a process of such requests comes to the same end whatever the store is, and leaves it. -/
theorem ends_of_harmless {p : Process ω α} {s : Scene} (h : p.Only (·.Harmless home s.gates)) :
    ∃ (o : Except Panic α) (s' : Scene), s'.gates = s.gates ∧
      ∀ store, p.Ends home (s.on store) o (s'.on store) := by
  induction p generalizing s with
  | done a => exact ⟨.ok a, s, rfl, fun _ => .done⟩
  | panic cause => exact ⟨.error cause, s, rfl, fun _ => .panic⟩
  | call r next ih =>
    obtain ⟨hr, hnext⟩ := h
    obtain ⟨reply, mid, hgates, hanswer⟩ := answer?_of_harmless hr
    have hrest : (next reply).Only (·.Harmless home mid.gates) := by
      rw [hgates]
      exact hnext reply
    obtain ⟨o, s', hgates', hends⟩ := ih reply hrest
    exact ⟨o, s', hgates'.trans hgates, fun store => .call (hanswer store) (hends store)⟩

/-- Several effects ask only what is harmless if each of them does. -/
theorem only_processAll {gates : List String} {effects : List Effect}
    (h : ∀ effect ∈ effects, effect.Harmless home gates) :
    (Effect.processAll effects : Process ω Unit).Only (·.Harmless home gates) := by
  induction effects with
  | nil => trivial
  | cons effect rest ih =>
    have heffect := h effect List.mem_cons_self
    refine only_bind ?_ fun _ => ih fun e he => h e (List.mem_cons_of_mem _ he)
    cases effect with
    | announce notice => exact only_ask trivial
    | advance duration => exact only_ask trivial
    | outage shard on => exact only_ask heffect
    | pass gate => exact only_ask heffect

end Harmless

end Process

/-! ## Parts that may fail -/

namespace Action

open Process

variable {ε : Type} {home : ShardId} {s mid s' : Scene} {x : Action ω ε α} {f : α → Action ω ε β}

/-- A sequence of actions ends where its second part does, once the first has succeeded. -/
theorem ends_bind {a : α} {o : Except Panic (Except ε β)}
    (hx : x.run.Ends home s (.ok (.ok a)) mid) (hf : (f a).run.Ends home mid o s') :
    (x >>= f).run.Ends home s o s' := by
  rw [run_bind]
  exact Process.ends_bind hx hf

/-- A sequence of actions ends with the error of its first part. -/
theorem ends_bind_error {e : ε} (hx : x.run.Ends home s (.ok (.error e)) s') :
    (x >>= f).run.Ends home s (.ok (.error e)) s' := by
  rw [run_bind]
  exact Process.ends_bind hx .done

/-- A sequence of actions ends with the panic of its first part. -/
theorem ends_bind_panic {cause : Panic} (hx : x.run.Ends home s (.error cause) s') :
    (x >>= f).run.Ends home s (.error cause) s' := by
  rw [run_bind]
  exact Process.ends_bind_panic hx

/-- A process that is run as an action ends with a success. -/
theorem ends_lift {p : Process ω α} {a : α} (hp : p.Ends home s (.ok a) s') :
    (ExceptT.lift p : Action ω ε α).run.Ends home s (.ok (.ok a)) s' :=
  Process.ends_bind hp .done

/-- An action of the store ends the same, with its error wrapped. -/
theorem ends_storing {x : Action ω StoreError α} {outcome : Except StoreError α}
    (hx : x.run.Ends home s (.ok outcome) s') :
    (storing x).run.Ends home s (.ok (outcome.mapError .store)) s' :=
  Process.ends_bind hx .done

end Action

/-! ## The operations of a store -/

namespace Session

open Process

variable {ε : Type} {home : ShardId} {s s' : Scene} {tx : TransactionId} {location : Location}
  {id : TaskId}

/-- No operation has been made to fail. -/
theorem ends_probed {point : StorePoint} {operation : Action ω StoreError α}
    {o : Except Panic (Except StoreError α)} (h : operation.run.Ends home s o s') :
    (probe home point >>= fun _ => operation).run.Ends home s o s' :=
  Action.ends_bind (ends_ask (if_pos rfl)) h

/-- Reading the clock ends with the time and changes nothing. -/
theorem ends_now : (now : Action ω ε Instant).run.Ends home s (.ok (.ok s.clock)) s :=
  Action.ends_lift (ends_ask rfl)

/-- Beginning a transaction ends as the store begins it. -/
theorem ends_begin : (begin home : Action ω StoreError Handle).run.Ends home s
    (.ok (s.store.begin.2.map (Handle.mk home))) (s.on s.store.begin.1) :=
  ends_probed (ends_ask (if_pos rfl))

/-- A pick ends as the store picks. -/
theorem ends_pick {lease : LeaseSchedule} :
    (pick ⟨home, tx⟩ location lease : Action ω StoreError (Option TaskRecord)).run.Ends home s
      (.ok (s.store.pick tx s.clock location lease).2)
      (s.on (s.store.pick tx s.clock location lease).1) :=
  ends_probed (ends_ask (if_pos rfl))

/-- A commit ends as the store commits. -/
theorem ends_commit : (commit ⟨home, tx⟩ : Action ω StoreError Unit).run.Ends home s
    (.ok (s.store.commit tx).2) (s.on (s.store.commit tx).1) :=
  ends_probed (ends_ask (if_pos rfl))

/-- A deletion that does not wait ends as the store deletes. -/
theorem ends_delete {store : Store} {answer : Except StoreError Bool}
    (h : s.store.delete tx location id = (store, some answer)) :
    (delete ⟨home, tx⟩ location id : Action ω StoreError Bool).run.Ends home s (.ok answer)
      (s.on store) := by
  refine ends_probed (ends_ask ((if_pos rfl).trans ?_))
  rw [h]
  rfl

/-- A rescheduling that does not wait ends as the store reschedules. -/
theorem ends_reenqueue {delay : Duration} {fresh : Bool} {store : Store}
    {answer : Except StoreError Bool}
    (h : s.store.reenqueue tx s.clock location id delay fresh = (store, some answer)) :
    (reenqueue ⟨home, tx⟩ location id delay fresh : Action ω StoreError Bool).run.Ends home s
      (.ok answer) (s.on store) := by
  refine ends_probed (Action.ends_bind ends_now (ends_ask ((if_pos rfl).trans ?_)))
  rw [h]
  rfl

end Session

/-- A transaction for one part is opened before it and abandoned after it. -/
theorem ends_withTransaction {home : ShardId} {body : Handle → Action ω QueueError α}
    {s s' : Scene} {opened : Store} {tx : TransactionId}
    {o : Except Panic (Except QueueError α)} (hbegin : s.store.begin = (opened, .ok tx))
    (hbody : (body ⟨home, tx⟩).run.Ends home (s.on opened) o s') :
    (withTransaction home body).run.Ends home s o (s'.on (s'.store.abandon tx)) := by
  have hopened : (Session.begin home : Action ω StoreError Handle).run.Ends home s
      (.ok (.ok ⟨home, tx⟩)) (s.on opened) := by
    have h : (Session.begin home : Action ω StoreError Handle).run.Ends home s
        (.ok (s.store.begin.2.map (Handle.mk home))) (s.on s.store.begin.1) := Session.ends_begin
    rwa [hbegin] at h
  refine Action.ends_bind (Action.ends_storing hopened) ?_
  exact Process.ends_followedBy hbody (Process.ends_ask (if_pos rfl))

/-! ## Sole runs in a world -/

namespace World

variable {w w' : World ω β} {home : ShardId}

/-- The scene is what a world shows of a shard, whose operations are not made to fail. -/
structure Shows (w : World ω β) (home : ShardId) (s : Scene) : Prop where
  clock : w.clock = s.clock
  time : w.time = s.time
  trace : w.trace = s.trace
  gates : w.gates = s.gates
  calls : w.calls = s.calls
  shard : ∃ shard, w.shards.get? home = some shard ∧ shard.store = s.store ∧
    ∀ point, shard.faults point = 0

/-- A world that shows a scene has its store at home. -/
theorem Shows.store {s : Scene} (h : w.Shows home s) : w.store home = s.store := by
  obtain ⟨shard, hshard, hstore, -⟩ := h.shard
  unfold World.store
  rw [hshard]
  exact hstore

/-- The scene of a shard. -/
def scene (w : World ω β) (home : ShardId) : Scene :=
  ⟨w.clock, w.time, w.trace, w.gates, w.calls, w.store home⟩

/-- A world without faults at home shows its scene. -/
theorem shows_scene
    (h : ∃ shard, w.shards.get? home = some shard ∧ ∀ point, shard.faults point = 0) :
    w.Shows home (w.scene home) := by
  obtain ⟨shard, hshard, hfaults⟩ := h
  refine ⟨rfl, rfl, rfl, rfl, rfl, shard, hshard, ?_, hfaults⟩
  unfold scene World.store
  rw [hshard]
  rfl

/-- Two worlds have the same executors, and no processes that the first one does not have. -/
structure SameAside (w w' : World ω β) : Prop where
  executors : w'.executors = w.executors
  nextFiber : w'.nextFiber = w.nextFiber
  fibers : ∀ {k}, w.fibers.get? k = none → w'.fibers.get? k = none

/-- A world is the same as itself aside from home. -/
theorem SameAside.refl (w : World ω β) : SameAside w w := ⟨rfl, rfl, id⟩

/-- What is the same aside from home in two steps is so in one. -/
theorem SameAside.trans {w'' : World ω β} (h : SameAside w w') (h' : SameAside w' w'') :
    SameAside w w'' :=
  ⟨h'.executors.trans h.executors, h'.nextFiber.trans h.nextFiber,
    fun hk => h'.fibers (h.fibers hk)⟩

/-- A store of the shard is put in place of the old one. -/
theorem Shows.setStore {s : Scene} (h : w.Shows home s) (store : Store) :
    (w.setStore home store).Shows home (s.on store) where
  clock := h.clock
  time := h.time
  trace := h.trace
  gates := h.gates
  calls := h.calls
  shard := by
    obtain ⟨shard, hshard, -, hfaults⟩ := h.shard
    refine ⟨{ shard with store := store }, ?_, rfl, hfaults⟩
    unfold World.setStore
    rw [OrderedMap.get?_modify, if_pos rfl, hshard]
    rfl

/-- A change of a process leaves the scene as it is. -/
theorem Shows.modifyFiber {s : Scene} (h : w.Shows home s) (id : FiberId)
    (f : Fiber ω β → Fiber ω β) : (w.modifyFiber id f).Shows home s :=
  ⟨h.clock, h.time, h.trace, h.gates, h.calls, h.shard⟩

/-- A change of a process leaves the other stores as they are. -/
theorem sameAside_modifyFiber (w : World ω β) (id : FiberId) (f : Fiber ω β → Fiber ω β) :
    SameAside w (w.modifyFiber id f) where
  executors := rfl
  nextFiber := rfl
  fibers {k} hk := by
    unfold World.modifyFiber
    rw [OrderedMap.get?_modify]
    split
    · next hid =>
      subst hid
      rw [hk]
      rfl
    · exact hk

/-- A change of the store at home leaves the other stores as they are. -/
theorem sameAside_setStore (w : World ω β) (shard : ShardId) (store : Store) :
    SameAside w (w.setStore shard store) := ⟨rfl, rfl, id⟩

/-- An operation in a transaction sees the store of the scene. -/
theorem Shows.inStore {s : Scene} (hw : w.Shows home s) (tx : TransactionId)
    (act : Store → TransactionId → Store × Except StoreError α) :
    ∃ w', w.inStore ⟨home, tx⟩ act = (w', .answer (act s.store tx).2) ∧
      w'.Shows home (s.on (act s.store tx).1) ∧ SameAside w w' := by
  refine ⟨_, ?_, hw.setStore _, sameAside_setStore w home _⟩
  simp only [World.inStore, hw.store]

/-- So does one that might have to wait. -/
theorem Shows.inStoreWaiting {s : Scene} (hw : w.Shows home s) (tx : TransactionId)
    (act : Store → TransactionId → Store × Option (Except StoreError α))
    {answer : Except StoreError α} (hanswer : (act s.store tx).2 = some answer) :
    ∃ w', w.inStoreWaiting ⟨home, tx⟩ act = (w', .answer answer) ∧
      w'.Shows home (s.on (act s.store tx).1) ∧ SameAside w w' := by
  refine ⟨_, ?_, hw.setStore _, sameAside_setStore w home _⟩
  simp only [World.inStoreWaiting, hw.store]
  generalize act s.store tx = outcome at hanswer
  obtain ⟨store, answer'⟩ := outcome
  cases hanswer
  rfl

/-- What the world answers is what is answered in the scene. -/
theorem perform_of_answer? {s s' : Scene} {jobProgram : ω → Process ω Unit} {r : Request ω}
    {reply : r.Reply} (hw : w.Shows home s) (h : s.answer? home r = some (s', reply))
    (id : FiberId) :
    ∃ w', w.perform jobProgram id r = (w', .answer reply) ∧ w'.Shows home s' ∧ SameAside w w' := by
  cases r with
  | now =>
    cases h
    exact ⟨w, by rw [← hw.clock]; rfl, hw, .refl w⟩
  | advance d =>
    cases h
    refine ⟨_, rfl, ⟨?_, hw.time, hw.trace, hw.gates, hw.calls, hw.shard⟩, ⟨rfl, rfl, fun hk => hk⟩⟩
    exact congrArg (·.advance d) hw.clock
  | report notice =>
    cases h
    refine ⟨_, rfl, ⟨hw.clock, hw.time, ?_, hw.gates, hw.calls, hw.shard⟩, ⟨rfl, rfl, fun hk => hk⟩⟩
    rw [hw.time, hw.trace]
  | invocation consumer =>
    cases h
    refine ⟨{ w with calls := s.calls.insert consumer ((s.calls.get? consumer).getD 0 + 1) }, ?_,
      ⟨hw.clock, hw.time, hw.trace, hw.gates, rfl, hw.shard⟩, ⟨rfl, rfl, fun hk => hk⟩⟩
    simp only [perform, hw.calls]
  | pass gate =>
    simp only [Scene.answer?] at h
    split at h
    · next hgate =>
      cases h
      refine ⟨w, ?_, hw, .refl w⟩
      simp only [perform, hw.gates]
      rw [if_pos hgate]
    · cases h
  | probe shard point =>
    simp only [Scene.answer?] at h
    split at h
    · next hshard =>
      subst hshard
      cases h
      obtain ⟨entry, hentry, -, hfaults⟩ := hw.shard
      refine ⟨w, ?_, hw, .refl w⟩
      simp only [perform, probe, hentry, Option.map_some, Option.getD_some, hfaults]
    · cases h
  | outage shard on =>
    simp only [Scene.answer?] at h
    split at h
    · cases h
    · next hshard =>
      cases h
      refine ⟨_, rfl, ⟨hw.clock, hw.time, hw.trace, hw.gates, hw.calls, ?_⟩,
        sameAside_setStore w shard _⟩
      obtain ⟨entry, hentry, hrest⟩ := hw.shard
      refine ⟨entry, ?_, hrest⟩
      unfold World.setStore
      rw [OrderedMap.get?_modify, if_neg (Ne.symm hshard)]
      exact hentry
  | begin shard =>
    simp only [Scene.answer?] at h
    split at h
    · next hshard =>
      subst hshard
      cases h
      simp only [perform, begin, hw.store]
      generalize s.store.begin = outcome
      obtain ⟨store, answer⟩ := outcome
      cases answer with
      | ok tx =>
        exact ⟨_, rfl, (hw.setStore store).modifyFiber id _,
          (sameAside_setStore w shard store).trans (sameAside_modifyFiber _ id _)⟩
      | error e => exact ⟨_, rfl, hw.setStore store, sameAside_setStore w shard store⟩
    · cases h
  | pick tx location lease =>
    simp only [Scene.answer?] at h
    split at h
    · next hshard =>
      subst hshard
      cases h
      simp only [perform, hw.clock]
      exact hw.inStore tx.transaction fun store t => store.pick t s.clock location lease
    · cases h
  | commit tx =>
    simp only [Scene.answer?] at h
    split at h
    · next hshard =>
      subst hshard
      cases h
      exact hw.inStore tx.transaction Store.commit
    · cases h
  | abandon tx =>
    simp only [Scene.answer?] at h
    split at h
    · next hshard =>
      subst hshard
      cases h
      have hheld := (hw.setStore (s.store.abandon tx.transaction)).modifyFiber id
        fun f => { f with held := f.held.filter (· ≠ tx) }
      refine ⟨_, ?_, hheld, (sameAside_setStore w tx.shard _).trans (sameAside_modifyFiber _ id _)⟩
      simp only [perform, abandon, hw.store]
    · cases h
  | delete tx location task =>
    simp only [Scene.answer?] at h
    split at h
    · next hshard =>
      subst hshard
      obtain ⟨answer, hanswer, heq⟩ := Option.map_eq_some_iff.1 h
      cases heq
      exact hw.inStoreWaiting tx.transaction (fun store t => store.delete t location task) hanswer
    · cases h
  | reenqueue tx asOf location task delay fresh =>
    simp only [Scene.answer?] at h
    split at h
    · next hshard =>
      subst hshard
      obtain ⟨answer, hanswer, heq⟩ := Option.map_eq_some_iff.1 h
      cases heq
      exact hw.inStoreWaiting tx.transaction
        (fun store t => store.reenqueue t asOf location task delay fresh) hanswer
    · cases h
  | _ => cases h

/-- Where a process ends in the scene, its turn in the world ends, in the same way. -/
theorem run_of_ends {s s' : Scene} {jobProgram : ω → Process ω Unit} {p : Process ω γ}
    {o : Except Panic γ} (h : p.Ends home s o s') (hw : w.Shows home s) (id : FiberId) :
    ∃ w', w.run jobProgram id p = (w', .ended o) ∧ w'.Shows home s' ∧ SameAside w w' := by
  induction h generalizing w with
  | done => exact ⟨w, rfl, hw, .refl w⟩
  | panic => exact ⟨w, rfl, hw, .refl w⟩
  | call hanswer _ ih =>
    obtain ⟨mid, hperform, hshows, hsame⟩ := perform_of_answer? hw hanswer id
    have hwake : mid.wake.Shows home _ :=
      ⟨hshows.clock, hshows.time, hshows.trace, hshows.gates, hshows.calls, hshows.shard⟩
    obtain ⟨w', hrun, hshows', hsame'⟩ := ih hwake
    refine ⟨w', ?_, hshows', ?_⟩
    · rw [run, hperform]
      exact hrun
    · exact hsame.trans ⟨hsame'.executors, hsame'.nextFiber, hsame'.fibers⟩

/-- A turn goes on where the first part of its program has ended. -/
theorem run_bind {jobProgram : ω → Process ω Unit} {id : FiberId} {p : Process ω α}
    {f : α → Process ω γ} {a : α} (h : w.run jobProgram id p = (w', .ended (.ok a))) :
    w.run jobProgram id (p.bind f) = w'.run jobProgram id (f a) := by
  induction p generalizing w with
  | done a' =>
    cases h
    rfl
  | panic cause => cases h
  | call r next ih =>
    rw [run] at h
    show w.run jobProgram id (.call r fun reply => (next reply).bind f) = _
    rw [run]
    split at h
    · exact ih _ h
    · cases h

end World

end LeaseQueue
