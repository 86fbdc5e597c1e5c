import LeaseQueue.Proofs.EngineRuns
import LeaseQueue.Proofs.TaskRetention

/-!
# No task is lost

Whatever happens to an engine, a task that a producer has committed stays in its queue until a
consumer has come to the verdict that it is done.  Processes may be dropped anywhere, payloads may
be unreadable, consumers may fail or panic and databases may be cut off: none of this makes for a
deletion that is committed.

The account of the engine is a ledger for each of its stores: it says which rows have been put in
and committed, and for which ones a consumer has come to that verdict.  A deletion is asked for only
after the verdict, so the ledger always has the reason.
-/

set_option autoImplicit false

namespace LeaseQueue

variable {α : Type}

open Process

/-- In these exchanges of a deed the consumer of a queue has come to the verdict that a task is
done. -/
def Deed.Finished : Deed α → ShardId → Location → TaskId → List (Exchange (Job α)) → Prop
  | produce .., _, _, _, _ => False
  | poll runner, shard, location, id, es => runner.processor.shard = shard ∧
    runner.processor.location = location ∧ runner.Finished id es
  | work job, shard, location, id, es => job.processor.shard = shard ∧
    job.processor.location = location ∧ job.record.id = id ∧ job.processor.Finished job.record es

/-- What is finished is so whatever is said after it. -/
theorem Deed.Finished.append_right {deed : Deed α} {shard : ShardId} {location : Location}
    {id : TaskId} {es : List (Exchange (Job α))} (h : deed.Finished shard location id es)
    (ys : List (Exchange (Job α))) : deed.Finished shard location id (es ++ ys) := by
  cases deed with
  | produce producer task => exact h
  | poll runner => exact ⟨h.1, h.2.1, h.2.2.append_right ys⟩
  | work job => exact ⟨h.1, h.2.1, h.2.2.1, h.2.2.2.append_right ys⟩

/-- A process whose result is ignored asks what it asks by itself. -/
theorem Process.asks_ignoring {ω β : Type} {p : Process ω β} {es : List (Exchange ω)}
    {r : Request ω} (h : Asks p.ignoring es r) : Asks p es r := by
  rcases asks_bind h with h | ⟨xs, ys, a, -, -, h⟩
  · exact h
  · exact absurd h not_asks_done

/-- A deed asks for a deletion only after the verdict of the queue's consumer. -/
theorem Deed.asks_delete {deed : Deed α} {es : List (Exchange (Job α))} {h : Handle}
    {location : Location} {id : TaskId}
    (hhonest : ∀ {shard tx}, ⟨.begin shard, .ok tx⟩ ∈ es → tx.shard = shard)
    (hasks : Asks deed.program es (.delete h location id)) :
    deed.Finished h.shard location id es := by
  cases deed with
  | produce producer task =>
    exact absurd (asks_ignoring hasks) (producer.enqueue_deletesNothing task).not_asks
  | poll runner =>
    obtain ⟨hfinished, rfl, hbegin⟩ := Runner.asks_delete_poll (asks_ignoring hasks)
    exact ⟨(hhonest hbegin).symm, rfl, hfinished⟩
  | work job =>
    obtain ⟨hfinished, rfl, rfl, htransaction⟩ := Processor.asks_delete_process hasks
    rcases htransaction with hnone | hbegin
    · cases hnone
    · exact ⟨(hhonest hbegin).symm, rfl, rfl, hfinished⟩

/-- Only a delete deletes. -/
theorem Request.eq_delete_of_action? {ω : Type} {r : Request ω} {clock : Instant}
    {shard : ShardId} {tx : TransactionId} {location : Location} {id : TaskId}
    (h : r.action? clock = some (shard, .delete tx location id)) :
    r = .delete ⟨shard, tx⟩ location id := by
  cases r <;> cases h
  rfl

/-- An action on one of the stores of a world keeps what is known of each of them. -/
theorem World.keeps_acted {ω β : Type} {w : World ω β} {l l' : Store.Ledger} {s : ShardId}
    (h : (w.store s).Keeps l) (shard : ShardId) (a : Store.Action)
    (hgrows : s = shard → Store.Grows l l' a ((w.store shard).perform a).2)
    (hother : s ≠ shard → l.SameRows l') : (w.acted shard a s).Keeps l' := by
  unfold World.acted
  by_cases hs : s = shard
  · subst hs
    by_cases hthere : w.shards.contains s = true
    · rw [if_pos ⟨rfl, hthere⟩]
      exact h.step (Store.perform_step _ a) (hgrows rfl)
    · rw [if_neg fun hand => hthere hand.2]
      have hempty := World.store_of_not_contains hthere
      have hgrows := hgrows rfl
      rw [hempty] at h hgrows ⊢
      exact h.mono hgrows.sameRows_of_empty
  · rw [if_neg fun hand => hs hand.1]
    exact h.mono (hother hs)

/-- So does a request, if the ledger tells of it what the store has answered. -/
theorem World.keeps_perform {ω β : Type} {w : World ω β} {l l' : Store.Ledger} {s : ShardId}
    (h : (w.store s).Keeps l) (jobProgram : ω → Process ω Unit) (id : FiberId) (r : Request ω)
    (hsame : (∀ a, r.action? w.clock ≠ some (s, a)) → l.SameRows l')
    (hgrows : ∀ a, r.action? w.clock = some (s, a) →
      Store.Grows l l' a ((w.store s).perform a).2) :
    ((w.perform jobProgram id r).1.store s).Keeps l' := by
  rw [World.store_perform]
  cases haction : r.action? w.clock with
  | none => exact h.mono (hsame fun a ha => by rw [haction] at ha; cases ha)
  | some action =>
    obtain ⟨shard, a⟩ := action
    refine keeps_acted h shard a (fun hs => ?_) fun hne => hsame fun b hb => ?_
    · subst hs
      exact hgrows a haction
    · rw [haction] at hb
      cases hb
      exact hne rfl

namespace Engine

/-- A producer has put a task into its queue and has committed it. -/
def Produced (e : Engine α) (shard : ShardId) (location : Location) (id : TaskId) : Prop :=
  ∃ fiber producer submission tx task, e.deed fiber = some (.produce producer submission) ∧
    ⟨.enqueue ⟨shard, tx⟩ location task, .ok id⟩ ∈ e.said fiber ∧
    ⟨.commit ⟨shard, tx⟩, .ok ()⟩ ∈ e.said fiber

/-- The consumer of a queue has been called for a task and has come to the verdict that it is
done. -/
def Finished (e : Engine α) (shard : ShardId) (location : Location) (id : TaskId) : Prop :=
  ∃ fiber deed, e.deed fiber = some deed ∧ deed.Finished shard location id (e.said fiber)

/-- What the account says of one store. -/
def ledger (e : Engine α) (shard : ShardId) : Store.Ledger where
  enqueued tx location id := ∃ fiber task,
    ⟨.enqueue ⟨shard, tx⟩ location task, .ok id⟩ ∈ e.said fiber
  committed tx := ∃ fiber, ⟨.commit ⟨shard, tx⟩, .ok ()⟩ ∈ e.said fiber
  mayGo location id := e.Finished shard location id

/-- The account fits the processes and the stores. -/
structure Sound (e : Engine α) : Prop where
  accounted : e.Accounted
  keeps : ∀ shard, (e.world.store shard).Keeps (e.ledger shard)

/-- When a deletion is asked for, the verdict is in the account. -/
theorem Accounted.finished_of_delete {e : Engine α} (h : e.Accounted) {id : FiberId}
    {tx : Handle} {location : Location} {task : TaskId}
    {next : Except StoreError Bool → Process (Job α) Unit}
    (hcall : e.world.program? id = some (.call (.delete tx location task) next)) :
    e.Finished tx.shard location task := by
  obtain ⟨deed, hdeed, hruns⟩ := h.runs hcall
  exact ⟨id, deed, hdeed, Deed.asks_delete h.honest ⟨next, hruns⟩⟩

/-- A verdict stays in the account. -/
theorem Accounted.finished_answered {e : Engine α} (h : e.Accounted) {shard : ShardId}
    {location : Location} {task : TaskId} (hfinished : e.Finished shard location task)
    (w : World (Job α) Unit) (id : FiberId) (x : Exchange (Job α)) (left : Process (Job α) Unit) :
    (e.answered w id x left).Finished shard location task := by
  obtain ⟨fiber, deed, hdeed, hfinished⟩ := hfinished
  refine ⟨fiber, deed, h.deedsAfter_of_some hdeed, ?_⟩
  rw [said_answered]
  split
  · next hfiber =>
    subst hfiber
    exact hfinished.append_right [x]
  · exact hfinished

/-- What an exchange adds to the ledgers. -/
theorem enqueued_answered {e : Engine α} {w : World (Job α) Unit} {id : FiberId}
    {x : Exchange (Job α)} {left : Process (Job α) Unit} {shard : ShardId} {tx : TransactionId}
    {location : Location} {task : TaskId}
    (h : ((e.answered w id x left).ledger shard).enqueued tx location task) :
    (e.ledger shard).enqueued tx location task ∨
      ∃ new, x = ⟨.enqueue ⟨shard, tx⟩ location new, .ok task⟩ := by
  obtain ⟨fiber, new, hmem⟩ := h
  rcases mem_said_answered hmem with hmem | ⟨-, heq⟩
  · exact .inl ⟨fiber, new, hmem⟩
  · exact .inr ⟨new, heq.symm⟩

/-- After an answer a transaction is committed if it was before, or if the answer tells of it. -/
theorem committed_answered {e : Engine α} {w : World (Job α) Unit} {id : FiberId}
    {x : Exchange (Job α)} {left : Process (Job α) Unit} {shard : ShardId} {tx : TransactionId}
    (h : ((e.answered w id x left).ledger shard).committed tx) :
    (e.ledger shard).committed tx ∨ x = ⟨.commit ⟨shard, tx⟩, .ok ()⟩ := by
  obtain ⟨fiber, hmem⟩ := h
  rcases mem_said_answered hmem with hmem | ⟨-, heq⟩
  · exact .inl ⟨fiber, hmem⟩
  · exact .inr heq.symm

/-- The books are right after a request has been answered. -/
theorem Sound.answered {e : Engine α} (h : e.Sound) {w : World (Job α) Unit} {id : FiberId}
    {r : Request (Job α)} {reply : r.Reply} {next : r.Reply → Process (Job α) Unit}
    (hcall : e.world.program? id = some (.call r next))
    (hperform : e.world.perform Job.work id r = (w, .answer reply)) :
    (e.answered w id ⟨r, reply⟩ (next reply)).Sound where
  accounted := h.accounted.answered hcall hperform
  keeps s := by
    have hmayGo : ∀ {location task}, e.Finished s location task →
        (e.answered w id ⟨r, reply⟩ (next reply)).Finished s location task :=
      fun hfinished => h.accounted.finished_answered hfinished w id _ _
    have hkeeps : ((e.world.perform Job.work id r).1.store s).Keeps
        ((e.answered w id ⟨r, reply⟩ (next reply)).ledger s) := by
      refine World.keeps_perform (h.keeps s) Job.work id r (fun hnone => ?_) fun a haction => ?_
      · -- a request that is no action on this store adds nothing to its ledger
        refine ⟨fun hput => ?_, fun hended => ?_, hmayGo⟩
        · rcases enqueued_answered hput with hput | ⟨new, heq⟩
          · exact hput
          · cases heq
            exact absurd rfl (hnone _)
        · rcases committed_answered hended with hended | heq
          · exact hended
          · cases heq
            exact absurd rfl (hnone _)
      · refine ⟨fun hput => ?_, fun hended => ?_, hmayGo, fun hdelete => ?_⟩
        · rcases enqueued_answered hput with hput | ⟨new, heq⟩
          · exact .inl hput
          · cases heq
            cases haction
            exact .inr ⟨_, new, rfl, World.perform_enqueue_answer (congrArg Prod.snd hperform)⟩
        · rcases committed_answered hended with hended | heq
          · exact .inl hended
          · cases heq
            cases haction
            exact .inr ⟨rfl, World.perform_commit_answer (congrArg Prod.snd hperform)⟩
        · -- the reason for a deletion was in the account when it was asked for
          rw [hdelete] at haction
          have hr := Request.eq_delete_of_action? haction
          subst hr
          exact hmayGo (h.accounted.finished_of_delete hcall)
    rw [hperform] at hkeeps
    exact hkeeps

/-- The books are right after a request, also if it has to wait. -/
theorem Sound.ask {e : Engine α} (h : e.Sound) {id : FiberId} {r : Request (Job α)}
    {next : r.Reply → Process (Job α) Unit}
    (hcall : e.world.program? id = some (.call r next)) : (e.ask id r next).Sound := by
  have haccounted := h.accounted.ask hcall
  rcases e.ask_cases id r next with ⟨w, condition, hperform, hask⟩ | ⟨w, reply, hperform, hask⟩
  · rw [hask] at haccounted ⊢
    refine ⟨haccounted, fun s => ?_⟩
    have hkeeps : ((e.world.perform Job.work id r).1.store s).Keeps (e.ledger s) := by
      refine World.keeps_perform (h.keeps s) Job.work id r (fun _ => .refl _) fun a haction => ?_
      refine ⟨.inl, .inl, fun hgo => hgo, fun hdelete => ?_⟩
      rw [hdelete] at haction
      have hr := Request.eq_delete_of_action? haction
      subst hr
      exact h.accounted.finished_of_delete hcall
    rw [hperform] at hkeeps
    exact hkeeps
  · rw [hask]
    exact h.answered hcall hperform

/-- A change of the world that leaves the stores and the account alone keeps the account sound. -/
theorem Sound.of_store {e : Engine α} (h : e.Sound) {w : World (Job α) Unit}
    (haccounted : Accounted { e with world := w })
    (hstore : ∀ s, w.store s = e.world.store s) : Sound { e with world := w } where
  accounted := haccounted
  keeps s := by
    show (w.store s).Keeps (e.ledger s)
    rw [hstore]
    exact h.keeps s

/-- The books are right after something has begun. -/
theorem Sound.begin {e : Engine α} (h : e.Sound) (deed : Deed α) : (e.begin deed).Sound where
  accounted := h.accounted.begin deed
  keeps s := by
    have hstore : (e.begin deed).world.store s = e.world.store s := rfl
    rw [hstore]
    refine (h.keeps s).mono ⟨fun hput => hput, fun hended => hended, ?_⟩
    rintro location task ⟨fiber, deed', hdeed, hfinished⟩
    have hne : fiber ≠ e.world.nextFiber := Nat.ne_of_lt (h.accounted.lt_nextFiber hdeed)
    exact ⟨fiber, deed', (Function.update_of_ne hne _ _).trans hdeed, hfinished⟩

/-- The books are right after a process has come to its end. -/
theorem Sound.finish {e : Engine α} (h : e.Sound) (id : FiberId) (f : Fiber (Job α) Unit) :
    (e.finish id f).Sound := by
  have haccounted := h.accounted.finish id f
  obtain ⟨w, hfinish, hstore, -⟩ := e.finish_world id f
  rw [hfinish] at haccounted ⊢
  exact h.of_store haccounted hstore

/-- The books are right after a process has gone on. -/
theorem Sound.go {e : Engine α} (h : e.Sound) (id : FiberId) : (e.go id).Sound := by
  rcases e.go_cases id with ⟨-, hgo⟩ | ⟨f, -, -, -, hgo⟩ | ⟨r, next, hcall, hgo⟩
  · rw [hgo]
    exact h
  · rw [hgo]
    exact h.finish id f
  · rw [hgo]
    exact h.ask hcall

/-- The transactions of a dropped process are taken back one after the other. -/
theorem keeps_abandon {w : World (Job α) Unit} {l : ShardId → Store.Ledger}
    (h : ∀ s, (w.store s).Keeps (l s)) (handles : List Handle) (s : ShardId) :
    ((handles.foldl World.abandon w).store s).Keeps (l s) := by
  induction handles generalizing w with
  | nil => exact h s
  | cons tx rest ih =>
    refine ih fun s => ?_
    have hstore : (w.abandon tx).store s = w.acted tx.shard (.abandon tx.transaction) s :=
      w.store_setStore tx.shard s _
    rw [hstore]
    refine World.keeps_acted (h s) _ _ (fun _ => ?_) fun _ => .refl _
    exact ⟨.inl, .inl, fun hgo => hgo, fun hdelete => by cases hdelete⟩

/-- The books are right after a process has been dropped. -/
theorem Sound.drop {e : Engine α} (h : e.Sound) (id : FiberId) : (e.drop id).Sound := by
  have haccounted := h.accounted.drop id
  unfold Engine.drop at haccounted ⊢
  cases hfiber : e.world.fibers.get? id with
  | none => exact h
  | some f =>
    rw [hfiber] at haccounted
    refine ⟨haccounted, fun s => ?_⟩
    show ((e.world.bury id f).store s).Keeps (e.ledger s)
    rw [store_bury]
    exact keeps_abandon h.keeps f.held s

/-- Every move keeps the account sound. -/
theorem Sound.step {e : Engine α} (h : e.Sound) (m : Move α) : (e.step m).Sound := by
  cases m with
  | produce producer task => exact h.begin _
  | poll runner => exact h.begin _
  | go id => exact h.go id
  | drop id => exact h.drop id
  | outage shard on =>
    refine ⟨h.accounted.step (.outage shard on), fun s => ?_⟩
    have hstore : (e.step (.outage shard on)).world.store s =
        e.world.acted shard (.outage on) s := e.world.store_setStore shard s _
    rw [hstore]
    refine World.keeps_acted (h.keeps s) _ _ (fun _ => ?_) fun _ => .refl _
    exact ⟨.inl, .inl, fun hgo => hgo, fun hdelete => by cases hdelete⟩
  | fail shard point times =>
    exact h.of_store (h.accounted.step (.fail shard point times)) fun s =>
      e.world.store_setFaults shard s point times
  | meanwhile surroundings =>
    exact h.of_store (h.accounted.step (.meanwhile surroundings)) fun _ => rfl

/-- At the start there is nothing in the books. -/
theorem sound_start (clock : Instant) (shards : List ShardId) (executors : List Executor) :
    (start clock shards executors : Engine α).Sound where
  accounted := accounted_start clock shards executors
  keeps s := by
    have hstore : (start clock shards executors : Engine α).world.store s = .empty :=
      World.store_initial clock shards executors s
    rw [hstore]
    refine (Store.keeps_empty _).mono ⟨?_, ?_, fun hgo => hgo⟩
    · rintro tx location id ⟨fiber, task, hmem⟩
      cases hmem
    · rintro tx ⟨fiber, hmem⟩
      cases hmem

/-- The books stay right whatever happens. -/
theorem Sound.run {e : Engine α} (h : e.Sound) (moves : List (Move α)) : (e.run moves).Sound := by
  induction moves generalizing e with
  | nil => exact h
  | cons m rest ih => exact ih (h.step m)

/-- Under every interleaving, with processes dropped at any point: a task that a producer has
committed is in its queue, as committed, unless the queue's consumer has come to the verdict that it
is done. -/
theorem produced_task_kept (clock : Instant) (shards : List ShardId) (executors : List Executor)
    (moves : List (Move α)) {shard : ShardId} {location : Location} {id : TaskId}
    (h : ((start clock shards executors).run moves).Produced shard location id) :
    (∃ record, (((start clock shards executors).run moves).world.store shard).committed id =
        some (location, record)) ∨
      ((start clock shards executors).run moves).Finished shard location id := by
  have hsound := (sound_start (α := α) clock shards executors).run moves
  generalize (start clock shards executors).run moves = e at h hsound
  obtain ⟨fiber, producer, submission, tx, task, -, hput, hended⟩ := h
  refine ((hsound.keeps shard).kept ⟨fiber, task, hput⟩ ⟨fiber, hended⟩).imp_left fun hplace => ?_
  obtain ⟨⟨place, record⟩, hcommitted, rfl⟩ := Option.map_eq_some_iff.1 hplace
  exact ⟨record, hcommitted⟩

/-! ## A poll that is dropped before it commits -/

/-- The settings of a queue with separate transactions. -/
def plainSettings : Settings where
  noTaskTimeout := .zero
  betweenTaskTimeout := .zero
  fatalCrashTimeout := .zero
  mode := .separateTransactions
  leaseKind := .fixedInterval
  reenqueueKind := .manual
  parameters := .empty

/-- A producer of texts for one queue on one shard. -/
def plainProducer : Producer String where
  config := ⟨Store.someQueue, plainSettings⟩
  codec := .plain
  router := .single default
  shards := [default]

/-- A runner whose consumer finishes every task. -/
def finishingRunner : Runner String where
  processor := {
    shard := default
    consumer := {
      number := 0
      config := ⟨Store.someQueue, plainSettings⟩
      codec := .plain
      router := .single default
      handle := fun _ _ => ⟨[], .verdict .finish⟩ }
    listener := .silent
    reenqueue := .manual }
  lease := .fixed (.ofSeconds 60)
  boundary := .separate

/-- A task is produced and polled; its row has been deleted when the poll is dropped. -/
def droppedPoll : List (Move String) :=
  .produce plainProducer ⟨none, .zero, none, none⟩ :: List.replicate 8 (.go 0) ++
    .poll finishingRunner :: List.replicate 16 (.go 1) ++ [.drop 1]

/-- What `produced_task_kept` says of this run: the drop has brought the task back. -/
theorem task_kept_after_dropped_poll :
    ((start .epoch [default] []).run droppedPoll).Produced default Store.someQueue 1 ∧
    (((start .epoch [default] []).run droppedPoll).world.store default).records.map
      TaskRecord.id = [1] ∧
    ((∃ record, (((start .epoch [default] []).run droppedPoll).world.store default).committed 1 =
        some (Store.someQueue, record)) ∨
      ((start .epoch [default] []).run droppedPoll).Finished default Store.someQueue 1) := by
  have hput : ((start .epoch [default] []).run droppedPoll).Produced default Store.someQueue 1 :=
    ⟨0, plainProducer, ⟨none, .zero, none, none⟩, 1, ⟨none, .zero, none, none⟩, rfl,
      List.mem_of_getElem? (i := 3) rfl, List.mem_of_getElem? (i := 5) rfl⟩
  exact ⟨hput, rfl, produced_task_kept .epoch [default] [] droppedPoll hput⟩

end Engine

end LeaseQueue
