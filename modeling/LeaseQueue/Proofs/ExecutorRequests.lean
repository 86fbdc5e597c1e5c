import Mathlib.Logic.Function.Basic
import LeaseQueue.World.Schedule
import LeaseQueue.Proofs.ExecutorSlots

/-!
# Executors and the requests of processes

The processes of a world use its executors through their requests.  If all of them keep to `slotUse`
then the accounts of the executors are right whenever no process has its turn (`World.Managed`): the
slots of each make up its limit, its jobs are the processes that run them, and nobody is in its
queue but processes that ask for one of its slots.

While a process has its turn the same holds, but for the slot that the process may have in hand and
for what it asks next; so both stand in the statement, which is carried from request to request
(`Managed.perform`) until the process ends or has to wait (`Managed.run`).  What else stays as it
was meanwhile is `World.Grows`.
-/

set_option autoImplicit false

namespace LeaseQueue

variable {ω β γ : Type}

/-- The executor of which a slot is asked for. -/
def Request.seeks? : Request ω → Option ExecutorId
  | .slot e => some e
  | _ => none

/-- The executor of which a process asks for a slot next. -/
def Process.seeks? : Process ω γ → Option ExecutorId
  | .call r _ => r.seeks?
  | _ => none

namespace Body

/-- The executor of which a process asks for a slot next. -/
def seeks? : Body ω β → Option ExecutorId
  | .operation program => program.seeks?
  | .job _ program => program.seeks?
  | .loop _ program => program.seeks?

/-- The executor in a slot of which a job runs. -/
def executor? : Body ω β → Option ExecutorId
  | .job e _ => some e
  | _ => none

/-- All that is left of a process keeps to the use of slots. -/
def Orderly : Body ω β → Prop
  | .operation program => program.Orderly
  | .job _ program => program.Orderly
  | .loop round program => round.Orderly ∧ program.Orderly

end Body

namespace World

/-- What the processes do. -/
def bodies (w : World ω β) : OrderedMap FiberId (Body ω β) := w.fibers.mapValues Fiber.body

/-- The executor of which a process asks for a slot next. -/
def seeks? (w : World ω β) (k : FiberId) : Option ExecutorId := (w.bodies.get? k).bind Body.seeks?

/-- The processes that run jobs of an executor. -/
def unfinished (w : World ω β) (e : ExecutorId) : List FiberId :=
  (w.bodies.entries.filter fun b => b.2.executor? == some e).map Prod.fst

/-- The unfinished jobs of an executor are the processes that run there. -/
theorem mem_unfinished {w : World ω β} {e : ExecutorId} {k : FiberId} :
    k ∈ w.unfinished e ↔ ∃ b, w.bodies.get? k = some b ∧ b.executor? = some e := by
  simp only [unfinished, List.mem_map, List.mem_filter, Prod.exists, beq_iff_eq,
    OrderedMap.mem_entries, exists_and_right, exists_eq_right]

/-- No job is unfinished twice. -/
theorem nodup_unfinished (w : World ω β) (e : ExecutorId) : (w.unfinished e).Nodup :=
  w.bodies.nodup_keys.sublist (List.filter_sublist.map Prod.fst)

/-- The processes that run jobs are as many as before if they are the same. -/
theorem length_unfinished {w w' : World ω β} {e : ExecutorId}
    (h : ∀ k, k ∈ w'.unfinished e ↔ k ∈ w.unfinished e) :
    (w'.unfinished e).length = (w.unfinished e).length :=
  ((List.perm_ext_iff_of_nodup (w'.nodup_unfinished e) (w.nodup_unfinished e)).2 h).length_eq

/-- A process that runs a job counts as one. -/
theorem length_unfinished_succ {w w' : World ω β} {e : ExecutorId} (id : FiberId)
    (hnew : id ∉ w.unfinished e)
    (h : ∀ k, k ∈ w'.unfinished e ↔ k = id ∨ k ∈ w.unfinished e) :
    (w'.unfinished e).length = (w.unfinished e).length + 1 := by
  have hnodup : (id :: w.unfinished e).Nodup := List.nodup_cons.2 ⟨hnew, w.nodup_unfinished e⟩
  refine ((List.perm_ext_iff_of_nodup (w'.nodup_unfinished e) hnodup).2 fun k => ?_).length_eq
  rw [h, List.mem_cons]

/-- After an executor has been put in place the others are as they were. -/
theorem executor_setExecutor (w : World ω β) (e e' : ExecutorId) (x : Executor) :
    (w.setExecutor e x).executor e' =
      if e' = e ∧ e < w.executors.length then x else w.executor e' := by
  unfold executor setExecutor
  simp only [List.getElem?_set]
  by_cases heq : e = e'
  · subst heq
    by_cases hlt : e < w.executors.length
    · simp [hlt]
    · simp [hlt]
  · simp [heq, Ne.symm heq]

/-- An executor that is replaced by one with the same limit leaves the limits as they are. -/
theorem limits_setExecutor {w : World ω β} {e : ExecutorId} {x : Executor}
    (hlimit : x.limit = (w.executor e).limit) :
    (w.setExecutor e x).executors.map Executor.limit = w.executors.map Executor.limit := by
  refine List.ext_getElem? fun i => ?_
  show ((w.executors.set e x).map Executor.limit)[i]? = _
  rw [List.map_set, hlimit, List.getElem?_set]
  by_cases hi : e = i
  · subst hi
    unfold executor
    by_cases he : e < w.executors.length
    · simp [he]
    · simp [he]
  · rw [if_neg hi]

/-- An executor that was never made is taken to be one with a single slot. -/
theorem executor_of_length_le {w : World ω β} {e : ExecutorId} (h : w.executors.length ≤ e) :
    w.executor e = .make 1 := by
  unfold executor
  rw [List.getElem?_eq_none h]
  rfl

/-! ## Worlds that are alike -/

/-- Two worlds with the same executors and processes that do the same, and the same results. -/
structure Alike (w w' : World ω β) : Prop where
  executors : w'.executors = w.executors
  bodies : w'.bodies = w.bodies
  nextFiber : w'.nextFiber = w.nextFiber
  results : w'.results = w.results

/-- A world is like itself. -/
theorem Alike.refl (w : World ω β) : w.Alike w := ⟨rfl, rfl, rfl, rfl⟩

/-- What is like something like a world is like the world. -/
theorem Alike.trans {w w' w'' : World ω β} (h : w.Alike w') (h' : w'.Alike w'') : w.Alike w'' where
  executors := h'.executors.trans h.executors
  bodies := h'.bodies.trans h.bodies
  nextFiber := h'.nextFiber.trans h.nextFiber
  results := h'.results.trans h.results

/-- Worlds that are alike have the same executors. -/
theorem Alike.executor {w w' : World ω β} (h : w.Alike w') (e : ExecutorId) :
    w'.executor e = w.executor e := by
  unfold World.executor
  rw [h.executors]

/-- Worlds that are alike have the same unfinished jobs. -/
theorem Alike.unfinished {w w' : World ω β} (h : w.Alike w') (e : ExecutorId) :
    w'.unfinished e = w.unfinished e := by
  unfold World.unfinished
  rw [h.bodies]

/-- In worlds that are alike the same processes seek slots. -/
theorem Alike.seeks? {w w' : World ω β} (h : w.Alike w') : w'.seeks? = w.seeks? := by
  funext k
  unfold World.seeks?
  rw [h.bodies]

/-- To wake those whose wait is over changes nothing here. -/
theorem alike_wake (w : World ω β) : w.Alike w.wake := ⟨rfl, rfl, rfl, rfl⟩

/-- A store is no matter of executors. -/
theorem alike_setStore (w : World ω β) (shard : ShardId) (store : Store) :
    w.Alike (w.setStore shard store) := ⟨rfl, rfl, rfl, rfl⟩

/-- A change that leaves the bodies of processes alone leaves all of them as they are. -/
theorem bodies_modifyFiber (w : World ω β) (id : FiberId) (f : Fiber ω β → Fiber ω β)
    (hf : ∀ x, (f x).body = x.body) : (w.modifyFiber id f).bodies = w.bodies := by
  refine OrderedMap.ext_get? fun k => ?_
  simp only [bodies, modifyFiber, OrderedMap.get?_mapValues, OrderedMap.get?_modify]
  split
  · rw [Option.map_map]
    exact congrArg (Option.map · _) (funext hf)
  · rfl

/-- A change that leaves the bodies of processes alone changes nothing here. -/
theorem alike_modifyFiber (w : World ω β) (id : FiberId) (f : Fiber ω β → Fiber ω β)
    (hf : ∀ x, (f x).body = x.body) : w.Alike (w.modifyFiber id f) :=
  ⟨rfl, w.bodies_modifyFiber id f hf, rfl, rfl⟩

/-- To abandon a transaction changes nothing here. -/
theorem alike_abandon (w : World ω β) (tx : Handle) : w.Alike (w.abandon tx) :=
  w.alike_setStore tx.shard _

/-- To call processes off changes nothing here. -/
theorem alike_abort (w : World ω β) (ids : List FiberId) : w.Alike (w.abort ids) := by
  have hfold : ∀ (ids : List FiberId) (fibers : OrderedMap FiberId (Fiber ω β)),
      (ids.foldl (fun fibers id => fibers.modify id fun f => { f with aborted := true })
        fibers).mapValues Fiber.body = fibers.mapValues Fiber.body := by
    intro ids
    induction ids with
    | nil => exact fun _ => rfl
    | cons id rest ih =>
      intro fibers
      refine (ih _).trans (OrderedMap.ext_get? fun k => ?_)
      simp only [OrderedMap.get?_mapValues, OrderedMap.get?_modify]
      split
      · rw [Option.map_map]
        rfl
      · rfl
  exact ⟨rfl, hfold _ w.fibers, rfl, rfl⟩

/-- The begin of a transaction changes nothing here. -/
theorem alike_begin (w : World ω β) (id : FiberId) (shard : ShardId) :
    w.Alike (w.begin id shard).1 := by
  unfold World.begin
  split
  · exact (w.alike_setStore shard _).trans (alike_modifyFiber _ _ _ fun _ => rfl)
  · exact w.alike_setStore shard _

/-- An operation on a store that may have to wait changes nothing here. -/
theorem alike_inStoreWaiting {α : Type} (w : World ω β) (tx : Handle)
    (act : Store → TransactionId → Store × Option (Except StoreError α)) :
    w.Alike (w.inStoreWaiting tx act).1 := by
  unfold inStoreWaiting
  split
  · exact w.alike_setStore _ _
  · exact .refl w

end World

/-- A request that neither asks for a slot nor starts a job nor closes an executor. -/
def Request.Unrelated : Request ω → Prop
  | .slot _ | .handOver .. | .close _ => False
  | _ => True

namespace World

variable {jobProgram : ω → Process ω Unit} {w w' : World ω β} {id : FiberId}

/-- A request that has to do with no executor changes nothing here. -/
theorem alike_perform {r : Request ω} (h : r.Unrelated) :
    w.Alike (w.perform jobProgram id r).1 := by
  cases r with
  | slot _ | handOver _ _ | close _ => exact h.elim
  | probe shard point =>
    simp only [perform, probe]
    split <;> exact ⟨rfl, rfl, rfl, rfl⟩
  | begin shard => exact w.alike_begin id shard
  | delete tx location task => exact w.alike_inStoreWaiting tx _
  | reenqueue tx asOf location task delay fresh => exact w.alike_inStoreWaiting tx _
  | abandon tx => exact (w.alike_abandon tx).trans (alike_modifyFiber _ _ _ fun _ => rfl)
  | pass gate =>
    simp only [perform]
    split <;> exact .refl w
  | passBefore _ _ | drained _ _ =>
    simp only [perform]
    split
    · exact .refl w
    · split <;> exact .refl w
  | sleepUntil t =>
    simp only [perform]
    split <;> exact .refl w
  | pauseUntil t =>
    simp only [perform]
    split <;> exact .refl w
  | beginDraining =>
    simp only [perform]
    split <;> exact ⟨rfl, rfl, rfl, rfl⟩
  | ended fibers deadline =>
    simp only [perform]
    split
    · exact .refl w
    · split <;> exact .refl w
  | abort fibers => exact w.alike_abort fibers
  | _ => exact ⟨rfl, rfl, rfl, rfl⟩

/-- What never changes while a process has its turn: results are not given, and processes that were
there stay as they were.  Those that come are jobs, and none of them in an executor that was closed
before. -/
structure Grows (jobProgram : ω → Process ω Unit) (w w' : World ω β) : Prop where
  length : w'.executors.length = w.executors.length
  closed : ∀ e, (w.executor e).closed = true → (w'.executor e).closed = true
  next_le : w.nextFiber ≤ w'.nextFiber
  kept : ∀ k < w.nextFiber, w'.bodies.get? k = w.bodies.get? k
  made : ∀ k b, w.nextFiber ≤ k → w'.bodies.get? k = some b →
    ∃ e job, b = .job e (jobProgram job) ∧ (w.executor e).closed = false
  results : w'.results = w.results

/-- The accounts of the executors of a world, in which processes ask for slots next, and one of them
may have a slot in hand. -/
structure Managed (w : World ω β) (limits : List Nat) (seeks : FiberId → Option ExecutorId)
    (hand : Option ExecutorId) : Prop where
  limited : w.executors.map Executor.limit = limits
  fresh : ∀ {k b}, w.bodies.get? k = some b → k < w.nextFiber
  orderly : ∀ {k b}, w.bodies.get? k = some b → b.Orderly
  sound : ∀ {e}, e < w.executors.length → (w.executor e).Sound (if hand = some e then 1 else 0)
  active : ∀ {e}, e < w.executors.length → (w.executor e).active = (w.unfinished e).length
  queued : ∀ {e k}, k ∈ (w.executor e).queue → seeks k = some e
  isOpen : ∀ {e}, hand = some e → (w.executor e).closed = false

section Managed

variable {limits : List Nat} {seeks : FiberId → Option ExecutorId} {hand : Option ExecutorId}

/-- What is alike has grown by nothing. -/
theorem Grows.of_alike (h : w.Managed limits seeks hand) (halike : w.Alike w') :
    w.Grows jobProgram w' where
  length := congrArg List.length halike.executors
  closed e hclosed := (congrArg Executor.closed (halike.executor e)).trans hclosed
  next_le := Nat.le_of_eq halike.nextFiber.symm
  kept k _ := by rw [halike.bodies]
  made k b hle hb := by
    rw [halike.bodies] at hb
    exact absurd (h.fresh hb) (Nat.not_lt.2 hle)
  results := halike.results

/-- What grows over two stretches grows over both. -/
theorem Grows.trans {w'' : World ω β} (h : w.Grows jobProgram w') (h' : w'.Grows jobProgram w'') :
    w.Grows jobProgram w'' where
  length := h'.length.trans h.length
  closed e hclosed := h'.closed e (h.closed e hclosed)
  next_le := Nat.le_trans h.next_le h'.next_le
  kept k hk := (h'.kept k (Nat.lt_of_lt_of_le hk h.next_le)).trans (h.kept k hk)
  made k b hle hb := by
    by_cases hk : k < w'.nextFiber
    · exact h.made k b hle ((h'.kept k hk).symm.trans hb)
    · obtain ⟨e, job, rfl, hopen⟩ := h'.made k b (Nat.not_lt.1 hk) hb
      refine ⟨e, job, rfl, ?_⟩
      cases hclosed : (w.executor e).closed with
      | false => rfl
      | true => exact absurd ((h.closed e hclosed).symm.trans hopen) nofun
  results := h'.results.trans h.results

/-- Executors are managed as well in a world that is alike. -/
theorem Managed.of_alike (h : w.Managed limits seeks hand) (halike : w.Alike w') :
    w'.Managed limits seeks hand where
  limited := (congrArg (List.map Executor.limit) halike.executors).trans h.limited
  fresh hb := by
    rw [halike.bodies] at hb
    exact halike.nextFiber ▸ h.fresh hb
  orderly hb := h.orderly (halike.bodies ▸ hb)
  sound he := by
    rw [halike.executor]
    exact h.sound (halike.executors ▸ he)
  active he := by
    rw [halike.executor, halike.unfinished]
    exact h.active (halike.executors ▸ he)
  queued hk := h.queued (halike.executor _ ▸ hk)
  isOpen hhand := by
    rw [halike.executor]
    exact h.isOpen hhand

/-- Only those in a queue have to ask for a slot next. -/
theorem Managed.mono (h : w.Managed limits seeks hand) {seeks' : FiberId → Option ExecutorId}
    (hseeks : ∀ {e k}, k ∈ (w.executor e).queue → seeks k = some e → seeks' k = some e) :
    w.Managed limits seeks' hand :=
  { h with queued := fun hk => hseeks hk (h.queued hk) }

/-- It is no harm to think of somebody who seeks nothing that he seeks a slot. -/
theorem Managed.forget (h : w.Managed limits (Function.update seeks id none) hand)
    (next : Option ExecutorId) : w.Managed limits (Function.update seeks id next) hand := by
  refine h.mono fun {e k} _ hk => ?_
  by_cases heq : k = id
  · subst heq
    rw [Function.update_self] at hk
    cases hk
  · rwa [Function.update_of_ne heq] at hk ⊢

/-- Every executor with a limit is there. -/
theorem Managed.lt_length (h : w.Managed limits seeks hand) {e : ExecutorId}
    (he : e < limits.length) : e < w.executors.length := by
  rwa [← h.limited, List.length_map] at he

/-- Every executor has its limit. -/
theorem Managed.limit_executor (h : w.Managed limits seeks hand) {e : ExecutorId}
    (he : e < limits.length) : (w.executor e).limit = limits[e] := by
  have hlt := h.lt_length he
  simp only [← h.limited, List.getElem_map]
  unfold executor
  rw [List.getElem?_eq_getElem hlt]
  rfl

/-- Nobody waits twice for a slot of one executor. -/
theorem Managed.nodup_queue (h : w.Managed limits seeks hand) (e : ExecutorId) :
    (w.executor e).queue.Nodup := by
  by_cases he : e < w.executors.length
  · exact (h.sound he).distinct
  · rw [executor_of_length_le (Nat.not_lt.1 he)]
    exact List.nodup_nil

/-! ## One request -/

/-- An executor is changed, but neither its limit nor its jobs. -/
theorem Managed.setExecutor (h : w.Managed limits seeks hand) {e : ExecutorId} {x : Executor}
    {seeks' : FiberId → Option ExecutorId} {hand' : Option ExecutorId}
    (hlimit : x.limit = (w.executor e).limit) (hactive : x.active = (w.executor e).active)
    (hsound : e < w.executors.length → x.Sound (if hand' = some e then 1 else 0))
    (hothers : ∀ e', e' ≠ e → (hand' = some e' ↔ hand = some e'))
    (hqueue : ∀ k ∈ x.queue, seeks' k = some e)
    (hseeks : ∀ e' k, e' ≠ e → seeks k = some e' → seeks' k = some e')
    (hopen : hand' = some e → x.closed = false ∧ (w.executor e).closed = false) :
    (w.setExecutor e x).Managed limits seeks' hand' := by
  have hlength : (w.setExecutor e x).executors.length = w.executors.length := List.length_set
  refine {
    limited := (limits_setExecutor hlimit).trans h.limited
    fresh := h.fresh
    orderly := h.orderly
    sound := fun {e'} he => ?_
    active := fun {e'} he => ?_
    queued := fun {e' k} hk => ?_
    isOpen := fun {e'} hhand => ?_ }
  · rw [hlength] at he
    rw [executor_setExecutor]
    by_cases heq : e' = e
    · subst heq
      rw [if_pos ⟨rfl, he⟩]
      exact hsound he
    · rw [if_neg fun hboth => heq hboth.1]
      simp only [hothers e' heq]
      exact h.sound he
  · rw [hlength] at he
    have hsame : ((w.setExecutor e x).executor e').active = (w.executor e').active := by
      rw [executor_setExecutor]
      split
      · next hboth => rw [hactive, hboth.1]
      · rfl
    exact hsame.trans (h.active he)
  · rw [executor_setExecutor] at hk
    split at hk
    · next hboth => exact hboth.1 ▸ hqueue k hk
    · next hne =>
      by_cases heq : e' = e
      · have hle : w.executors.length ≤ e' := heq ▸ Nat.not_lt.1 fun hlt => hne ⟨heq, hlt⟩
        rw [executor_of_length_le hle] at hk
        cases hk
      · exact hseeks e' k heq (h.queued hk)
  · rw [executor_setExecutor]
    split
    · next hboth => exact (hopen (hboth.1 ▸ hhand)).1
    · by_cases heq : e' = e
      · exact heq ▸ (hopen (heq ▸ hhand)).2
      · exact h.isOpen ((hothers e' heq).1 hhand)

/-- A world grows when an executor is replaced that is not opened again by this. -/
theorem Managed.grows_setExecutor (h : w.Managed limits seeks hand) {e : ExecutorId} {x : Executor}
    (hclosed : (w.executor e).closed = true → x.closed = true) :
    w.Grows jobProgram (w.setExecutor e x) where
  length := List.length_set
  closed e' hc := by
    rw [executor_setExecutor]
    split
    · next hboth => exact hclosed (hboth.1 ▸ hc)
    · exact hc
  next_le := Nat.le_refl _
  kept _ _ := rfl
  made k b hle hb := absurd (h.fresh hb) (Nat.not_lt.2 hle)
  results := rfl

/-- Who asks for a slot has it in hand, or waits in the queue, or is refused. -/
theorem Managed.request {e : ExecutorId} {x : Executor} {answer : Executor.Answer}
    (h : w.Managed limits (Function.update w.seeks? id (some e)) none)
    (hrequest : (w.executor e).request id = (x, answer)) :
    (w.setExecutor e x).Managed limits
        (Function.update w.seeks? id (if answer = .wait then some e else none))
        (if answer = .granted then some e else none) ∧
      w.Grows jobProgram (w.setExecutor e x) := by
  have hreplied := (w.executor e).replied_request id
  rw [hrequest] at hreplied
  refine ⟨h.setExecutor hreplied.limit hreplied.active (fun he => ?_) (fun e' hne => ?_)
    (fun k hk => ?_) (fun e' k hne hk => ?_) fun hhand => ?_, h.grows_setExecutor fun hc => ?_⟩
  · have hsound := hreplied.sound (h.sound he)
    rw [if_neg nofun, Nat.zero_add] at hsound
    by_cases hgranted : answer = .granted
    · rw [if_pos hgranted] at hsound
      rwa [if_pos hgranted, if_pos rfl]
    · rw [if_neg hgranted] at hsound
      rwa [if_neg hgranted, if_neg nofun]
  · split
    · exact ⟨fun heq => absurd (Option.some.inj heq).symm hne, nofun⟩
    · exact .rfl
  · by_cases hself : k = id
    · subst hself
      have hwait : answer = .wait := by
        by_contra hne
        exact hreplied.told (h.nodup_queue e) hne hk
      rw [Function.update_self, if_pos hwait]
    · rcases hreplied.queue k hk with hold | ⟨-, heq⟩
      · have hseeks := h.queued hold
        rwa [Function.update_of_ne hself] at hseeks ⊢
      · exact absurd heq hself
  · by_cases hself : k = id
    · subst hself
      rw [Function.update_self] at hk
      exact absurd (Option.some.inj hk).symm hne
    · rwa [Function.update_of_ne hself] at hk ⊢
  · have hgranted : answer = .granted := by
      by_contra hne
      rw [if_neg hne] at hhand
      cases hhand
    have hopen : (w.executor e).closed = false := by
      rw [← Bool.not_eq_true, ← hreplied.of_closed, hgranted]
      exact nofun
    exact ⟨hreplied.closed.trans hopen, hopen⟩
  · exact hreplied.closed.trans hc

/-- A new process has its body, and the others have theirs. -/
theorem bodies_spawn (w : World ω β) (body : Body ω β) (k : FiberId) :
    (w.spawn body).bodies.get? k = if k = w.nextFiber then some body else w.bodies.get? k := by
  simp only [bodies, spawn, OrderedMap.get?_mapValues, OrderedMap.get?_insert]
  split <;> rfl

/-- Whoever seeks a slot seeks it also beside a new process. -/
theorem Managed.seeks?_spawn (h : w.Managed limits seeks hand) (body : Body ω β) {e : ExecutorId}
    {k : FiberId} (hk : w.seeks? k = some e) : (w.spawn body).seeks? k = some e := by
  unfold World.seeks? at hk ⊢
  obtain ⟨b, hb, hseeks⟩ := Option.bind_eq_some_iff.1 hk
  rw [bodies_spawn, if_neg (Nat.ne_of_lt (h.fresh hb)), hb]
  exact hseeks

/-- The next process is not there yet. -/
theorem Managed.not_contains_next (h : w.Managed limits seeks hand) :
    w.bodies.get? w.nextFiber = none := by
  cases hb : w.bodies.get? w.nextFiber with
  | none => rfl
  | some b => exact absurd (h.fresh hb) (Nat.lt_irrefl _)

/-- After a new process has come all are below the next one. -/
theorem Managed.fresh_spawn (h : w.Managed limits seeks hand) {body b : Body ω β} {k : FiberId}
    (hb : (w.spawn body).bodies.get? k = some b) : k < (w.spawn body).nextFiber := by
  rw [bodies_spawn] at hb
  split at hb
  · next heq => exact heq ▸ Nat.lt_succ_self _
  · exact Nat.lt_succ_of_lt (h.fresh hb)

/-- If a new process is orderly then all are. -/
theorem Managed.orderly_spawn (h : w.Managed limits seeks hand) (body : Body ω β) {b : Body ω β}
    {k : FiberId}
    (hbody : body.Orderly) (hb : (w.spawn body).bodies.get? k = some b) : b.Orderly := by
  rw [bodies_spawn] at hb
  split at hb
  · cases hb
    exact hbody
  · exact h.orderly hb

/-- A process that begins is one more if it runs a job. -/
theorem Managed.length_unfinished_spawn (h : w.Managed limits seeks hand) (body : Body ω β)
    (e : ExecutorId) : ((w.spawn body).unfinished e).length =
      (w.unfinished e).length + if body.executor? = some e then 1 else 0 := by
  have hnext := h.not_contains_next
  split
  · next hjob =>
    refine length_unfinished_succ w.nextFiber (fun hmem => ?_) fun k => ?_
    · obtain ⟨b, hb, -⟩ := mem_unfinished.1 hmem
      rw [hnext] at hb
      cases hb
    · rw [mem_unfinished, mem_unfinished, bodies_spawn]
      split
      · next heq => exact ⟨fun _ => .inl heq, fun _ => ⟨body, rfl, hjob⟩⟩
      · next hne => exact ⟨.inr, fun hmem => hmem.resolve_left hne⟩
  · next hjob =>
    refine length_unfinished fun k => ?_
    rw [mem_unfinished, mem_unfinished, bodies_spawn]
    split
    · next heq =>
      subst heq
      rw [hnext]
      constructor
      · rintro ⟨b, hb, he⟩
        cases hb
        exact absurd he hjob
      · rintro ⟨b, hb, -⟩
        cases hb
    · exact .rfl

/-- A process that runs no job begins. -/
theorem Managed.spawn (h : w.Managed limits w.seeks? none) {body : Body ω β}
    (hbody : body.Orderly) (hexecutor : body.executor? = none) :
    (w.spawn body).Managed limits (w.spawn body).seeks? none where
  limited := h.limited
  fresh := h.fresh_spawn
  orderly := h.orderly_spawn body hbody
  sound := h.sound
  active {e} he := by
    rw [h.length_unfinished_spawn, if_neg (by rw [hexecutor]; exact nofun)]
    exact h.active he
  queued hk := h.seeks?_spawn body (h.queued hk)
  isOpen := nofun

/-- The slot in hand gets its job. -/
theorem Managed.handOver {e : ExecutorId}
    (h : w.Managed limits (Function.update w.seeks? id none) (some e)) {program : Process ω Unit}
    (hprogram : program.Orderly) {w' : World ω β}
    (hw' : (w.setExecutor e (w.executor e).start).spawn (.job e program) = w') :
    w'.Managed limits (Function.update w'.seeks? id none) none := by
  have hexecutor : ∀ e', w'.executor e' =
      if e' = e ∧ e < w.executors.length then (w.executor e).start else w.executor e' := by
    rw [← hw']
    exact fun e' => executor_setExecutor w e e' _
  have hlength : w'.executors.length = w.executors.length := by
    rw [← hw']
    exact List.length_set
  have hbodies : w'.bodies = (w.spawn (.job e program)).bodies := by
    rw [← hw']
    rfl
  refine {
    limited := ?_
    fresh := fun {k b} hb => ?_
    orderly := fun {k b} hb => h.orderly_spawn (.job e program) hprogram (hbodies ▸ hb)
    sound := fun {e'} he => ?_
    active := fun {e'} he => ?_
    queued := fun {e' k} hk => ?_
    isOpen := nofun }
  · rw [← hw', ← h.limited]
    exact limits_setExecutor rfl
  · rw [← hw']
    exact h.fresh_spawn (hbodies ▸ hb)
  · rw [hlength] at he
    have hsound := h.sound he
    rw [hexecutor]
    by_cases heq : e' = e
    · subst heq
      rw [if_pos rfl] at hsound
      rw [if_pos ⟨rfl, he⟩]
      exact hsound.start
    · rw [if_neg fun hsame => heq (Option.some.inj hsame).symm] at hsound
      rw [if_neg fun hboth => heq hboth.1]
      exact hsound
  · rw [hlength] at he
    have hunfinished : w'.unfinished e' = (w.spawn (.job e program)).unfinished e' := by
      unfold World.unfinished
      rw [hbodies]
    have hcount := h.length_unfinished_spawn (.job e program) e'
    rw [hexecutor, hunfinished, hcount, ← h.active he]
    by_cases heq : e' = e
    · subst heq
      have hjob : (Body.job e' program : Body ω β).executor? = some e' := rfl
      rw [if_pos ⟨rfl, he⟩, if_pos hjob]
      rfl
    · have hjob : (Body.job e program : Body ω β).executor? ≠ some e' :=
        fun hsame => heq (Option.some.inj hsame).symm
      rw [if_neg fun hboth => heq hboth.1, if_neg hjob]
      rfl
  · have hold : k ∈ (w.executor e').queue := by
      rw [hexecutor] at hk
      split at hk
      · next hboth => exact hboth.1 ▸ hk
      · exact hk
    have hseeks := h.queued hold
    by_cases hself : k = id
    · subst hself
      rw [Function.update_self] at hseeks
      cases hseeks
    · rw [Function.update_of_ne hself] at hseeks ⊢
      rw [← hw']
      exact h.seeks?_spawn _ hseeks

/-- A world grows when a job is handed over. -/
theorem Managed.grows_handOver {e : ExecutorId} (h : w.Managed limits seeks (some e)) (job : ω) :
    w.Grows jobProgram
      ((w.setExecutor e (w.executor e).start).spawn (.job e (jobProgram job))) where
  length := List.length_set
  closed :=
    (h.grows_setExecutor (fun hc => hc) :
      w.Grows jobProgram (w.setExecutor e (w.executor e).start)).closed
  next_le := Nat.le_succ _
  kept k hk := (bodies_spawn _ _ k).trans (if_neg (Nat.ne_of_lt hk))
  made k b hle hb := by
    have hspawn : (w.spawn (.job e (jobProgram job))).bodies.get? k = some b := hb
    rw [bodies_spawn] at hspawn
    split at hspawn
    · cases hspawn
      exact ⟨e, job, rfl, h.isOpen rfl⟩
    · exact absurd (h.fresh hspawn) (Nat.not_lt.2 hle)
  results := rfl

/-- What is right after a request that has been answered, or that has to wait. -/
def Performed (jobProgram : ω → Process ω Unit) (limits : List Nat) (w : World ω β)
    (id : FiberId) (hand : Option ExecutorId) (r : Request ω) : World ω β × Reply r.Reply → Prop
  | (w', .answer reply) =>
    w'.Managed limits (Function.update w'.seeks? id none) ((slotUse ω).after hand ⟨r, reply⟩) ∧
      w.Grows jobProgram w'
  | (w', .wait _) =>
    hand = none ∧ w'.Managed limits (Function.update w'.seeks? id r.seeks?) none ∧
      w.Grows jobProgram w'

/-- The accounts stay right through a request. -/
theorem Managed.perform (hjobs : ∀ job, (jobProgram job).Orderly) {r : Request ω}
    (h : w.Managed limits (Function.update w.seeks? id r.seeks?) hand)
    (hpermits : (slotUse ω).permits hand r) :
    Performed jobProgram limits w id hand r (w.perform jobProgram id r) := by
  by_cases hunrelated : r.Unrelated
  · have halike : w.Alike (w.perform jobProgram id r).1 := alike_perform hunrelated
    have hseeks : r.seeks? = none := by
      cases r <;> first | rfl | exact hunrelated.elim
    have hhand : hand = none := by
      cases hand with
      | none => rfl
      | some e => cases r <;> first | exact hpermits.elim | exact hunrelated.elim
    have hafter : ∀ reply, (slotUse ω).after none ⟨r, reply⟩ = none := by
      intro reply
      cases r <;> first | rfl | exact hunrelated.elim
    subst hhand
    rw [hseeks] at h
    generalize w.perform jobProgram id r = result at halike
    have hmanaged : result.1.Managed limits (Function.update result.1.seeks? id none) none := by
      rw [halike.seeks?]
      exact h.of_alike halike
    obtain ⟨w', reply | condition⟩ := result
    · refine ⟨?_, .of_alike h halike⟩
      rw [hafter reply]
      exact hmanaged
    · refine ⟨rfl, ?_, .of_alike h halike⟩
      rw [hseeks]
      exact hmanaged
  cases r with
  | slot e =>
    have hhand : hand = none := by
      cases hand with
      | none => rfl
      | some e => exact hpermits.elim
    subst hhand
    cases hrequest : (w.executor e).request id with
    | mk x answer =>
      have hboth : _ ∧ w.Grows jobProgram (w.setExecutor e x) := h.request hrequest
      simp only [World.perform, hrequest]
      cases answer with
      | granted => exact hboth
      | refused => exact hboth
      | wait => exact ⟨rfl, hboth⟩
  | handOver e job =>
    cases hand with
    | none => exact hpermits.elim
    | some e' =>
      obtain rfl : e = e' := hpermits
      exact ⟨h.handOver (hjobs job) rfl, h.grows_handOver job⟩
  | close e =>
    cases hand with
    | some e' => exact hpermits.elim
    | none =>
      refine ⟨h.setExecutor rfl rfl (fun he => (h.sound he).close) (fun _ _ => .rfl)
        (fun k hk => h.queued hk) (fun _ _ _ hk => hk) (fun hk => by cases hk),
        h.grows_setExecutor fun _ => rfl⟩
  | _ => exact absurd trivial hunrelated

/-! ## Turns -/

/-- What is right after the turn of a process. -/
def Rested (jobProgram : ω → Process ω Unit) (limits : List Nat) (w : World ω β) (id : FiberId) :
    World ω β × Progress ω γ → Prop
  | (w', .ended _) =>
    w'.Managed limits (Function.update w'.seeks? id none) none ∧ w.Grows jobProgram w'
  | (w', .blocked left _) =>
    w'.Managed limits (Function.update w'.seeks? id left.seeks?) none ∧
      w.Grows jobProgram w' ∧ left.Orderly

/-- Where a turn has come to rest after some growth, it has come to rest from the beginning. -/
theorem Rested.of_grows {result : World ω β × Progress ω γ}
    (h : Rested jobProgram limits w' id result) (hgrows : w.Grows jobProgram w') :
    Rested jobProgram limits w id result := by
  obtain ⟨w'', outcome | ⟨left, condition⟩⟩ := result
  · exact ⟨h.1, hgrows.trans h.2⟩
  · exact ⟨h.1, hgrows.trans h.2.1, h.2.2⟩

/-- The accounts stay right while a process goes on, and a process that waits has no slot in
hand. -/
theorem Managed.run (hjobs : ∀ job, (jobProgram job).Orderly) {p : Process ω γ}
    (h : w.Managed limits (Function.update w.seeks? id p.seeks?) hand)
    (hp : p.Follows (slotUse ω) (fun _ hand => hand = none) hand) :
    Rested jobProgram limits w id (w.run jobProgram id p) := by
  induction p generalizing w hand with
  | done a =>
    obtain rfl : hand = none := hp
    exact ⟨h, .of_alike h (.refl w)⟩
  | panic cause =>
    obtain rfl : hand = none := hp
    exact ⟨h, .of_alike h (.refl w)⟩
  | call r next ih =>
    have hperformed := Managed.perform hjobs h hp.1
    unfold World.run
    generalize w.perform jobProgram id r = result at hperformed
    obtain ⟨w', reply | condition⟩ := result
    · obtain ⟨hmanaged, hgrows⟩ := hperformed
      have hawake := hmanaged.of_alike w'.alike_wake
      exact (ih reply (hawake.forget _) (hp.2 reply trivial)).of_grows
        (hgrows.trans (.of_alike hmanaged w'.alike_wake))
    · obtain ⟨rfl, hmanaged, hgrows⟩ := hperformed
      exact ⟨hmanaged, hgrows, hp⟩

end Managed

end World

end LeaseQueue
