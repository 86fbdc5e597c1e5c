import LeaseQueue.Executor
import LeaseQueue.Proofs.LoopRounds
import LeaseQueue.Proofs.ProcessProtocols

/-!
# The slots of an executor

At any moment a slot of an executor is free, or has been granted to somebody who has not been told
yet, or is in the hand of somebody who has been told and is about to start a job in it, or it has a
job.  While the executor is open these make up its limit (`Executor.Sound`).  A closed executor
keeps slots back that it had granted, so then they are at most the limit.

A process comes by a slot in one way only: it asks for one, and once it is told that it has one it
starts a job there, before it does anything else (`slotUse`).  What the engine runs keeps to this:
jobs, polls and loops.
-/

set_option autoImplicit false

namespace LeaseQueue

namespace Executor

/-- Who waits for a slot, or has been granted one and has not been told. -/
def queue (x : Executor) : List Nat := x.waiting ++ x.granted

/-- How many slots are free, or granted to somebody who has not been told. -/
def slots (x : Executor) : Nat := x.free + x.granted.length

/-- The account of an executor while so many of its slots are in somebody's hand. -/
structure Sound (x : Executor) (hand : Nat) : Prop where
  within : x.slots + x.active + hand ≤ x.limit
  full : x.closed = false → x.slots + x.active + hand = x.limit
  distinct : x.queue.Nodup

/-- The account of a new executor is right. -/
theorem sound_make (limit : Nat) : (make limit).Sound 0 where
  within := Nat.le_refl _
  full _ := rfl
  distinct := List.nodup_nil

/-- A slot in somebody's hand gets a job. -/
theorem Sound.start {x : Executor} {hand : Nat} (h : x.Sound (hand + 1)) : x.start.Sound hand where
  within := by
    have hwithin := h.within
    simp only [slots, Executor.start] at hwithin ⊢
    omega
  full hopen := by
    have hfull := h.full hopen
    simp only [slots, Executor.start] at hfull ⊢
    omega
  distinct := h.distinct

/-- The account of an executor is right after it has been closed. -/
theorem Sound.close {x : Executor} {hand : Nat} (h : x.Sound hand) : x.close.Sound hand where
  within := h.within
  full hopen := nomatch hopen
  distinct := h.distinct

/-! ## Slots that are freed -/

/-- A slot that is freed is free or granted. -/
theorem slots_release (x : Executor) : x.release.slots = x.slots + 1 := by
  unfold release
  split
  · exact Nat.add_right_comm ..
  · simp [slots, Nat.add_assoc]

/-- When a slot is freed nobody leaves the queue and nobody comes. -/
theorem perm_queue_release (x : Executor) : x.release.queue.Perm x.queue := by
  unfold release
  split
  · exact .refl _
  · next who rest hwaiting =>
    unfold queue
    rw [hwaiting, ← List.append_assoc]
    exact List.perm_append_comm

/-- A slot that is freed leaves the limit as it is. -/
theorem limit_release (x : Executor) : x.release.limit = x.limit := by
  unfold release
  split <;> rfl

/-- A slot that is freed neither opens nor closes an executor. -/
theorem closed_release (x : Executor) : x.release.closed = x.closed := by
  unfold release
  split <;> rfl

/-- A slot that is freed leaves the number of jobs as it is. -/
theorem active_release (x : Executor) : x.release.active = x.active := by
  unfold release
  split <;> rfl

/-- The account of an executor is right after a slot has been given back by hand. -/
theorem Sound.release {x : Executor} {hand : Nat} (h : x.Sound (hand + 1)) :
    x.release.Sound hand where
  within := by
    have hwithin := h.within
    rw [slots_release, limit_release, active_release]
    omega
  full hopen := by
    have hfull := h.full (x.closed_release.symm.trans hopen)
    rw [slots_release, limit_release, active_release]
    omega
  distinct := x.perm_queue_release.nodup_iff.2 h.distinct

/-- The end of a job frees its slot. -/
theorem finish_eq (x : Executor) :
    x.finish = ({ x with active := x.active - 1 } : Executor).release := by
  unfold finish release
  cases x.waiting <;> rfl

/-- The end of a job frees one slot. -/
theorem slots_finish (x : Executor) : x.finish.slots = x.slots + 1 := x.slots_release

/-- At the end of a job nobody leaves the queue and nobody comes. -/
theorem perm_queue_finish (x : Executor) : x.finish.queue.Perm x.queue := x.perm_queue_release

/-- The account of an executor is right after the end of a job. -/
theorem Sound.finish {x : Executor} {hand : Nat} (h : x.Sound hand) (hactive : 0 < x.active) :
    x.finish.Sound hand := by
  rw [finish_eq]
  refine Sound.release ⟨?_, fun hopen => ?_, h.distinct⟩
  · have hwithin := h.within
    simp only [slots] at hwithin ⊢
    omega
  · have hfull := h.full hopen
    simp only [slots] at hfull ⊢
    omega

/-! ## Slots that are taken -/

/-- The executor without somebody who asked for a slot. -/
def without (x : Executor) (who : Nat) : Executor :=
  { x with
    waiting := x.waiting.filter (· != who)
    granted := x.granted.filter (· != who) }

/-- Whoever leaves is not in the queue any more, and all others are. -/
theorem mem_queue_without {x : Executor} {who k : Nat} :
    k ∈ (x.without who).queue ↔ k ∈ x.queue ∧ k ≠ who := by
  simp only [queue, without, List.mem_append, List.mem_filter, bne_iff_ne, or_and_right]

/-- If nobody was in the queue twice then this is so after somebody has left. -/
theorem nodup_queue_without {x : Executor} (h : x.queue.Nodup) (who : Nat) :
    (x.without who).queue.Nodup := by
  have hfilter : (x.without who).queue = x.queue.filter (· != who) := (List.filter_append ..).symm
  rw [hfilter]
  exact h.filter _

/-- The executor once somebody has been told of the slot that he was granted. -/
def take (x : Executor) (who : Nat) : Executor :=
  { x with granted := x.granted.filter (· != who) }

section Granted

variable {x : Executor} {who : Nat}

/-- Who has been granted a slot does not wait for one, and has been granted only one. -/
theorem take_eq_without (h : x.queue.Nodup) (hgranted : who ∈ x.granted) :
    x.take who = x.without who := by
  have hwaiting : x.waiting.filter (· != who) = x.waiting := by
    refine List.filter_eq_self.2 fun k hk => bne_iff_ne.2 ?_
    exact (List.nodup_append.1 h).2.2 k hk who hgranted
  unfold take without
  rw [hwaiting]

/-- Whoever takes his slot leaves one granted slot less. -/
theorem length_granted_take (h : x.queue.Nodup) (hgranted : who ∈ x.granted) :
    (x.take who).granted.length + 1 = x.granted.length := by
  have hnodup : x.granted.Nodup := (List.nodup_append.1 h).2.1
  have hpos := List.length_pos_of_mem hgranted
  show (x.granted.filter (· != who)).length + 1 = _
  rw [← hnodup.erase_eq_filter, List.length_erase_of_mem hgranted]
  omega

/-- The slot that has been granted passes into somebody's hand. -/
theorem Sound.take {hand : Nat} (h : x.Sound hand) (hgranted : who ∈ x.granted) :
    (x.take who).Sound (hand + 1) := by
  have hlength := length_granted_take h.distinct hgranted
  refine ⟨?_, fun hopen => ?_, ?_⟩
  · have hwithin := h.within
    simp only [slots, Executor.take] at hwithin hlength ⊢
    omega
  · have hfull := h.full hopen
    simp only [slots, Executor.take] at hfull hlength ⊢
    omega
  · rw [take_eq_without h.distinct hgranted]
    exact nodup_queue_without h.distinct who

/-- Whoever is in the queue after somebody has taken his slot was there before. -/
theorem mem_queue_of_take {k : Nat} (hk : k ∈ (x.take who).queue) : k ∈ x.queue := by
  rcases List.mem_append.1 hk with hk | hk
  · exact List.mem_append_left _ hk
  · exact List.mem_append_right _ (List.mem_filter.1 hk).1

/-- Whoever has taken his slot is not in the queue any more. -/
theorem not_mem_queue_take (h : x.queue.Nodup) (hgranted : who ∈ x.granted) :
    who ∉ (x.take who).queue := by
  rw [take_eq_without h hgranted]
  exact fun hk => (mem_queue_without.1 hk).2 rfl

end Granted

/-! ## Asking for a slot and giving up -/

/-- What an executor is after an answer. -/
structure Replied (x : Executor) (who : Nat) (x' : Executor) (answer : Answer) : Prop where
  limit : x'.limit = x.limit
  active : x'.active = x.active
  closed : x'.closed = x.closed
  sound : ∀ {hand}, x.Sound hand → x'.Sound (hand + if answer = .granted then 1 else 0)
  queue : ∀ k ∈ x'.queue, k ∈ x.queue ∨ answer = .wait ∧ k = who
  told : x.queue.Nodup → answer ≠ .wait → who ∉ x'.queue
  of_closed : answer = .refused ↔ x.closed = true

/-- Nobody is granted a slot of a closed executor, and who is answered is in the queue no more. -/
theorem replied_request (x : Executor) (who : Nat) :
    x.Replied who (x.request who).1 (x.request who).2 := by
  unfold request
  by_cases hclosed : x.closed = true
  · rw [if_pos hclosed]
    refine {
      limit := rfl
      active := rfl
      closed := rfl
      sound := fun h => ⟨?_, fun hopen => ?_, nodup_queue_without h.distinct who⟩
      queue := fun k hk => .inl (mem_queue_without.1 hk).1
      told := fun _ _ hk => (mem_queue_without.1 hk).2 rfl
      of_closed := ⟨fun _ => hclosed, fun _ => rfl⟩ }
    · have hle : (x.granted.filter (· != who)).length ≤ x.granted.length :=
        List.length_filter_le ..
      have hwithin := h.within
      simp only [slots, reduceCtorEq, if_false] at hwithin ⊢
      omega
    · exact absurd (hclosed.symm.trans hopen) nofun
  rw [if_neg hclosed]
  by_cases hgranted : who ∈ x.granted
  · rw [if_pos (List.contains_iff_mem.2 hgranted)]
    exact {
      limit := rfl
      active := rfl
      closed := rfl
      sound := fun h => h.take hgranted
      queue := fun k hk => .inl (mem_queue_of_take hk)
      told := fun h _ => not_mem_queue_take h hgranted
      of_closed := ⟨nofun, fun hc => absurd hc hclosed⟩ }
  rw [if_neg (mt List.contains_iff_mem.1 hgranted)]
  by_cases hwaiting : who ∈ x.waiting
  · rw [if_pos (List.contains_iff_mem.2 hwaiting)]
    exact {
      limit := rfl
      active := rfl
      closed := rfl
      sound := fun h => h
      queue := fun k hk => .inl hk
      told := fun _ hne => absurd rfl hne
      of_closed := ⟨nofun, fun hc => absurd hc hclosed⟩ }
  rw [if_neg (mt List.contains_iff_mem.1 hwaiting)]
  have hnew : who ∉ x.queue := fun hk => (List.mem_append.1 hk).elim hwaiting hgranted
  by_cases hfree : 0 < x.free ∧ x.waiting.isEmpty = true
  · rw [if_pos hfree]
    refine {
      limit := rfl
      active := rfl
      closed := rfl
      sound := fun h => ⟨?_, fun hopen => ?_, h.distinct⟩
      queue := fun k hk => .inl hk
      told := fun _ _ => hnew
      of_closed := ⟨nofun, fun hc => absurd hc hclosed⟩ }
    · have hwithin := h.within
      simp only [slots, if_true] at hwithin ⊢
      omega
    · have hfull := h.full hopen
      simp only [slots, if_true] at hfull ⊢
      omega
  · rw [if_neg hfree]
    refine {
      limit := rfl
      active := rfl
      closed := rfl
      sound := fun h => ⟨h.within, h.full, ?_⟩
      queue := fun k hk => ?_
      told := fun _ hne => absurd rfl hne
      of_closed := ⟨nofun, fun hc => absurd hc hclosed⟩ }
    · have hperm : (who :: x.queue).Perm ((x.waiting ++ [who]) ++ x.granted) := by
        rw [List.append_assoc]
        exact List.perm_middle.symm
      exact hperm.nodup (List.nodup_cons.2 ⟨hnew, h.distinct⟩)
    · simp only [queue, List.mem_append, List.mem_singleton] at hk ⊢
      grind

/-- What an executor is without somebody who has given up. -/
structure Left (x : Executor) (who : Nat) (x' : Executor) : Prop where
  limit : x'.limit = x.limit
  active : x'.active = x.active
  closed : x'.closed = x.closed
  sound : ∀ {hand}, x.Sound hand → x'.Sound hand
  queue : ∀ k ∈ x'.queue, k ∈ x.queue
  gone : x.queue.Nodup → who ∉ x'.queue

/-- Who gives up frees the slot that he has been granted. -/
theorem left_leave (x : Executor) (who : Nat) : x.Left who (x.leave who) := by
  unfold leave
  by_cases hgranted : who ∈ x.granted
  · rw [if_pos (List.contains_iff_mem.2 hgranted)]
    exact {
      limit := limit_release _
      active := active_release _
      closed := closed_release _
      sound := fun h => (h.take hgranted).release
      queue := fun k hk => mem_queue_of_take ((perm_queue_release _).mem_iff.1 hk)
      gone := fun h hk => not_mem_queue_take h hgranted ((perm_queue_release _).mem_iff.1 hk) }
  · rw [if_neg (mt List.contains_iff_mem.1 hgranted)]
    refine {
      limit := rfl
      active := rfl
      closed := rfl
      sound := fun h => ⟨h.within, h.full, ?_⟩
      queue := fun k hk => ?_
      gone := fun _ hk => ?_ }
    · exact h.distinct.sublist (List.filter_sublist.append_right _)
    · rcases List.mem_append.1 hk with hk | hk
      · exact List.mem_append_left _ (List.mem_filter.1 hk).1
      · exact List.mem_append_right _ hk
    · rcases List.mem_append.1 hk with hk | hk
      · exact bne_iff_ne.1 (List.mem_filter.1 hk).2 rfl
      · exact hgranted hk

end Executor

/-! ## How processes use slots -/

variable {ω α β : Type}

/-- The protocol of a process that uses executors; its state is the executor of which it has a slot
in hand. -/
def slotUse (ω : Type) : Protocol ω (Option ExecutorId) where
  permits
    | none, .handOver .. => False
    | none, _ => True
    | some e, .handOver e' _ => e' = e
    | some _, _ => False
  after
    | _, ⟨.slot e, reply⟩ => match (reply : Bool) with
      | true => some e
      | false => none
    | _, _ => none
  trusts _ := True

/-- The process starts jobs only in slots that it has been told it has, and each of these gets one
at once. -/
def Process.Orderly (p : Process ω α) : Prop := p.Follows (slotUse ω) (fun _ hand => hand = none) none

open Process

/-- A request that concerns no executor needs no slot. -/
theorem idle_of_local {r : Request ω} (h : r.Local) : (slotUse ω).Idle none r := by
  cases r <;> first | exact ⟨trivial, fun _ => rfl⟩ | exact h.elim

/-- A process whose requests concern no executor is orderly. -/
theorem Process.Only.orderly {p : Process ω α} (h : p.Only Request.Local) : p.Orderly :=
  follows_of_only (h.mono fun _ => idle_of_local)

/-- A sequence of orderly processes is orderly. -/
theorem orderly_bind {p : Process ω α} {f : α → Process ω β} (hp : p.Orderly)
    (hf : ∀ a, (f a).Orderly) : (p.bind f).Orderly := by
  refine follows_bind hp ?_ fun _ _ h => h
  rintro a hand rfl
  exact hf a

/-- An attempt of an orderly process is orderly. -/
theorem orderly_attempt {p : Process ω α} (hp : p.Orderly) : p.attempt.Orderly :=
  follows_attempt hp fun _ _ h => h

/-- A sequence of orderly actions is orderly. -/
theorem orderly_run_bind {ε : Type} {x : Action ω ε α} {f : α → Action ω ε β} (hx : x.run.Orderly)
    (hf : ∀ a, (f a).run.Orderly) : (x >>= f).run.Orderly := by
  rw [run_bind]
  refine orderly_bind hx fun outcome => ?_
  cases outcome with
  | ok a => exact hf a
  | error e => rfl

/-- The work of a job is orderly. -/
theorem Job.orderly_work (job : Job α) : job.work.Orderly := job.only_work.orderly

namespace Executor

/-- Hands a job over to an executor: waits for a slot and starts the job there. -/
def execute (e : ExecutorId) (job : ω) : Action ω QueueError Unit := do
  let granted : Bool ← ExceptT.lift (.ask (.slot e))
  if granted then ExceptT.lift (.ask (.handOver e job))
  else throw .executorClosed

/-- Closes an executor and waits for its jobs. -/
def shutDown (e : ExecutorId) : Action ω QueueError Unit := do
  ExceptT.lift (.ask (.close e))
  let _ : Bool ← ExceptT.lift (.ask (.drained e none))

/-- A call that hands a job over is orderly. -/
theorem orderly_execute (e : ExecutorId) (job : ω) : (execute e job).run.Orderly := by
  refine ⟨trivial, fun granted _ => ?_⟩
  cases (granted : Bool) with
  | true => exact ⟨rfl, fun _ _ => rfl⟩
  | false => rfl

/-- A call that shuts an executor down is orderly. -/
theorem orderly_shutDown (e : ExecutorId) : (shutDown e : Action ω QueueError Unit).run.Orderly :=
  ⟨trivial, fun _ _ => ⟨trivial, fun _ _ => rfl⟩⟩

end Executor

namespace Runner

/-- A poll that hands its task over has `Executor.execute` do it. -/
theorem pollHandingOver_eq (r : Runner α) (e : ExecutorId) :
    r.pollHandingOver e = (r.pickAndCommit >>= fun picked =>
      match picked with
      | none => pure .skipped
      | some record => Executor.execute e ⟨r.processor, record⟩ >>= fun _ => pure .processed) := by
  refine congrArg (ExceptT.bind r.pickAndCommit) (funext fun picked => ?_)
  cases picked with
  | none => rfl
  | some record =>
    refine congrArg (Process.call (.slot e)) (funext fun granted => ?_)
    cases (granted : Bool) <;> rfl

/-- A poll is orderly in all modes. -/
theorem orderly_poll (r : Runner α) : r.poll.run.Orderly := by
  unfold poll
  split
  · refine orderly_run_bind r.only_pickAndCommit.orderly fun picked => ?_
    cases picked with
    | none => rfl
    | some record =>
      exact orderly_run_bind (only_lift (r.processor.only_process record none)).orderly fun _ => rfl
  · refine (only_withTransaction (Session.only_begin _) (fun tx => ?_) fun _ => trivial).orderly
    refine only_run_bind (r.only_pick tx) fun picked => ?_
    cases picked with
    | none => exact only_run_bind (only_storing (Session.only_commit tx)) fun _ => trivial
    | some record =>
      refine only_run_bind (only_lift (r.processor.only_process record (some tx))) fun _ => ?_
      exact only_run_bind (only_storing (Session.only_commit tx)) fun _ => trivial
  · next e _ =>
    rw [pollHandingOver_eq]
    refine orderly_run_bind r.only_pickAndCommit.orderly fun picked => ?_
    cases picked with
    | none => rfl
    | some record => exact orderly_run_bind (Executor.orderly_execute e _) fun _ => rfl

end Runner

/-- Every loop uses executors in this way. -/
theorem PollLoop.orderly_round (l : PollLoop α) : l.round.Orderly := by
  have hpublish : ∀ state, (l.publish state : Process (Job α) Unit).Orderly :=
    fun _ => ⟨trivial, fun _ _ => rfl⟩
  have htell : ∀ event, (l.tell event : Process (Job α) Unit).Orderly :=
    fun event => (only_local_react _).orderly
  have hnow : (.ask .now : Process (Job α) Instant).Orderly := ⟨trivial, fun _ _ => rfl⟩
  have hpoll : l.guardedPoll.Orderly := by
    refine orderly_bind (orderly_attempt l.runner.orderly_poll) fun outcome => ?_
    cases outcome <;> rfl
  have hlast : ∀ wait : Duration,
      ((l.tell .finished : Process (Job α) Unit).bind fun _ => .done wait).Orderly :=
    fun wait => orderly_bind (htell _) fun _ => rfl
  have hcycle : l.cycle.Orderly := by
    refine orderly_bind (hpublish _) fun _ => orderly_bind (htell _) fun _ => ?_
    refine orderly_bind hnow fun start => orderly_bind hpoll fun outcome => ?_
    cases outcome with
    | ok status =>
      refine orderly_bind hnow fun stop => orderly_bind (htell _) fun _ => ?_
      exact orderly_bind (hpublish _) fun _ => hlast _
    | error e => exact orderly_bind (htell _) fun _ => orderly_bind (hpublish _) fun _ => hlast _
  have hpause : ∀ wait, (pause wait : Process (Job α) Unit).Orderly :=
    fun _ => ⟨trivial, fun _ _ => ⟨trivial, fun _ _ => rfl⟩⟩
  have hstopping : (.ask .isStopping : Process (Job α) Bool).Orderly := ⟨trivial, fun _ _ => rfl⟩
  refine orderly_bind hstopping fun stopping => ?_
  cases (stopping : Bool) with
  | true => exact orderly_bind (hpublish _) fun _ => rfl
  | false => exact orderly_bind hcycle fun wait => orderly_bind (hpause wait) fun _ => rfl

end LeaseQueue
