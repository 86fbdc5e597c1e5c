import LeaseQueue.Proofs.ExecutorTurns
import LeaseQueue.Proofs.PoolPlans

/-!
# Who gets a slot, and when an executor is shut down

Any number of calls hand jobs over to executors (`Executor.execute`) or shut them down
(`Executor.shutDown`), jobs come to their ends, calls are given up, and other processes use the same
executors, in any order of turns.  A `Workshop` is a world in which this goes on, with the account
of the calls that have been made and of the jobs that have been started: by whom, where, and what
they do.

At any moment such a call is under way and has started nothing, or has returned and has started its
job once, or has been refused or given up and has started nothing (`Workshop.Course`).  From the
first turn of a shutdown on no call is accepted, and when the shutdown returns no job is left
(`Workshop.Closing`).
-/

set_option autoImplicit false

namespace LeaseQueue

variable {ω : Type}

/-- A call of an executor. -/
inductive ExecutorCall (ω : Type)
  | execute (executor : ExecutorId) (job : ω)
  | shutDown (executor : ExecutorId)

/-- What a call does. -/
def ExecutorCall.program : ExecutorCall ω → Process ω (Except QueueError Unit)
  | execute e job => (Executor.execute e job).run
  | shutDown e => (Executor.shutDown e).run

/-- A job that has been started. -/
structure Item (ω : Type) where
  /-- The process that started it. -/
  author : FiberId
  executor : ExecutorId
  program : Process ω Unit

/-- The job that a new process runs. -/
def Body.item? {β : Type} (author : FiberId) : Body ω β → Option (Item ω)
  | .job e program => some ⟨author, e, program⟩
  | _ => none

/-- A world with the account of calls and jobs. -/
structure Workshop (ω : Type) where
  world : World ω (Except QueueError Unit)
  call : FiberId → Option (ExecutorCall ω)
  item : FiberId → Option (Item ω)

namespace Workshop

/-- What can happen in a workshop. -/
inductive Move (ω : Type)
  | call (c : ExecutorCall ω)
  /-- Another process begins that uses executors. -/
  | operate (program : Process ω (Except QueueError Unit)) (orderly : program.Orderly)
  | loop (round : Process ω Bool) (orderly : round.Orderly)
  /-- A process has its turn. -/
  | poll (id : FiberId)
  /-- A process is given up wherever it is. -/
  | drop (id : FiberId)
  /-- All changes but the executors and the processes. -/
  | meanwhile (surroundings : World ω (Except QueueError Unit))

/-- A workshop in which nothing has happened; a limit of zero counts as one. -/
def start (clock : Instant) (shards : List ShardId) (limits : List Nat) : Workshop ω :=
  ⟨.initial clock shards (limits.map .make), fun _ => none, fun _ => none⟩

/-- The account of jobs after a turn: those that are new have been started in it. -/
def itemsAfter (s : Workshop ω) (id : FiberId) (w : World ω (Except QueueError Unit))
    (k : FiberId) : Option (Item ω) :=
  if k < s.world.nextFiber then s.item k else (w.bodies.get? k).bind (Body.item? id)

/-- One move. -/
def step (jobProgram : ω → Process ω Unit) (s : Workshop ω) : Move ω → Workshop ω
  | .call c =>
    { s with
      world := s.world.spawn (.operation c.program)
      call := Function.update s.call s.world.nextFiber (some c) }
  | .operate program _ => { s with world := s.world.spawn (.operation program) }
  | .loop round _ => { s with world := s.world.spawn (.loop round round) }
  | .poll id =>
    { s with
      world := s.world.turn jobProgram id
      item := s.itemsAfter id (s.world.turn jobProgram id) }
  | .drop id =>
    match s.world.fibers.get? id with
    | none => s
    | some f => { s with world := s.world.bury id f }
  | .meanwhile surroundings =>
    { s with world := { surroundings with
        executors := s.world.executors
        fibers := s.world.fibers
        nextFiber := s.world.nextFiber
        results := s.world.results } }

/-- Moves, one after the other. -/
def run (jobProgram : ω → Process ω Unit) (s : Workshop ω) (moves : List (Move ω)) : Workshop ω :=
  moves.foldl (step jobProgram) s

/-- A process has started no job. -/
def StartsNothing (s : Workshop ω) (id : FiberId) : Prop :=
  ∀ k i, s.item k = some i → i.author ≠ id

/-- How far a call has come that hands a job over. -/
inductive Course (jobProgram : ω → Process ω Unit) (s : Workshop ω) (id : FiberId)
    (e : ExecutorId) (job : ω) : Prop
  /-- It is under way. -/
  | pending (hthere : s.world.bodies.get? id = some (.operation (Executor.execute e job).run))
    (houtcomes : s.world.outcomes id = []) (hnothing : s.StartsNothing id)
  /-- It has returned, and its job is the only one that it has started. -/
  | accepted {k : FiberId} (hgone : s.world.bodies.get? id = none)
    (houtcomes : s.world.outcomes id = [.ok (.ok ())])
    (hitem : s.item k = some ⟨id, e, jobProgram job⟩)
    (honce : ∀ k' i, s.item k' = some i → i.author = id → k' = k)
  /-- It has been told that the executor is closed. -/
  | refused (hgone : s.world.bodies.get? id = none)
    (houtcomes : s.world.outcomes id = [.ok (.error .executorClosed)])
    (hnothing : s.StartsNothing id)
  /-- It has been given up. -/
  | abandoned (hgone : s.world.bodies.get? id = none) (houtcomes : s.world.outcomes id = [])
    (hnothing : s.StartsNothing id)

/-- What is left of a shutdown that has closed its executor. -/
def awaitJobs (e : ExecutorId) : Process ω (Except QueueError Unit) :=
  .call (.drained e none) fun _ => .done (.ok ())

/-- How far a call has come that shuts an executor down. -/
inductive Closing (w : World ω (Except QueueError Unit)) (id : FiberId) (e : ExecutorId) : Prop
  | called (hthere : w.bodies.get? id = some (.operation (Executor.shutDown e).run))
    (houtcomes : w.outcomes id = [])
  | waiting (hthere : w.bodies.get? id = some (.operation (awaitJobs e)))
    (houtcomes : w.outcomes id = []) (hclosed : (w.executor e).closed = true)
  /-- It has returned, and there are no jobs. -/
  | returned (hgone : w.bodies.get? id = none) (hclosed : (w.executor e).closed = true)
    (hdrained : w.unfinished e = [])
  /-- It has been given up. -/
  | abandoned (hgone : w.bodies.get? id = none) (houtcomes : w.outcomes id = [])

/-- What holds in every workshop. -/
structure Kept (jobProgram : ω → Process ω Unit) (limits : List Nat) (s : Workshop ω) : Prop where
  managed : s.world.Managed limits s.world.seeks? none
  calls : ∀ {k}, s.world.nextFiber ≤ k → s.call k = none
  items : ∀ {k}, s.world.nextFiber ≤ k → s.item k = none
  authors : ∀ {k i}, s.item k = some i → i.author < s.world.nextFiber
  later : ∀ {k}, s.world.nextFiber ≤ k → s.world.outcomes k = []
  silent : ∀ {k b}, s.world.bodies.get? k = some b → s.world.outcomes k = []
  recorded : ∀ {k e p}, s.world.bodies.get? k = some (.job e p) →
    ∃ i, s.item k = some i ∧ i.executor = e
  executing : ∀ {k e job}, s.call k = some (.execute e job) → s.Course jobProgram k e job
  shutting : ∀ {k e}, e < limits.length → s.call k = some (.shutDown e) → Closing s.world k e

/-- What stays as it is, whatever happens: calls that have been made, jobs that have been started,
and that what is gone or closed is gone or closed. -/
structure Onward (s t : Workshop ω) : Prop where
  next_le : s.world.nextFiber ≤ t.world.nextFiber
  calls : ∀ k < s.world.nextFiber, t.call k = s.call k
  items : ∀ k < s.world.nextFiber, t.item k = s.item k
  gone : ∀ k < s.world.nextFiber, s.world.bodies.get? k = none → t.world.bodies.get? k = none
  closed : ∀ e, (s.world.executor e).closed = true → (t.world.executor e).closed = true
  unfinished : ∀ e, (s.world.executor e).closed = true →
    ∀ k ∈ t.world.unfinished e, k ∈ s.world.unfinished e
  refused : ∀ e, (s.world.executor e).closed = true →
    ∀ k i, t.item k = some i → i.executor = e → s.item k = some i

/-- A workshop goes on from itself. -/
theorem Onward.refl (s : Workshop ω) : s.Onward s :=
  ⟨Nat.le_refl _, fun _ _ => rfl, fun _ _ => rfl, fun _ _ h => h, fun _ h => h, fun _ _ _ h => h,
    fun _ _ _ _ h _ => h⟩

/-- What stays as it is over two stretches stays as it is over both. -/
theorem Onward.trans {s t u : Workshop ω} (h : s.Onward t) (h' : t.Onward u) : s.Onward u where
  next_le := Nat.le_trans h.next_le h'.next_le
  calls k hk := (h'.calls k (Nat.lt_of_lt_of_le hk h.next_le)).trans (h.calls k hk)
  items k hk := (h'.items k (Nat.lt_of_lt_of_le hk h.next_le)).trans (h.items k hk)
  gone k hk hgone := h'.gone k (Nat.lt_of_lt_of_le hk h.next_le) (h.gone k hk hgone)
  closed e hc := h'.closed e (h.closed e hc)
  unfinished e hc k hk := h.unfinished e hc k (h'.unfinished e (h.closed e hc) k hk)
  refused e hc k i hi hexecutor :=
    h.refused e hc k i (h'.refused e (h.closed e hc) k i hi hexecutor) hexecutor

section Step

variable {jobProgram : ω → Process ω Unit} {limits : List Nat} {s t : Workshop ω} {id : FiberId}
  {e : ExecutorId}

/-- What has been said of a call stays true while nothing happens to it. -/
theorem Course.of_same {job : ω} (h : s.Course jobProgram id e job)
    (hbody : t.world.bodies.get? id = s.world.bodies.get? id)
    (houtcomes : t.world.outcomes id = s.world.outcomes id)
    (hitems : ∀ k i, i.author = id → (t.item k = some i ↔ s.item k = some i)) :
    t.Course jobProgram id e job := by
  have hnothing : s.StartsNothing id → t.StartsNothing id :=
    fun h k i hi hauthor => h k i ((hitems k i hauthor).1 hi) hauthor
  cases h with
  | pending hthere hnone hno =>
    exact .pending (hbody.trans hthere) (houtcomes.trans hnone) (hnothing hno)
  | accepted hgone hresult hitem honce =>
    exact .accepted (hbody.trans hgone) (houtcomes.trans hresult) ((hitems _ _ rfl).2 hitem)
      fun k' i hi hauthor => honce k' i ((hitems k' i hauthor).1 hi) hauthor
  | refused hgone hresult hno =>
    exact .refused (hbody.trans hgone) (houtcomes.trans hresult) (hnothing hno)
  | abandoned hgone hnone hno =>
    exact .abandoned (hbody.trans hgone) (houtcomes.trans hnone) (hnothing hno)

/-- What has been said of a shutdown stays true while nothing happens to it. -/
theorem Closing.of_same {w w' : World ω (Except QueueError Unit)} (h : Closing w id e)
    (hbody : w'.bodies.get? id = w.bodies.get? id) (houtcomes : w'.outcomes id = w.outcomes id)
    (hclosed : (w.executor e).closed = true → (w'.executor e).closed = true)
    (hunfinished : (w.executor e).closed = true → ∀ k ∈ w'.unfinished e, k ∈ w.unfinished e) :
    Closing w' id e := by
  cases h with
  | called hthere hnone => exact .called (hbody.trans hthere) (houtcomes.trans hnone)
  | waiting hthere hnone hc =>
    exact .waiting (hbody.trans hthere) (houtcomes.trans hnone) (hclosed hc)
  | returned hgone hc hdrained =>
    refine .returned (hbody.trans hgone) (hclosed hc) (List.eq_nil_iff_forall_not_mem.2 fun k hk => ?_)
    have hmem := hunfinished hc k hk
    rw [hdrained] at hmem
    cases hmem
  | abandoned hgone hnone => exact .abandoned (hbody.trans hgone) (houtcomes.trans hnone)

/-! ## Processes that begin -/

/-- A process begins that runs no job; if it is that of a call, the call is known from now on. -/
theorem Kept.spawn (h : s.Kept jobProgram limits) {body : Body ω (Except QueueError Unit)}
    {call : FiberId → Option (ExecutorCall ω)} (hbody : body.Orderly)
    (hexecutor : body.executor? = none) (hcall : ∀ k, k ≠ s.world.nextFiber → call k = s.call k)
    (hnew : ∀ c, call s.world.nextFiber = some c → body = .operation c.program) :
    ({ s with world := s.world.spawn body, call := call } : Workshop ω).Kept jobProgram limits ∧
      s.Onward { s with world := s.world.spawn body, call := call } := by
  have hkept : ∀ k, k ≠ s.world.nextFiber →
      (s.world.spawn body).bodies.get? k = s.world.bodies.get? k :=
    fun k hne => (World.bodies_spawn _ _ k).trans (if_neg hne)
  have hself : (s.world.spawn body).bodies.get? s.world.nextFiber = some body :=
    (World.bodies_spawn _ _ _).trans (if_pos rfl)
  have hsucc : ∀ {k}, (s.world.spawn body).nextFiber ≤ k → s.world.nextFiber ≤ k ∧
      k ≠ s.world.nextFiber := fun hle => ⟨Nat.le_of_succ_le hle, Nat.ne_of_gt hle⟩
  have hnothing : s.StartsNothing s.world.nextFiber :=
    fun k i hi => Nat.ne_of_lt (h.authors hi)
  have hunfinished : ∀ e, ∀ k ∈ (s.world.spawn body).unfinished e, k ∈ s.world.unfinished e := by
    intro e k hk
    obtain ⟨b, hb, hjob⟩ := World.mem_unfinished.1 hk
    by_cases hne : k = s.world.nextFiber
    · rw [hne, hself] at hb
      cases hb
      rw [hexecutor] at hjob
      cases hjob
    · exact World.mem_unfinished.2 ⟨b, (hkept k hne).symm.trans hb, hjob⟩
  refine ⟨?_, ?_⟩
  · exact {
      managed := h.managed.spawn hbody hexecutor
      calls := fun hle => (hcall _ (hsucc hle).2).trans (h.calls (hsucc hle).1)
      items := fun hle => h.items (hsucc hle).1
      authors := fun hi => Nat.lt_succ_of_lt (h.authors hi)
      later := fun hle => h.later (hsucc hle).1
      silent := fun {k b} hb => by
        by_cases hne : k = s.world.nextFiber
        · exact h.later (Nat.le_of_eq hne.symm)
        · exact h.silent ((hkept k hne).symm.trans hb)
      recorded := fun {k e p} hb => by
        by_cases hne : k = s.world.nextFiber
        · rw [hne, hself] at hb
          cases hb
          cases hexecutor
        · exact h.recorded ((hkept k hne).symm.trans hb)
      executing := fun {k e job} hk => by
        by_cases hne : k = s.world.nextFiber
        · subst hne
          have hprogram : body = .operation (Executor.execute e job).run := hnew _ hk
          exact .pending (hself.trans (congrArg some hprogram)) (h.later (Nat.le_refl _)) hnothing
        · exact (h.executing ((hcall k hne).symm.trans hk)).of_same (hkept k hne) rfl
            fun _ _ _ => .rfl
      shutting := fun {k e} he hk => by
        by_cases hne : k = s.world.nextFiber
        · subst hne
          have hprogram : body = .operation (Executor.shutDown e).run := hnew _ hk
          exact .called (hself.trans (congrArg some hprogram)) (h.later (Nat.le_refl _))
        · exact (h.shutting he ((hcall k hne).symm.trans hk)).of_same (hkept k hne) rfl
            (fun hc => hc) fun _ => hunfinished e }
  · exact {
      next_le := Nat.le_succ _
      calls := fun k hk => hcall k (Nat.ne_of_lt hk)
      items := fun _ _ => rfl
      gone := fun k hk hgone => (hkept k (Nat.ne_of_lt hk)).trans hgone
      closed := fun _ hc => hc
      unfinished := fun e _ => hunfinished e
      refused := fun _ _ _ _ hi _ => hi }

/-! ## Processes that have their turn, or are given up -/

section Moves

variable {w : World ω (Except QueueError Unit)}

/-- Jobs that were there stay in the account. -/
theorem itemsAfter_of_lt {k : FiberId} (hk : k < s.world.nextFiber) :
    s.itemsAfter id w k = s.item k := if_pos hk

/-- An item that is new has been started by the process that moves, in an executor that is open. -/
theorem author_of_new (hmanaged : w.Managed limits w.seeks? none)
    (hmoves : s.world.Moves jobProgram id w) {k : FiberId} {i : Item ω}
    (hle : s.world.nextFiber ≤ k) (hi : s.itemsAfter id w k = some i) :
    i.author = id ∧ (s.world.executor i.executor).closed = false ∧ k < w.nextFiber := by
  have hbind : (w.bodies.get? k).bind (Body.item? id) = some i :=
    (if_neg (Nat.not_lt.2 hle)).symm.trans hi
  obtain ⟨b, hb, hitem⟩ := Option.bind_eq_some_iff.1 hbind
  obtain ⟨e, job, rfl, hopen⟩ := hmoves.made k b hle hb
  cases hitem
  exact ⟨rfl, hopen, hmanaged.fresh hb⟩

/-- The items of all others stay as they are. -/
theorem Kept.itemsAfter_of_author (h : s.Kept jobProgram limits)
    (hmanaged : w.Managed limits w.seeks? none) (hmoves : s.world.Moves jobProgram id w)
    {k : FiberId} {i : Item ω} (hne : i.author ≠ id) :
    s.itemsAfter id w k = some i ↔ s.item k = some i := by
  by_cases hk : k < s.world.nextFiber
  · rw [itemsAfter_of_lt hk]
  · have hle := Nat.not_lt.1 hk
    refine ⟨fun hi => absurd (author_of_new hmanaged hmoves hle hi).1 hne, fun hi => ?_⟩
    rw [h.items hle] at hi
    cases hi

/-- A call that has been made has begun before the next process. -/
theorem Kept.lt_of_call (h : s.Kept jobProgram limits) {k : FiberId} {c : ExecutorCall ω}
    (hk : s.call k = some c) : k < s.world.nextFiber := by
  refine Nat.lt_of_not_le fun hle => ?_
  rw [h.calls hle] at hk
  cases hk

/-- A running job is on record. -/
theorem Kept.recorded_moved (h : s.Kept jobProgram limits) (hmoves : s.world.Moves jobProgram id w)
    {k : FiberId} {e : ExecutorId} {p : Process ω Unit}
    (hb : w.bodies.get? k = some (.job e p)) :
    ∃ i, s.itemsAfter id w k = some i ∧ i.executor = e := by
  by_cases hk : k < s.world.nextFiber
  · rw [itemsAfter_of_lt hk]
    by_cases hself : k = id
    · subst hself
      obtain ⟨b', hb', hsame, -⟩ := hmoves.own _ hb
      cases b' with
      | job e' p' =>
        cases hsame
        exact h.recorded hb'
      | operation p' => cases hsame
      | loop round p' => cases hsame
    · exact h.recorded ((hmoves.kept k hk hself).symm.trans hb)
  · refine ⟨⟨id, e, p⟩, (if_neg hk).trans ?_, rfl⟩
    rw [hb]
    rfl

/-- Whoever is still there after a turn has come to nothing yet. -/
theorem Kept.silent_moved (h : s.Kept jobProgram limits) (hmoves : s.world.Moves jobProgram id w)
    {k : FiberId} {b : Body ω (Except QueueError Unit)} (hb : w.bodies.get? k = some b) :
    w.outcomes k = [] := by
  by_cases hself : k = id
  · subst hself
    obtain ⟨b', hb', -, houtcomes⟩ := hmoves.own b hb
    exact houtcomes.trans (h.silent hb')
  rw [hmoves.outcomes k hself]
  by_cases hk : k < s.world.nextFiber
  · exact h.silent ((hmoves.kept k hk hself).symm.trans hb)
  · exact h.later (Nat.not_lt.1 hk)

/-- A turn takes nothing back of what the account says. -/
theorem onward_moved (hmanaged : w.Managed limits w.seeks? none)
    (hmoves : s.world.Moves jobProgram id w) : s.Onward ⟨w, s.call, s.itemsAfter id w⟩ where
  next_le := hmoves.next_le
  calls _ _ := rfl
  items _ hk := itemsAfter_of_lt hk
  gone _ hk hgone := hmoves.gone hk hgone
  closed e hc := hmoves.closed e hc
  unfinished _ hc _ hk := hmoves.unfinished hc hk
  refused e hc k i hi hexecutor := by
    by_cases hk : k < s.world.nextFiber
    · exact (itemsAfter_of_lt hk).symm.trans hi
    · have hopen := (author_of_new hmanaged hmoves (Nat.not_lt.1 hk) hi).2.1
      rw [hexecutor, hc] at hopen
      cases hopen

/-- Something happens to a process that is there; what becomes of its own call is known. -/
theorem Kept.moved (h : s.Kept jobProgram limits) (hid : id < s.world.nextFiber)
    (hmanaged : w.Managed limits w.seeks? none) (hmoves : s.world.Moves jobProgram id w)
    (ht : t = ⟨w, s.call, s.itemsAfter id w⟩)
    (hexecuting : ∀ e job, s.call id = some (.execute e job) → t.Course jobProgram id e job)
    (hshutting : ∀ e, e < limits.length → s.call id = some (.shutDown e) → Closing w id e) :
    t.Kept jobProgram limits ∧ s.Onward t := by
  subst ht
  refine ⟨?_, onward_moved hmanaged hmoves⟩
  exact {
    managed := hmanaged
    calls := fun hle => h.calls (Nat.le_trans hmoves.next_le hle)
    items := fun {k} hle => by
      cases hi : s.itemsAfter id w k with
      | none => exact hi
      | some i =>
        have hnew := author_of_new hmanaged hmoves (Nat.le_trans hmoves.next_le hle) hi
        exact absurd hnew.2.2 (Nat.not_lt.2 hle)
    authors := fun {k i} hi => by
      refine Nat.lt_of_lt_of_le ?_ hmoves.next_le
      by_cases hk : k < s.world.nextFiber
      · exact h.authors ((itemsAfter_of_lt hk).symm.trans hi)
      · exact (author_of_new hmanaged hmoves (Nat.not_lt.1 hk) hi).1 ▸ hid
    later := fun {k} hle => by
      have hle' := Nat.le_trans hmoves.next_le hle
      rw [hmoves.outcomes k fun heq => absurd hid (Nat.not_lt.2 (heq ▸ hle'))]
      exact h.later hle'
    silent := fun hb => h.silent_moved hmoves hb
    recorded := fun hb => h.recorded_moved hmoves hb
    executing := fun {k e job} hk => by
      by_cases hself : k = id
      · subst hself
        exact hexecuting e job hk
      · exact (h.executing hk).of_same (hmoves.kept k (h.lt_of_call hk) hself)
          (hmoves.outcomes k hself) fun k' i hauthor =>
            h.itemsAfter_of_author hmanaged hmoves (hauthor ▸ hself)
    shutting := fun {k e} he hk => by
      by_cases hself : k = id
      · subst hself
        exact hshutting e he hk
      · exact (h.shutting he hk).of_same (hmoves.kept k (h.lt_of_call hk) hself)
          (hmoves.outcomes k hself) (hmoves.closed e) fun hc k hk => hmoves.unfinished hc hk }

end Moves

/-! ## Turns of calls -/

/-- A process that is answered runs on. -/
theorem run_of_answer {γ : Type} {w w' : World ω (Except QueueError Unit)} {r : Request ω}
    {next : r.Reply → Process ω γ} {reply : r.Reply}
    (h : w.perform jobProgram id r = (w', .answer reply)) :
    w.run jobProgram id (.call r next) = w'.wake.run jobProgram id (next reply) := by
  rw [World.run, h]

/-- A process that has to wait is blocked. -/
theorem run_of_wait {γ : Type} {w w' : World ω (Except QueueError Unit)} {r : Request ω}
    {next : r.Reply → Process ω γ} {condition : Wait}
    (h : w.perform jobProgram id r = (w', .wait condition)) :
    w.run jobProgram id (.call r next) = (w', .blocked (.call r next) condition) := by
  rw [World.run, h]

/-- The world in which somebody has started a job in the slot that he was granted. -/
def started (w : World ω (Except QueueError Unit)) (e : ExecutorId) (x : Executor)
    (program : Process ω Unit) : World ω (Except QueueError Unit) :=
  let w := (w.setExecutor e x).wake
  ((w.setExecutor e (w.executor e).start).spawn (.job e program)).wake

/-- A call that hands a job over is answered at once or has to wait for its slot. -/
theorem run_execute {w : World ω (Except QueueError Unit)} {job : ω} {x : Executor}
    {answer : Executor.Answer} (hrequest : (w.executor e).request id = (x, answer)) :
    w.run jobProgram id (Executor.execute e job).run =
      match answer with
      | .granted => (started w e x (jobProgram job), .ended (.ok (.ok ())))
      | .refused => ((w.setExecutor e x).wake, .ended (.ok (.error .executorClosed)))
      | .wait => (w.setExecutor e x, .blocked (Executor.execute e job).run (.slot e)) := by
  cases answer with
  | granted =>
    have hslot : w.perform jobProgram id (.slot e) = (w.setExecutor e x, .answer true) := by
      simp only [World.perform, hrequest]
    exact (run_of_answer hslot).trans rfl
  | refused =>
    have hslot : w.perform jobProgram id (.slot e) = (w.setExecutor e x, .answer false) := by
      simp only [World.perform, hrequest]
    exact (run_of_answer hslot).trans rfl
  | wait =>
    have hslot : w.perform jobProgram id (.slot e) = (w.setExecutor e x, .wait (.slot e)) := by
      simp only [World.perform, hrequest]
    exact run_of_wait hslot

/-- A shutdown closes its executor and then waits for the jobs. -/
theorem run_shutDown (w : World ω (Except QueueError Unit)) :
    w.run jobProgram id (Executor.shutDown e).run =
      (w.setExecutor e (w.executor e).close).wake.run jobProgram id (awaitJobs e) := rfl

/-- What is left of a shutdown ends as soon as there are no jobs, and is blocked until then. -/
theorem run_awaitJobs (w : World ω (Except QueueError Unit)) :
    w.run jobProgram id (awaitJobs e) =
      if (w.executor e).isDrained then (w.wake, .ended (.ok (.ok ())))
      else (w, .blocked (awaitJobs e) (.drained e none)) := by
  by_cases hdrained : (w.executor e).isDrained = true
  · have hanswer : w.perform jobProgram id (.drained e none) = (w, .answer true) := by
      simp only [World.perform, if_pos hdrained]
    rw [if_pos hdrained]
    exact (run_of_answer hanswer).trans rfl
  · have hwait : w.perform jobProgram id (.drained e none) = (w, .wait (.drained e none)) := by
      simp only [World.perform, if_neg hdrained, Option.any_none, Bool.false_eq_true, if_false]
    rw [if_neg hdrained]
    exact run_of_wait hwait

/-- There are no processes from the next one on. -/
theorem Kept.get?_of_next_le (h : s.Kept jobProgram limits) {k : FiberId}
    (hle : s.world.nextFiber ≤ k) : s.world.bodies.get? k = none := by
  cases hk : s.world.bodies.get? k with
  | none => rfl
  | some b => exact absurd (h.managed.fresh hk) (Nat.not_lt.2 hle)

/-- A turn in which nothing new comes leaves the account of jobs as it is. -/
theorem itemsAfter_of_fresh (h : s.Kept jobProgram limits) {w : World ω (Except QueueError Unit)}
    (hnone : ∀ k, s.world.nextFiber ≤ k → w.bodies.get? k = none) : s.itemsAfter id w = s.item := by
  funext k
  unfold itemsAfter
  split
  · rfl
  · next hk =>
    rw [hnone k (Nat.not_lt.1 hk), h.items (Nat.not_lt.1 hk)]
    rfl

/-- A process that is called off starts nothing and has no result. -/
theorem Kept.bury_spec (h : s.Kept jobProgram limits) {f : Fiber ω (Except QueueError Unit)}
    (hf : s.world.fibers.get? id = some f) :
    (s.world.bury id f).bodies.get? id = none ∧
      (s.world.bury id f).outcomes = s.world.outcomes ∧
      ∀ k, s.world.nextFiber ≤ k → (s.world.bury id f).bodies.get? k = none := by
  have halike := World.alike_foldl_abandon f.held s.world
  have hb := World.get?_bodies hf
  rw [World.bury_eq]
  generalize f.held.foldl World.abandon s.world = w at halike
  have hbodies : ∀ k, (((w.withdraw id).vacate f.body).dismiss id).bodies.get? k =
      if k = id then none else s.world.bodies.get? k := by
    intro k
    rw [World.bodies_dismiss, ← halike.bodies]
    cases f.body <;> rfl
  refine ⟨(hbodies id).trans (if_pos rfl), ?_, fun k hle => ?_⟩
  · funext k
    have hsame : (((w.withdraw id).vacate f.body).dismiss id).results = w.results := by
      cases f.body <;> rfl
    unfold World.outcomes
    rw [hsame, halike.results]
  · rw [hbodies, h.get?_of_next_le hle, ite_self]

/-- A call that hands a job over is still under way after its turn, or is over. -/
theorem Kept.course_turn (h : s.Kept jobProgram limits) {job : ω}
    (hthere : s.world.bodies.get? id = some (.operation (Executor.execute e job).run))
    (houtcomes : s.world.outcomes id = []) (hnothing : s.StartsNothing id) :
    (s.step jobProgram (.poll id)).Course jobProgram id e job := by
  have hid : id < s.world.nextFiber := h.managed.fresh hthere
  have hturned : World.OperationTurned jobProgram _ id _ _ := World.operationTurned_turn hthere
  show Course jobProgram ⟨s.world.turn jobProgram id, s.call,
    s.itemsAfter id (s.world.turn jobProgram id)⟩ id e job
  generalize s.world.turn jobProgram id = w at hturned
  -- a process that has started nothing has started nothing if no process is new
  have hstill : (∀ k, s.world.nextFiber ≤ k → w.bodies.get? k = none) →
      StartsNothing ⟨w, s.call, s.itemsAfter id w⟩ id := by
    intro hnone k i hi
    have hi' : s.itemsAfter id w k = some i := hi
    rw [itemsAfter_of_fresh h hnone] at hi'
    exact hnothing k i hi'
  cases hrequest : (s.world.executor e).request id with
  | mk x answer =>
  have hexecute : s.world.run jobProgram id (Executor.execute e job).run = _ := run_execute hrequest
  cases hturned with
  | buried hf _ =>
    obtain ⟨hgone, hsame, hfresh⟩ := h.bury_spec hf
    exact .abandoned hgone ((congrFun hsame id).trans houtcomes) (hstill hfresh)
  | @answered w' outcome hrun =>
    rw [hrun] at hexecute
    have hresult : ∀ outcomes, w'.outcomes id = outcomes →
        (({ w' with results := (id, outcome) :: w'.results } : World ω _).dismiss id).outcomes id =
          outcome :: outcomes := by
      intro outcomes heq
      rw [← heq]
      exact (World.outcomes_cons w' id id outcome).trans (if_pos rfl)
    have hbodies : ∀ k,
        (({ w' with results := (id, outcome) :: w'.results } : World ω _).dismiss id).bodies.get? k =
          if k = id then none else w'.bodies.get? k := fun k => World.bodies_dismiss _ id k
    have hgone := (hbodies id).trans (if_pos rfl)
    cases answer with
    | granted =>
      cases hexecute
      have hall : ∀ k, (started s.world e x (jobProgram job)).bodies.get? k =
          if k = s.world.nextFiber then some (.job e (jobProgram job))
          else s.world.bodies.get? k := World.bodies_spawn s.world _
      have hnext : s.world.nextFiber ≠ id := Nat.ne_of_gt hid
      refine .accepted (k := s.world.nextFiber) hgone (hresult _ houtcomes) ?_ fun k i hi hauthor => ?_
      · refine (if_neg (Nat.lt_irrefl _)).trans ?_
        rw [hbodies, if_neg hnext, hall, if_pos rfl]
        rfl
      · by_cases hk : k < s.world.nextFiber
        · exact absurd hauthor (hnothing k i ((if_pos hk).symm.trans hi))
        · have hbind := (if_neg hk).symm.trans hi
          obtain ⟨b, hb, -⟩ := Option.bind_eq_some_iff.1 hbind
          rw [hbodies, hall] at hb
          by_cases heq : k = s.world.nextFiber
          · exact heq
          · rw [if_neg heq, h.get?_of_next_le (Nat.not_lt.1 hk), ite_self] at hb
            cases hb
    | refused =>
      cases hexecute
      refine .refused hgone (hresult _ houtcomes) (hstill fun k hle => ?_)
      rw [hbodies]
      split
      · rfl
      · exact h.get?_of_next_le hle
    | wait => cases hexecute
  | @waits w' left condition hrun =>
    rw [hrun] at hexecute
    cases answer with
    | granted => cases hexecute
    | refused => cases hexecute
    | wait =>
      cases hexecute
      have hbodies : ∀ k, ((s.world.setExecutor e x).park id
          (.operation (Executor.execute e job).run) (.slot e)).bodies.get? k =
          if k = id then (s.world.bodies.get? k).map fun _ => .operation (Executor.execute e job).run
          else s.world.bodies.get? k := fun k => World.bodies_setBody _ id k _
      refine .pending ?_ houtcomes (hstill fun k hle => ?_)
      · rw [hbodies, if_pos rfl, hthere]
        rfl
      · rw [hbodies, h.get?_of_next_le hle, Option.map_none, ite_self]

/-- A shutdown has closed its executor after its first turn, unless it was called off before, and is
over once there are no jobs; it starts nothing. -/
theorem Kept.closing_turn (h : s.Kept jobProgram limits) (he : e < limits.length)
    (hclosing : Closing s.world id e) {b : Body ω (Except QueueError Unit)}
    (hb : s.world.bodies.get? id = some b)
    (hmanaged : (s.world.turn jobProgram id).Managed limits
      (s.world.turn jobProgram id).seeks? none) :
    Closing (s.world.turn jobProgram id) id e ∧
      (∀ k, s.world.nextFiber ≤ k → (s.world.turn jobProgram id).bodies.get? k = none) ∧
      ((∀ f, s.world.fibers.get? id = some f → f.aborted = false) →
        ((s.world.turn jobProgram id).executor e).closed = true) := by
  -- either way the turn is one of waiting in a world in which the executor is closed
  have hwaits : ∃ (program : Process ω (Except QueueError Unit))
      (w₁ : World ω (Except QueueError Unit)), s.world.bodies.get? id = some (.operation program) ∧
      s.world.outcomes id = [] ∧
      s.world.run jobProgram id program = w₁.run jobProgram id (awaitJobs e) ∧
      (w₁.executor e).closed = true ∧ w₁.bodies = s.world.bodies ∧
      w₁.outcomes id = s.world.outcomes id := by
    cases hclosing with
    | called hthere houtcomes =>
      refine ⟨_, (s.world.setExecutor e (s.world.executor e).close).wake, hthere, houtcomes,
        run_shutDown _, ?_, rfl, rfl⟩
      show ((s.world.setExecutor e (s.world.executor e).close).executor e).closed = true
      rw [World.executor_setExecutor, if_pos ⟨rfl, h.managed.lt_length he⟩]
      rfl
    | waiting hthere houtcomes hclosed =>
      exact ⟨_, s.world, hthere, houtcomes, rfl, hclosed, rfl, rfl⟩
    | returned hgone => rw [hgone] at hb; cases hb
    | abandoned hgone => rw [hgone] at hb; cases hb
  obtain ⟨program, w₁, hthere, houtcomes, hrun₁, hclosed, hbodies, hsame⟩ := hwaits
  have hturned : World.OperationTurned jobProgram _ id _ _ := World.operationTurned_turn hthere
  rw [run_awaitJobs] at hrun₁
  generalize s.world.turn jobProgram id = w at hturned hmanaged
  cases hturned with
  | buried hf haborted =>
    obtain ⟨hgone, hoc, hfresh⟩ := h.bury_spec hf
    refine ⟨.abandoned hgone ((congrFun hoc id).trans houtcomes), hfresh, fun hcalled => ?_⟩
    exact absurd (haborted.symm.trans (hcalled _ hf)) nofun
  | @answered w' outcome hrun =>
    rw [hrun] at hrun₁
    by_cases hdrained : (w₁.executor e).isDrained = true
    · rw [if_pos hdrained] at hrun₁
      cases hrun₁
      refine ⟨.returned ((World.bodies_dismiss _ id id).trans (if_pos rfl)) hclosed ?_,
        fun k hle => ?_, fun _ => hclosed⟩
      · have hactive : (w₁.executor e).active = 0 := by
          unfold Executor.isDrained at hdrained
          exact beq_iff_eq.1 (Bool.and_eq_true_iff.1 hdrained).2
        have hcount := hmanaged.active (hmanaged.lt_length he)
        exact List.length_eq_zero_iff.1 (hcount.symm.trans hactive)
      · have hnone : w₁.bodies.get? k = none := hbodies ▸ h.get?_of_next_le hle
        exact (World.bodies_dismiss _ id k).trans ((congrArg _ hnone).trans (ite_self _))
    · rw [if_neg hdrained] at hrun₁
      cases hrun₁
  | @waits w' left condition hrun =>
    rw [hrun] at hrun₁
    by_cases hdrained : (w₁.executor e).isDrained = true
    · rw [if_pos hdrained] at hrun₁
      cases hrun₁
    · rw [if_neg hdrained] at hrun₁
      cases hrun₁
      have hpark := fun k => World.bodies_setBody w₁ id k (.operation (awaitJobs e))
      refine ⟨.waiting ?_ (hsame.trans houtcomes) hclosed, fun k hle => ?_, fun _ => hclosed⟩
      · refine (hpark id).trans ?_
        rw [if_pos rfl, hbodies, hthere]
        rfl
      · refine (hpark k).trans ?_
        rw [hbodies, h.get?_of_next_le hle, Option.map_none, ite_self]

/-! ## Any moves -/

/-- The turn of a process that is gone changes nothing. -/
theorem step_poll_of_absent (h : s.Kept jobProgram limits) (hf : s.world.fibers.get? id = none) :
    s.step jobProgram (.poll id) = s := by
  have hturn : s.world.turn jobProgram id = s.world := by
    unfold World.turn
    rw [hf]
  show Workshop.mk _ _ _ = s
  rw [hturn, itemsAfter_of_fresh h fun k hle => h.get?_of_next_le hle]

/-- A process that is gone is not given up again. -/
theorem step_drop_of_absent (hf : s.world.fibers.get? id = none) :
    s.step jobProgram (.drop id) = s := by
  simp only [step, hf]

/-- A process has its turn. -/
theorem Kept.poll (hjobs : ∀ job, (jobProgram job).Orderly) (h : s.Kept jobProgram limits)
    {f : Fiber ω (Except QueueError Unit)} (hf : s.world.fibers.get? id = some f) :
    (s.step jobProgram (.poll id)).Kept jobProgram limits ∧
      s.Onward (s.step jobProgram (.poll id)) := by
  have hb := World.get?_bodies hf
  obtain ⟨hmanaged, hmoves⟩ := h.managed.turn hjobs id
  refine h.moved (h.managed.fresh hb) hmanaged hmoves rfl (fun e job hcall => ?_)
    fun e he hcall => (h.closing_turn he (h.shutting he hcall) hb hmanaged).1
  cases h.executing hcall with
  | pending hthere houtcomes hnothing => exact h.course_turn hthere houtcomes hnothing
  | accepted hgone => rw [hgone] at hb; cases hb
  | refused hgone => rw [hgone] at hb; cases hb
  | abandoned hgone => rw [hgone] at hb; cases hb

/-- A process is given up. -/
theorem Kept.drop (h : s.Kept jobProgram limits) {f : Fiber ω (Except QueueError Unit)}
    (hf : s.world.fibers.get? id = some f) :
    (s.step jobProgram (.drop id)).Kept jobProgram limits ∧
      s.Onward (s.step jobProgram (.drop id)) := by
  have hb := World.get?_bodies hf
  obtain ⟨hgone, hsame, hfresh⟩ := h.bury_spec hf
  obtain ⟨hmanaged, hmoves⟩ : _ ∧ s.world.Moves jobProgram id (s.world.bury id f) :=
    h.managed.bury hf
  have hitems : s.itemsAfter id (s.world.bury id f) = s.item := itemsAfter_of_fresh h hfresh
  have hstep : s.step jobProgram (.drop id) =
      ⟨s.world.bury id f, s.call, s.itemsAfter id (s.world.bury id f)⟩ := by
    simp only [step, hf, hitems]
  refine h.moved (h.managed.fresh hb) hmanaged hmoves hstep (fun e job hcall => ?_)
    fun e he hcall => ?_
  · rw [hstep, hitems]
    cases h.executing hcall with
    | pending hthere houtcomes hnothing =>
      exact .abandoned hgone ((congrFun hsame id).trans houtcomes) hnothing
    | accepted hthere => rw [hthere] at hb; cases hb
    | refused hthere => rw [hthere] at hb; cases hb
    | abandoned hthere => rw [hthere] at hb; cases hb
  · cases h.shutting he hcall with
    | called hthere houtcomes => exact .abandoned hgone ((congrFun hsame id).trans houtcomes)
    | waiting hthere houtcomes => exact .abandoned hgone ((congrFun hsame id).trans houtcomes)
    | returned hthere => rw [hthere] at hb; cases hb
    | abandoned hthere => rw [hthere] at hb; cases hb

/-- What holds of a workshop holds after every move. -/
theorem Kept.step (hjobs : ∀ job, (jobProgram job).Orderly) (h : s.Kept jobProgram limits)
    (m : Move ω) :
    (s.step jobProgram m).Kept jobProgram limits ∧ s.Onward (s.step jobProgram m) := by
  have hunknown : ∀ c, s.call s.world.nextFiber ≠ some c := by
    intro c hc
    rw [h.calls (Nat.le_refl _)] at hc
    cases hc
  cases m with
  | call c =>
    refine h.spawn ?_ rfl (fun k hne => Function.update_of_ne hne _ _) fun c' hc' => ?_
    · cases c with
      | execute e job => exact Executor.orderly_execute e job
      | shutDown e => exact Executor.orderly_shutDown e
    · rw [Function.update_self] at hc'
      cases hc'
      rfl
  | operate program horderly =>
    exact h.spawn horderly rfl (fun _ _ => rfl) fun c hc => absurd hc (hunknown c)
  | loop round horderly =>
    exact h.spawn ⟨horderly, horderly⟩ rfl (fun _ _ => rfl) fun c hc => absurd hc (hunknown c)
  | poll id =>
    cases hf : s.world.fibers.get? id with
    | none =>
      rw [step_poll_of_absent h hf]
      exact ⟨h, .refl s⟩
    | some f => exact h.poll hjobs hf
  | drop id =>
    cases hf : s.world.fibers.get? id with
    | none =>
      rw [step_drop_of_absent hf]
      exact ⟨h, .refl s⟩
    | some f => exact h.drop hf
  | meanwhile surroundings =>
    refine ⟨{
      managed := h.managed.of_alike ⟨rfl, rfl, rfl, rfl⟩
      calls := h.calls
      items := h.items
      authors := h.authors
      later := h.later
      silent := h.silent
      recorded := h.recorded
      executing := fun hk => (h.executing hk).of_same rfl rfl fun _ _ _ => .rfl
      shutting := fun he hk =>
        (h.shutting he hk).of_same rfl rfl (fun hc => hc) fun _ _ hk => hk }, ?_⟩
    exact ⟨Nat.le_refl _, fun _ _ => rfl, fun _ _ => rfl, fun _ _ hgone => hgone, fun _ hc => hc,
      fun _ _ _ hk => hk, fun _ _ _ _ hi _ => hi⟩

/-- What holds in every workshop is kept by all moves, and nothing is taken back. -/
theorem Kept.run (hjobs : ∀ job, (jobProgram job).Orderly) (h : s.Kept jobProgram limits)
    (moves : List (Move ω)) :
    (s.run jobProgram moves).Kept jobProgram limits ∧ s.Onward (s.run jobProgram moves) := by
  induction moves generalizing s with
  | nil => exact ⟨h, .refl s⟩
  | cons m rest ih =>
    obtain ⟨hkept, honward⟩ := h.step hjobs m
    obtain ⟨hlast, hrest⟩ := ih hkept
    exact ⟨hlast, honward.trans hrest⟩

/-- At the start every executor has the slots of its limit. -/
theorem executor_initial (clock : Instant) (shards : List ShardId) {e : ExecutorId}
    (he : e < limits.length) :
    (World.initial clock shards (limits.map .make) : World ω (Except QueueError Unit)).executor e =
      .make limits[e] := by
  show ((limits.map Executor.make)[e]?).getD default = _
  simp [he]

/-- At the start there are no calls and no jobs. -/
theorem kept_start (jobProgram : ω → Process ω Unit) (clock : Instant) (shards : List ShardId)
    (limits : List Nat) :
    (start clock shards limits : Workshop ω).Kept jobProgram (limits.map (max · 1)) := by
  have hnone : ∀ k, (start clock shards limits : Workshop ω).world.bodies.get? k = none :=
    fun _ => rfl
  have hexecutor : ∀ e, ∃ limit,
      (start clock shards limits : Workshop ω).world.executor e = .make limit := by
    intro e
    by_cases he : e < limits.length
    · exact ⟨_, executor_initial clock shards he⟩
    · exact ⟨1, World.executor_of_length_le
        (Nat.le_trans (Nat.le_of_eq (List.length_map _)) (Nat.not_lt.1 he))⟩
  refine {
    managed := {
      limited := ?_
      fresh := fun hb => nomatch hb
      orderly := fun hb => nomatch hb
      sound := fun {e} _ => ?_
      active := fun {e} _ => ?_
      queued := fun {e k} hk => ?_
      isOpen := nofun }
    calls := fun _ => rfl
    items := fun _ => rfl
    authors := nofun
    later := fun _ => rfl
    silent := fun _ => rfl
    recorded := fun hb => nomatch hb
    executing := nofun
    shutting := fun _ => nofun }
  · show (limits.map Executor.make).map Executor.limit = _
    rw [List.map_map]
    rfl
  · obtain ⟨limit, heq⟩ := hexecutor e
    rw [heq]
    exact Executor.sound_make limit
  · obtain ⟨limit, heq⟩ := hexecutor e
    rw [heq]
    rfl
  · obtain ⟨limit, heq⟩ := hexecutor e
    rw [heq] at hk
    cases hk

/-! ## What becomes of slots, calls and jobs -/

/-- A job has left its slot, which is free now or granted to somebody else. -/
structure LeavesSlot (e : ExecutorId) (id : FiberId) (w w' : World ω (Except QueueError Unit)) :
    Prop where
  slots : (w'.executor e).slots = (w.executor e).slots + 1
  others : ∀ e', e' ≠ e → w'.executor e' = w.executor e'
  unfinished : (w'.unfinished e).length + 1 = (w.unfinished e).length
  gone : w'.bodies.get? id = none

/-- A job that comes to its end in its turn, by finishing or by a panic, leaves its slot. -/
theorem Kept.leavesSlot (hjobs : ∀ job, (jobProgram job).Orderly) (h : s.Kept jobProgram limits)
    (he : e < limits.length) {program : Process ω Unit} {held : List Handle}
    (hf : s.world.fibers.get? id = some ⟨.job e program, held, false⟩)
    {w : World ω (Except QueueError Unit)} {outcome : Except Panic Unit}
    (hrun : s.world.run jobProgram id program = (w, .ended outcome)) :
    LeavesSlot e id w (s.step jobProgram (.poll id)).world := by
  have hb := World.get?_bodies hf
  have hrested := (h.managed.asking hb rfl).run hjobs (h.managed.orderly hb)
  rw [hrun] at hrested
  obtain ⟨hmanaged, hgrows⟩ := hrested
  have hb' : w.bodies.get? id = some (.job e program) :=
    (hgrows.kept id (h.managed.fresh hb)).trans hb
  have hturn : (s.step jobProgram (.poll id)).world =
      (w.setExecutor e (w.executor e).finish).dismiss id := by
    show s.world.turn jobProgram id = _
    unfold World.turn
    simp only [hf, hrun, Bool.false_eq_true, if_false]
  have hexecutor : ∀ e', (s.step jobProgram (.poll id)).world.executor e' =
      if e' = e ∧ e < w.executors.length then (w.executor e).finish else w.executor e' := by
    rw [hturn]
    exact fun e' => World.executor_setExecutor w e e' _
  refine {
    slots := ?_
    others := fun e' hne => (hexecutor e').trans (if_neg fun hboth => hne hboth.1)
    unfinished := ?_
    gone := ?_ }
  · rw [hexecutor, if_pos ⟨rfl, hmanaged.lt_length he⟩]
    exact Executor.slots_finish _
  · have hcount := World.length_unfinished_dismiss hb' e
    have hjob : (Body.job e program : Body ω (Except QueueError Unit)).executor? = some e := rfl
    rw [if_pos hjob] at hcount
    rw [hturn]
    exact hcount.symm
  · rw [hturn]
    exact (World.bodies_dismiss _ id id).trans (if_pos rfl)

/-- A shutdown has closed its executor after its first turn, in which no job is started. -/
theorem Kept.closed_polled (hjobs : ∀ job, (jobProgram job).Orderly)
    (h : s.Kept jobProgram limits) (he : e < limits.length)
    (hcall : s.call id = some (.shutDown e)) {body : Body ω (Except QueueError Unit)}
    {held : List Handle} (hf : s.world.fibers.get? id = some ⟨body, held, false⟩) :
    ((s.step jobProgram (.poll id)).world.executor e).closed = true ∧
      (s.step jobProgram (.poll id)).item = s.item := by
  obtain ⟨-, hfresh, hclosed⟩ := h.closing_turn he (h.shutting he hcall) (World.get?_bodies hf)
    (h.managed.turn hjobs id).1
  refine ⟨hclosed fun f hf' => ?_, itemsAfter_of_fresh h hfresh⟩
  rw [hf] at hf'
  cases hf'
  rfl

/-- A call that has returned has done so before its executor was closed. -/
theorem Kept.accepted_of_closed (h : s.Kept jobProgram limits) (ht : t.Kept jobProgram limits)
    (honward : s.Onward t) (hclosed : (s.world.executor e).closed = true) {caller : FiberId}
    {job : ω} (hcall : t.call caller = some (.execute e job))
    (hresult : .ok (.ok ()) ∈ t.world.outcomes caller) :
    .ok (.ok ()) ∈ s.world.outcomes caller := by
  cases ht.executing hcall with
  | pending _ houtcomes => rw [houtcomes] at hresult; cases hresult
  | refused _ houtcomes =>
    rw [houtcomes, List.mem_singleton] at hresult
    cases hresult
  | abandoned _ houtcomes => rw [houtcomes] at hresult; cases hresult
  | accepted hgone houtcomes hitem honce =>
    have hold := honward.refused e hclosed _ _ hitem rfl
    have hbefore : s.call caller = some (.execute e job) :=
      (honward.calls caller (h.authors hold)).symm.trans hcall
    cases h.executing hbefore with
    | pending _ _ hnothing => exact absurd rfl (hnothing _ _ hold)
    | refused _ _ hnothing => exact absurd rfl (hnothing _ _ hold)
    | abandoned _ _ hnothing => exact absurd rfl (hnothing _ _ hold)
    | accepted _ houtcomes' => exact houtcomes' ▸ List.mem_singleton_self _

/-- A shutdown that has returned has left no jobs, and there are none from then on. -/
theorem Kept.unfinished_of_returned (h : s.Kept jobProgram limits) (he : e < limits.length)
    (hcall : s.call id = some (.shutDown e)) {outcome : Except Panic (Except QueueError Unit)}
    (hresult : outcome ∈ s.world.outcomes id) (honward : s.Onward t) :
    t.world.unfinished e = [] := by
  cases h.shutting he hcall with
  | called _ houtcomes => rw [houtcomes] at hresult; cases hresult
  | waiting _ houtcomes => rw [houtcomes] at hresult; cases hresult
  | abandoned _ houtcomes => rw [houtcomes] at hresult; cases hresult
  | returned _ hclosed hdrained =>
    refine List.eq_nil_iff_forall_not_mem.2 fun k hk => ?_
    have hmem := honward.unfinished e hclosed k hk
    rw [hdrained] at hmem
    cases hmem

end Step

/-- Whatever happens in a workshop: an executor never has more jobs than its limit says, and while
it is open its slots make up its limit; a call that hands a job over starts it once if it returns,
and not at all otherwise, and no jobs are there but those that have been started so; a job that
comes to its end leaves exactly one slot, and is gone for good; once a shutdown has had a turn no
call returns and no job is started any more; and when the shutdown returns there are no jobs. -/
theorem admission_and_shutdown {jobProgram : ω → Process ω Unit}
    (hjobs : ∀ job, (jobProgram job).Orderly) (clock : Instant) (shards : List ShardId)
    (limits : List Nat) {e : ExecutorId} (he : e < limits.length) (moves : List (Move ω)) :
    let s := (start clock shards limits).run jobProgram moves
    (s.world.unfinished e).length ≤ max 1 limits[e] ∧
    ((s.world.executor e).closed = false →
      (s.world.executor e).slots + (s.world.unfinished e).length = max 1 limits[e]) ∧
    (∀ id job, s.call id = some (.execute e job) → s.Course jobProgram id e job) ∧
    (∀ id program, s.world.bodies.get? id = some (.job e program) →
      ∃ i, s.item id = some i ∧ i.executor = e) ∧
    (∀ id program held w outcome,
      s.world.fibers.get? id = some ⟨.job e program, held, false⟩ →
      s.world.run jobProgram id program = (w, .ended outcome) →
      LeavesSlot e id w (s.step jobProgram (.poll id)).world ∧
        ∀ later, ((s.step jobProgram (.poll id)).run jobProgram later).world.bodies.get? id = none) ∧
    (∀ id body held, s.call id = some (.shutDown e) →
      s.world.fibers.get? id = some ⟨body, held, false⟩ → ∀ later,
      let t := (s.step jobProgram (.poll id)).run jobProgram later
      (t.world.executor e).closed = true ∧
        (∀ caller job, t.call caller = some (.execute e job) →
          .ok (.ok ()) ∈ t.world.outcomes caller → .ok (.ok ()) ∈ s.world.outcomes caller) ∧
        ∀ k i, t.item k = some i → i.executor = e → s.item k = some i) ∧
    ∀ id outcome, s.call id = some (.shutDown e) → outcome ∈ s.world.outcomes id → ∀ later,
      (s.run jobProgram later).world.unfinished e = [] := by
  intro s
  have hs : s.Kept jobProgram (limits.map (max · 1)) :=
    ((kept_start jobProgram clock shards limits).run hjobs moves).1
  have he' : e < (limits.map (max · 1)).length := Nat.lt_of_lt_of_eq he (List.length_map _).symm
  have hlimit : (s.world.executor e).limit = max 1 limits[e] := by
    rw [hs.managed.limit_executor he', List.getElem_map, Nat.max_comm]
  have hsound : (s.world.executor e).Sound 0 := hs.managed.sound (hs.managed.lt_length he')
  have hactive := hs.managed.active (hs.managed.lt_length he')
  refine ⟨?_, fun hopen => ?_, fun id job => hs.executing, fun id program => hs.recorded,
    fun id program held w outcome hf hrun => ?_, fun id body held hcall hf later => ?_,
    fun id outcome hcall hresult later => ?_⟩
  · have hwithin := hsound.within
    omega
  · have hfull := hsound.full hopen
    omega
  · have hleaves := hs.leavesSlot hjobs he' hf hrun
    obtain ⟨hpolled, honward⟩ := hs.step hjobs (.poll id)
    have hid : id < s.world.nextFiber := hs.managed.fresh (World.get?_bodies hf)
    exact ⟨hleaves, fun later => (hpolled.run hjobs later).2.gone id
      (Nat.lt_of_lt_of_le hid honward.next_le) hleaves.gone⟩
  · obtain ⟨hclosed, hitems⟩ := hs.closed_polled hjobs he' hcall hf
    obtain ⟨hpolled, hbefore⟩ := hs.step hjobs (.poll id)
    obtain ⟨hlast, honward⟩ := hpolled.run hjobs later
    have hid : id < s.world.nextFiber := hs.managed.fresh (World.get?_bodies hf)
    refine ⟨honward.closed e hclosed, fun caller job hjob hresult => ?_, fun k i hi hexecutor => ?_⟩
    · have hother : caller ≠ id := by
        rintro rfl
        rw [(hbefore.trans honward).calls caller hid, hcall] at hjob
        cases hjob
      rw [← (hs.managed.turn hjobs id).2.outcomes caller hother]
      exact hpolled.accepted_of_closed hlast honward hclosed hjob hresult
    · rw [← hitems]
      exact honward.refused e hclosed k i hi hexecutor
  · exact hs.unfinished_of_returned he' hcall hresult (hs.run hjobs later).2

/-- A loop that hands its tasks over to the executor. -/
def handingLoop : PollLoop String :=
  ⟨0, ⟨⟨default, Pool.handingConsumer Store.someQueue, .silent, .manual⟩, .fixed .zero,
    .handedOver 0⟩, .silent⟩

/-- The job of another task of its queue. -/
def otherJob (id : TaskId) : Job String :=
  ⟨handingLoop.runner.processor, ⟨id, none, 1, .epoch, .epoch, none, none⟩⟩

/-- A shard with one task, and the gate of the consumer is open. -/
def stockedShard : World (Job String) (Except QueueError Unit) :=
  { World.initial .epoch [] [] with
    shards := .ofList [(default, ⟨Store.empty.run (Store.stock .epoch), fun _ => 0⟩)]
    gates := ["work"] }

/-- An executor with room for two jobs gets one from a loop and one from the first of two calls, and
is shut down while the second call waits; then the jobs are done. -/
def twoCalls : List (Move (Job String)) :=
  [.meanwhile stockedShard, .loop handingLoop.round handingLoop.orderly_round, .poll 0,
    .call (.execute 0 (otherJob 2)), .call (.execute 0 (otherJob 3)), .poll 2, .poll 3,
    .call (.shutDown 0), .poll 5, .poll 3, .poll 1, .poll 4, .poll 5]

/-- What `admission_and_shutdown` says of these moves, at the end of which the first call has
returned, the second one has been refused, and the shutdown has returned. -/
theorem two_calls_settled :
    let s := (start .epoch [] [2]).run Job.work twoCalls
    (∀ job : Job String, job.work.Orderly) ∧ 0 < [2].length ∧
    (s.item 1).map Item.author = some 0 ∧ s.world.outcomes 2 = [.ok (.ok ())] ∧
    s.world.outcomes 3 = [.ok (.error .executorClosed)] ∧
    s.world.outcomes 5 = [.ok (.ok ())] ∧
    s.Course Job.work 2 0 (otherJob 2) ∧ s.Course Job.work 3 0 (otherJob 3) ∧
    ∀ later, (s.run Job.work later).world.unfinished 0 = [] := by
  obtain ⟨-, -, hcourse, -, -, -, hreturned⟩ :=
    admission_and_shutdown Job.orderly_work .epoch [] [2] (Nat.zero_lt_one : 0 < [2].length)
      twoCalls
  exact ⟨Job.orderly_work, Nat.zero_lt_one, rfl, rfl, rfl, rfl, hcourse 2 (otherJob 2) rfl,
    hcourse 3 (otherJob 3) rfl, hreturned 5 (.ok (.ok ())) rfl (List.mem_singleton_self _)⟩

end Workshop

end LeaseQueue
