import LeaseQueue.Proofs.ServiceAccounts

/-!
# Turns of a scheduler

A scheduler lets a process go on until it ends or has to wait, and what is left of the process is
put down only then.  A service puts it down after every answer.  Since no request looks at what is
left of a process, the two do not differ in anything else (`World.perform_resumed`), and a turn is
made up of moves of a service.

Main statement: `Service.Reached.settleThrough`.  What is proved of every service that can be
reached therefore holds wherever a scheduler comes to, however long it runs.
-/

set_option autoImplicit false

namespace LeaseQueue

variable {α ω β γ : Type}

open Process

/-! ## What is left of a process -/

namespace World

/-- The world with what is left of a process. -/
def resumed (w : World ω β) (id : FiberId) (left : Body ω β) : World ω β :=
  w.modifyFiber id fun f => { f with body := left }

/-- A process is there, and those to come are others. -/
structure Hosts (w : World ω β) (id : FiberId) : Prop where
  there : w.fibers.contains id = true
  lt : id < w.nextFiber

variable {w : World ω β} {id : FiberId}

/-- Changing a process neither makes one nor takes one away. -/
theorem contains_modify (m : OrderedMap FiberId (Fiber ω β)) (id k : FiberId)
    (f : Fiber ω β → Fiber ω β) : (m.modify id f).contains k = m.contains k := by
  unfold OrderedMap.contains
  rw [OrderedMap.get?_modify]
  split
  · rw [Option.isSome_map]
  · rfl

/-- Changes of two processes that do not mind their order may be made in any. -/
theorem modify_comm (m : OrderedMap FiberId (Fiber ω β)) (id k : FiberId)
    {f g : Fiber ω β → Fiber ω β} (h : ∀ x, f (g x) = g (f x)) :
    (m.modify id f).modify k g = (m.modify k g).modify id f := by
  refine OrderedMap.ext_get? fun a => ?_
  simp only [OrderedMap.get?_modify]
  split
  · split
    · simp [Function.comp_def, h]
    · rfl
  · rfl

/-- A change that does not concern what is left of a process may be made after it goes on. -/
theorem modifyFiber_resumed (w : World ω β) (id k : FiberId) (left : Body ω β)
    {g : Fiber ω β → Fiber ω β} (h : ∀ x, g { x with body := left } = { g x with body := left }) :
    (w.resumed id left).modifyFiber k g = (w.modifyFiber k g).resumed id left :=
  congrArg (fun fibers => { w with fibers := fibers })
    (modify_comm w.fibers id k fun x => (h x).symm)

/-- A transaction may be begun before or after a process goes on. -/
theorem begin_resumed (w : World ω β) (id k : FiberId) (left : Body ω β) (shard : ShardId) :
    (w.resumed id left).begin k shard =
      ((w.begin k shard).1.resumed id left, (w.begin k shard).2) := by
  unfold World.begin
  rw [show (w.resumed id left).store shard = w.store shard from rfl]
  generalize (w.store shard).begin = outcome
  obtain ⟨store, answer⟩ := outcome
  cases answer with
  | ok tx =>
    have hheld := modifyFiber_resumed (w.setStore shard store) id k left
      (g := fun f => { f with held := (⟨shard, tx⟩ : Handle) :: f.held }) fun _ => rfl
    exact congrArg (fun w : World ω β => (w, Except.ok (⟨shard, tx⟩ : Handle))) hheld
  | error e => rfl

/-- A store may be called before or after a process goes on. -/
theorem inStoreWaiting_resumed (w : World ω β) (id : FiberId) (left : Body ω β) (tx : Handle)
    {γ : Type} (act : Store → TransactionId → Store × Option (Except StoreError γ)) :
    (w.resumed id left).inStoreWaiting tx act =
      ((w.inStoreWaiting tx act).1.resumed id left, (w.inStoreWaiting tx act).2) := by
  unfold inStoreWaiting
  rw [show (w.resumed id left).store tx.shard = w.store tx.shard from rfl]
  generalize act (w.store tx.shard) tx.transaction = outcome
  obtain ⟨store, answer⟩ := outcome
  cases answer <;> rfl

/-- A store may be probed before or after a process goes on. -/
theorem probe_resumed (w : World ω β) (id : FiberId) (left : Body ω β) (shard : ShardId)
    (point : StorePoint) : (w.resumed id left).probe shard point =
      ((w.probe shard point).1.resumed id left, (w.probe shard point).2) := by
  unfold probe
  rw [show (w.resumed id left).shards = w.shards from rfl]
  generalize ((w.shards.get? shard).map fun s => s.faults point).getD 0 = times
  cases times <;> rfl

/-- A process that goes on is still there, as all others are. -/
theorem contains_resumed (w : World ω β) (id k : FiberId) (left : Body ω β) :
    (w.resumed id left).fibers.contains k = w.fibers.contains k :=
  contains_modify ..

/-- A process may be made before or after another goes on. -/
theorem spawn_resumed (hid : w.Hosts id) (left body : Body ω β) :
    (w.resumed id left).spawn body = (w.spawn body).resumed id left := by
  have hfibers : (w.resumed id left).fibers.insert w.nextFiber ⟨body, [], false⟩ =
      (w.fibers.insert w.nextFiber ⟨body, [], false⟩).modify id
        fun f => { f with body := left } := by
    refine OrderedMap.ext_get? fun a => ?_
    unfold resumed modifyFiber
    simp only [OrderedMap.get?_insert, OrderedMap.get?_modify]
    by_cases ha : a = w.nextFiber
    · subst ha
      rw [if_pos rfl, if_neg (Nat.ne_of_gt hid.lt), if_pos rfl]
    · rw [if_neg ha, if_neg ha]
  exact congrArg (fun fibers => { w.spawn body with fibers := fibers }) hfibers

/-- Processes may be aborted before or after one goes on. -/
theorem abort_resumed (w : World ω β) (id : FiberId) (left : Body ω β) (ids : List FiberId) :
    (w.resumed id left).abort ids = (w.abort ids).resumed id left := by
  -- the processes are called off one by one
  have hfold : ∀ (ids : List FiberId) (fibers : OrderedMap FiberId (Fiber ω β)),
      ids.foldl (fun fibers k => fibers.modify k fun f => { f with aborted := true })
        (fibers.modify id fun f => { f with body := left }) =
      (ids.foldl (fun fibers k => fibers.modify k fun f => { f with aborted := true })
        fibers).modify id fun f => { f with body := left } := by
    intro ids
    induction ids with
    | nil => exact fun _ => rfl
    | cons k rest ih =>
      intro fibers
      have hswap := modify_comm fibers id k (f := fun f : Fiber ω β => { f with body := left })
        (g := fun f => { f with aborted := true }) fun _ => rfl
      rw [List.foldl_cons, List.foldl_cons, hswap, ih]
  have hsame : (w.resumed id left).fibers.contains = w.fibers.contains :=
    funext fun k => contains_resumed w id k left
  unfold abort
  rw [hsame]
  exact congrArg (fun fibers => { w.abort ids with fibers := fibers })
    (hfold (ids.filter w.fibers.contains) w.fibers)

/-- What is left of a process plays no part in what a request does. -/
theorem perform_resumed (jobProgram : ω → Process ω Unit) (hid : w.Hosts id) (left : Body ω β)
    {k : FiberId} {r : Request ω} {w' : World ω β} {reply : Reply r.Reply}
    (h : w.perform jobProgram k r = (w', reply)) :
    (w.resumed id left).perform jobProgram k r = (w'.resumed id left, reply) := by
  cases r with
  | begin shard =>
    cases h
    show (((w.resumed id left).begin k shard).1,
      Reply.answer ((w.resumed id left).begin k shard).2) = _
    rw [begin_resumed]
    rfl
  | probe shard point =>
    cases h
    show (((w.resumed id left).probe shard point).1,
      Reply.answer ((w.resumed id left).probe shard point).2) = _
    rw [probe_resumed]
    rfl
  | abandon tx =>
    cases h
    have hheld := modifyFiber_resumed (w.abandon tx) id k left
      (g := fun f => { f with held := f.held.filter (· ≠ tx) }) fun _ => rfl
    exact congrArg (·, Reply.answer ()) hheld
  | handOver e job =>
    cases h
    exact congrArg (·, Reply.answer ())
      (spawn_resumed (w := w.setExecutor e (w.executor e).start) ⟨hid.there, hid.lt⟩ left _)
  | abort ids =>
    cases h
    exact congrArg (·, Reply.answer ()) (abort_resumed w id left ids)
  | ended ids deadline =>
    simp only [perform, contains_resumed] at h ⊢
    split at h
    · next hc =>
      cases h
      exact if_pos hc
    · next hc =>
      split at h
      · next hd =>
        cases h
        exact (if_neg hc).trans (if_pos hd)
      · next hd =>
        cases h
        exact (if_neg hc).trans (if_neg hd)
  | delete tx location task =>
    exact (inStoreWaiting_resumed w id left tx fun s t => s.delete t location task).trans
      (congrArg (fun x => (x.1.resumed id left, x.2)) h)
  | reenqueue tx asOf location task delay fresh =>
    exact (inStoreWaiting_resumed w id left tx fun s t =>
      s.reenqueue t asOf location task delay fresh).trans
        (congrArg (fun x => (x.1.resumed id left, x.2)) h)
  | pass | sleepUntil | pauseUntil | beginDraining =>
    simp only [perform] at h
    split at h
    · next hc =>
      cases h
      exact if_pos hc
    · next hc =>
      cases h
      exact if_neg hc
  | passBefore _ _ | drained _ _ =>
    simp only [perform] at h
    split at h
    · next hc =>
      cases h
      exact if_pos hc
    · next hc =>
      split at h
      · next hd =>
        cases h
        exact (if_neg hc).trans (if_pos hd)
      · next hd =>
        cases h
        exact (if_neg hc).trans (if_neg hd)
  | slot e =>
    have hsame : (w.resumed id left).executor e = w.executor e := rfl
    simp only [perform, hsame] at h ⊢
    split at h <;>
    · cases h
      rfl
  | _ =>
    cases h
    rfl

/-- Of two ways in which a process goes on the later one counts. -/
theorem resumed_resumed (w : World ω β) (id : FiberId) (before left : Body ω β) :
    (w.resumed id before).resumed id left = w.resumed id left := by
  have hfibers : ((w.resumed id before).resumed id left).fibers = (w.resumed id left).fibers := by
    refine OrderedMap.ext_get? fun a => ?_
    unfold resumed modifyFiber
    simp only [OrderedMap.get?_modify]
    split
    · rw [Option.map_map]
      rfl
    · rfl
  exact congrArg (fun fibers => { w with fibers := fibers }) hfibers

/-- A process with what is left of it is the same process. -/
theorem resumed_self {f : Fiber ω β} (hf : w.fibers.get? id = some f) :
    w.resumed id f.body = w := by
  have hfibers : (w.resumed id f.body).fibers = w.fibers := by
    refine OrderedMap.ext_get? fun a => ?_
    unfold resumed modifyFiber
    rw [OrderedMap.get?_modify]
    split
    · next ha =>
      rw [ha, hf]
      rfl
    · rfl
  exact congrArg (fun fibers => { w with fibers := fibers }) hfibers

/-- A process may go whatever is left of it. -/
theorem dismiss_resumed (w : World ω β) (id : FiberId) (left : Body ω β) :
    (w.resumed id left).dismiss id = w.dismiss id := by
  have hfibers : (w.resumed id left).fibers.erase id = w.fibers.erase id := by
    refine OrderedMap.ext_get? fun a => ?_
    rw [OrderedMap.get?_erase, OrderedMap.get?_erase]
    split
    · rfl
    · next ha => exact (OrderedMap.get?_modify ..).trans (if_neg ha)
  exact congrArg (fun fibers => { w with fibers := fibers }.wake) hfibers

/-- A process that is there goes on with what is left of it. -/
theorem Hosts.get? (h : w.Hosts id) (left : Body ω β) :
    ∃ f, (w.resumed id left).fibers.get? id = some f ∧ f.body = left := by
  obtain ⟨f, hf⟩ := Option.isSome_iff_exists.1 h.there
  refine ⟨{ f with body := left }, ?_, rfl⟩
  unfold resumed modifyFiber
  rw [OrderedMap.get?_modify, if_pos rfl, hf]
  rfl

/-- A process that asks is still there. -/
theorem Hosts.perform (h : w.Hosts id) (jobProgram : ω → Process ω Unit) (k : FiberId)
    (r : Request ω) : (w.perform jobProgram k r).1.Hosts id := by
  have hthere : (w.sketch.standing id).isSome = true := by
    simpa [sketch, OrderedMap.contains] using h.there
  have hof : ∀ w' : World ω β, (w'.sketch.standing id).isSome = true →
      id < w'.sketch.nextFiber → w'.Hosts id := fun w' hthere hlt =>
    ⟨by simpa [sketch, OrderedMap.contains] using hthere, hlt⟩
  by_cases hneutral : r.Neutral
  · refine hof _ ?_ ?_
    · rw [sketch_perform_of_neutral hneutral]
      exact hthere
    · rw [sketch_perform_of_neutral hneutral]
      exact h.lt
  cases r with
  | handOver e job =>
    refine hof _ ?_ ?_
    · rw [sketch_handOver]
      exact (congrArg Option.isSome (Function.update_of_ne (Nat.ne_of_lt h.lt) _ _)).trans hthere
    · rw [sketch_handOver]
      exact Nat.lt_succ_of_lt h.lt
  | abort ids =>
    refine hof (w.abort ids) ?_ h.lt
    rw [sketch_abort]
    dsimp only
    split
    · rw [Option.isSome_map]
      exact hthere
    · exact hthere
  | beginDraining =>
    simp only [World.perform]
    split <;> exact ⟨h.there, h.lt⟩
  | close _ | publish _ _ | signalStop _ | takeLoops | enterHook _ | endDraining =>
    exact ⟨h.there, h.lt⟩
  | _ => exact absurd trivial hneutral

/-- A process that runs is still there. -/
theorem Hosts.run (h : w.Hosts id) (jobProgram : ω → Process ω Unit) (program : Process ω γ) :
    (w.run jobProgram id program).1.Hosts id := by
  induction program generalizing w with
  | done _ => exact h
  | panic _ => exact h
  | call r next ih =>
    have hasked := h.perform jobProgram id r
    unfold World.run
    generalize w.perform jobProgram id r = outcome at hasked
    obtain ⟨w', reply⟩ := outcome
    cases reply with
    | answer reply => exact ih reply ⟨hasked.there, hasked.lt⟩
    | wait condition => exact hasked

/-- What is left of a process after its turn. -/
def Progress.left : Progress ω γ → Process ω γ
  | .ended (.ok result) => .done result
  | .ended (.error cause) => .panic cause
  | .blocked program _ => program

end World

/-! ## Turns are moves -/

namespace Service

variable {p : Pool α} {s : Service α} {id : FiberId}

/-- The moves of a service can bring about this world. -/
def Attains (p : Pool α) (s : Service α) (w : World (Job α) (Except PoolError Unit)) : Prop :=
  ∃ moves, (s.run p moves).world = w

/-- A service attains its own world. -/
theorem Attains.refl (s : Service α) : s.Attains p s.world := ⟨[], rfl⟩

/-- A service attains what one more turn of a process brings about. -/
theorem Attains.go {w w' : World (Job α) (Except PoolError Unit)} (h : s.Attains p w) (id : FiberId)
    (hgo : ∀ s' : Service α, s'.world = w → (s'.go id).world = w') : s.Attains p w' := by
  obtain ⟨moves, rfl⟩ := h
  exact ⟨moves ++ [.go id], (congrArg world (run_append s moves [.go id])).trans (hgo _ rfl)⟩

/-- Who is ready or parked may change, and time may pass. -/
theorem Attains.schedule {w : World (Job α) (Except PoolError Unit)} (h : s.Attains p w)
    (time : Tick) (ready : List FiberId) (parked : List (FiberId × Wait)) :
    s.Attains p { w with time := time, ready := ready, parked := parked } := by
  obtain ⟨moves, rfl⟩ := h
  exact ⟨moves ++ [.meanwhile { (s.run p moves).world with
    time := time, ready := ready, parked := parked }], congrArg world (run_append ..)⟩

/-- A process goes on until it ends or has to wait, request by request. -/
theorem Attains.run {w : World (Job α) (Except PoolError Unit)} {γ : Type}
    (wrap : Process (Job α) γ → Body (Job α) (Except PoolError Unit))
    (hwrap : ∀ r next, (wrap (.call r next)).request? = some ⟨r, fun reply => wrap (next reply)⟩)
    (program : Process (Job α) γ) (hid : w.Hosts id)
    (h : s.Attains p (w.resumed id (wrap program))) :
    s.Attains p ((w.run Job.work id program).1.resumed id
      (wrap (w.run Job.work id program).2.left)) := by
  induction program generalizing w with
  | done _ => exact h
  | panic _ => exact h
  | call r next ih =>
    have hasked := hid.perform Job.work id r
    unfold World.run
    cases hperform : w.perform Job.work id r with
    | mk w' reply =>
    rw [hperform] at hasked
    have hresumed := World.perform_resumed Job.work hid (wrap (.call r next)) hperform
    obtain ⟨f, hf, hbody⟩ := hid.get? (wrap (.call r next))
    cases reply with
    | wait condition =>
      refine h.go id fun s' hs' => ?_
      simp only [Service.go, hs', hf, hbody, hwrap, ask, hresumed]
      rfl
    | answer reply =>
      refine ih reply ⟨hasked.there, hasked.lt⟩ ?_
      have hnext : s.Attains p (w'.resumed id (wrap (next reply))) := by
        refine h.go id fun s' hs' => ?_
        simp only [Service.go, hs', hf, hbody, hwrap, ask, hresumed]
        exact World.resumed_resumed ..
      have hwake : w'.wake.resumed id (wrap (next reply)) =
          { w'.resumed id (wrap (next reply)) with
            ready := w'.wake.ready, parked := w'.wake.parked } := rfl
      rw [hwake]
      exact hnext.schedule _ _ _

/-- Processes are numbered one after the other in whatever world an accounted service attains. -/
theorem Attains.hosts {w : World (Job α) (Except PoolError Unit)} (hs : s.Accounted p)
    (h : s.Attains p w) {f : Fiber (Job α) (Except PoolError Unit)}
    (hf : w.fibers.get? id = some f) : w.Hosts id := by
  obtain ⟨moves, rfl⟩ := h
  have haccounted := run_induction hs (fun s m h => h.step m) moves
  refine ⟨by simp [OrderedMap.contains, hf], Nat.lt_of_not_le fun hle => ?_⟩
  have hgone := (haccounted.fresh id hle).2.2
  rw [fiber_of_standing (standing_of_fiber hf)] at hgone
  cases hgone

/-- A process that goes on until it has to wait is parked with what is left of it. -/
theorem Attains.park {w : World (Job α) (Except PoolError Unit)}
    {body : Body (Job α) (Except PoolError Unit)} (h : s.Attains p (w.resumed id body))
    (condition : Wait) : s.Attains p (w.park id body condition) :=
  h.schedule _ _ _

/-- A process that has nothing more to ask comes to its end, or a loop to its next round. -/
theorem Attains.comesToEnd {w w' : World (Job α) (Except PoolError Unit)}
    {body : Body (Job α) (Except PoolError Unit)} (hid : w.Hosts id) (hbody : body.request? = none)
    (h : s.Attains p (w.resumed id body))
    (hfinish : ∀ s' : Service α, s'.world = w.resumed id body → (s'.finish id body).world = w') :
    s.Attains p w' := by
  obtain ⟨f, hf, rfl⟩ := hid.get? body
  refine h.go id fun s' hs' => ?_
  simp only [Service.go, hs', hf, hbody]
  exact hfinish s' hs'

section Over

variable {w : World (Job α) (Except PoolError Unit)} (hid : w.Hosts id)

include hid

/-- A service attains the end of an operation, with its result kept. -/
theorem Attains.operation_over {outcome : Except Panic (Except PoolError Unit)}
    (h : s.Attains p (w.resumed id (.operation (World.Progress.left (.ended outcome))))) :
    s.Attains p ({ w with results := (id, outcome) :: w.results }.dismiss id) := by
  refine h.comesToEnd hid (by cases outcome <;> rfl) fun s' hs' => ?_
  have hgone := World.dismiss_resumed { w with results := (id, outcome) :: w.results } id
    (.operation (World.Progress.left (.ended outcome)))
  cases outcome <;>
  · unfold finish
    dsimp only
    rw [hs']
    exact hgone

/-- A service attains the end of a job, with its executor told. -/
theorem Attains.job_over {e : ExecutorId} {outcome : Except Panic Unit}
    (h : s.Attains p (w.resumed id (.job e (World.Progress.left (.ended outcome))))) :
    s.Attains p ((w.setExecutor e (w.executor e).finish).dismiss id) := by
  refine h.comesToEnd hid (by cases outcome <;> rfl) fun s' hs' => ?_
  unfold finish
  dsimp only
  rw [hs']
  exact World.dismiss_resumed (w.setExecutor e (w.executor e).finish) id _

/-- A service attains the end of a loop. -/
theorem Attains.loop_over {round left : Process (Job α) Bool}
    (hleft : left = .done false ∨ ∃ cause, left = .panic cause)
    (h : s.Attains p (w.resumed id (.loop round left))) : s.Attains p (w.dismiss id) := by
  obtain rfl | ⟨cause, rfl⟩ := hleft <;>
  · refine h.comesToEnd hid rfl fun s' hs' => ?_
    unfold finish
    dsimp only
    rw [hs']
    exact World.dismiss_resumed w id _

/-- A service attains the next round of a loop. -/
theorem Attains.round_over {round : Process (Job α) Bool}
    (h : s.Attains p (w.resumed id (.loop round (.done true)))) :
    s.Attains p (w.resumed id (.loop round round)) := by
  refine h.comesToEnd hid rfl fun s' hs' => ?_
  unfold finish
  dsimp only
  rw [hs']
  exact World.resumed_resumed ..

end Over

/-- A turn of a process is among the moves. -/
theorem Attains.turn {w : World (Job α) (Except PoolError Unit)} (hs : s.Accounted p)
    (h : s.Attains p w) (id : FiberId) : s.Attains p (w.turn Job.work id) := by
  unfold World.turn
  split
  · exact h
  next f hf =>
  split
  · next haborted =>
    obtain ⟨moves, rfl⟩ := h
    refine ⟨moves ++ [.drop id], (congrArg world (run_append s moves [.drop id])).trans ?_⟩
    simp only [Service.run, Service.step, Service.drop, hf, haborted, Bool.true_or, if_true]
  next haborted =>
  have hid := h.hosts hs hf
  rw [← World.resumed_self hf] at h
  obtain ⟨body, held, called⟩ := f
  cases body with
  | operation program =>
    have hrun := h.run .operation (fun _ _ => rfl) program hid
    have hthere := hid.run Job.work program
    dsimp only
    generalize w.run Job.work id program = outcome at hrun hthere
    obtain ⟨w', outcome | ⟨program, condition⟩⟩ := outcome
    · exact hrun.operation_over hthere
    · exact hrun.park condition
  | job e program =>
    have hrun := h.run (.job e) (fun _ _ => rfl) program hid
    have hthere := hid.run Job.work program
    dsimp only
    generalize w.run Job.work id program = outcome at hrun hthere
    obtain ⟨w', outcome | ⟨program, condition⟩⟩ := outcome
    · exact hrun.job_over hthere
    · exact hrun.park condition
  | loop round program =>
    have hrun := h.run (.loop round) (fun _ _ => rfl) program hid
    have hthere := hid.run Job.work program
    dsimp only
    generalize w.run Job.work id program = outcome at hrun hthere
    obtain ⟨w', (cause | more) | ⟨program, condition⟩⟩ := outcome
    · exact hrun.loop_over hthere (.inr ⟨cause, rfl⟩)
    · cases more with
      | true => exact (hrun.round_over hthere).schedule _ _ _
      | false => exact hrun.loop_over hthere (.inl rfl)
    · exact hrun.park condition

/-- A service attains what the scheduler comes to. -/
theorem Attains.settle {w : World (Job α) (Except PoolError Unit)} (hs : s.Accounted p)
    (h : s.Attains p w) (fuel : Nat) : s.Attains p (w.settle Job.work fuel) := by
  induction fuel generalizing w with
  | zero => exact h
  | succ fuel ih =>
    unfold World.settle
    split
    · exact h
    · next id rest hready => exact ih ((h.schedule w.time rest w.parked).turn hs id)

/-- A service attains what the scheduler comes to while it waits for an operation. -/
theorem Attains.settleThrough {w : World (Job α) (Except PoolError Unit)} (hs : s.Accounted p)
    (h : s.Attains p w) (turns : Nat) (operation : FiberId) (fuel : Nat) :
    s.Attains p (w.settleThrough Job.work turns operation fuel) := by
  induction fuel generalizing w with
  | zero => exact h
  | succ fuel ih =>
    have hsettled := h.settle hs turns
    unfold World.settleThrough
    dsimp only
    split
    · exact hsettled
    · split
      · exact hsettled
      · next t ht => exact ih (hsettled.schedule _ _ _)

/-- Wherever a scheduler comes to by letting the processes of a pool take turns and time pass, a
service comes to as well. -/
theorem Reached.settleThrough (h : s.Reached p) (turns : Nat) (operation : FiberId) (fuel : Nat) :
    ∃ s' : Service α, s'.Reached p ∧
      s'.world = s.world.settleThrough Job.work turns operation fuel := by
  obtain ⟨moves, hmoves⟩ := (Attains.refl s).settleThrough h.accounted turns operation fuel
  exact ⟨s.run p moves, h.run moves, hmoves⟩

end Service

end LeaseQueue
