import LeaseQueue.Proofs.ExecutorRequests

/-!
# Executors while processes take turns

A turn of a process is a run of it up to its end or up to where it has to wait; `World.Turned` lists
what it can come to.  A job that has come to its end, in whatever way, leaves its slot, and a
process that is called off leaves the queue in which it waited and frees the slot that it may have
been granted.  The accounts of the executors are right again after every turn
(`World.Managed.turn`).

A turn changes nothing for the other processes (`World.Moves`).
-/

set_option autoImplicit false

namespace LeaseQueue.World

variable {ω β γ : Type} {jobProgram : ω → Process ω Unit} {w w' : World ω β} {id : FiberId}
  {limits : List Nat} {seeks : FiberId → Option ExecutorId} {hand : Option ExecutorId}

/-! ## Processes that are gone, or wait -/

/-- The world without what an executor keeps for the job of a process. -/
def vacate (w : World ω β) : Body ω β → World ω β
  | .job e _ => w.setExecutor e (w.executor e).finish
  | _ => w

/-- A process gives up waiting for slots. -/
def withdraw (w : World ω β) (id : FiberId) : World ω β :=
  { w with executors := w.executors.map fun x => x.leave id }

/-- A process that is dropped abandons its transactions, gives up its wait for a slot and leaves its
own. -/
theorem bury_eq (w : World ω β) (id : FiberId) (f : Fiber ω β) :
    w.bury id f = (((f.held.foldl abandon w).withdraw id).vacate f.body).dismiss id := by
  unfold bury vacate withdraw
  cases f.body <;> rfl

/-- A process that goes has no body any more, and the others have theirs. -/
theorem bodies_dismiss (w : World ω β) (id k : FiberId) :
    (w.dismiss id).bodies.get? k = if k = id then none else w.bodies.get? k := by
  show ((w.fibers.erase id).mapValues Fiber.body).get? k = _
  rw [OrderedMap.get?_mapValues, OrderedMap.get?_erase]
  split
  · rfl
  · exact (OrderedMap.get?_mapValues ..).symm

/-- A process that is given another body has this one, and the others have theirs. -/
theorem bodies_setBody (w : World ω β) (id k : FiberId) (b : Body ω β) :
    (w.modifyFiber id fun f => { f with body := b }).bodies.get? k =
      if k = id then (w.bodies.get? k).map fun _ => b else w.bodies.get? k := by
  simp only [bodies, modifyFiber, OrderedMap.get?_mapValues, OrderedMap.get?_modify]
  split
  · rw [Option.map_map, Option.map_map]
    rfl
  · rfl

/-- Whoever has his body still seeks what he sought. -/
theorem seeks?_of_ne {w w' : World ω β} {id k : FiberId} (hne : k ≠ id)
    (h : ∀ k, k ≠ id → w'.bodies.get? k = w.bodies.get? k) : w'.seeks? k = w.seeks? k := by
  unfold World.seeks?
  rw [h k hne]

/-- When a job leaves its executor finishes one job, and the others are as they were. -/
theorem executor_vacate (w : World ω β) (b : Body ω β) (e : ExecutorId) :
    (w.vacate b).executor e =
      if b.executor? = some e ∧ e < w.executors.length then (w.executor e).finish
      else w.executor e := by
  cases b with
  | operation program => rw [if_neg fun hboth => nomatch hboth.1]; rfl
  | loop round program => rw [if_neg fun hboth => nomatch hboth.1]; rfl
  | job e' program =>
    refine (executor_setExecutor w e' e _).trans ?_
    by_cases heq : e = e'
    · subst heq
      by_cases he : e < w.executors.length
      · rw [if_pos ⟨rfl, he⟩, if_pos ⟨rfl, he⟩]
      · rw [if_neg fun hboth => he hboth.2, if_neg fun hboth => he hboth.2]
    · rw [if_neg fun hboth => heq hboth.1,
        if_neg fun hboth => heq (Option.some.inj hboth.1).symm]

/-- A process that is gone is one less if it ran a job. -/
theorem length_unfinished_dismiss {b : Body ω β} (hb : w.bodies.get? id = some b)
    (e : ExecutorId) : (w.unfinished e).length =
      ((w.dismiss id).unfinished e).length + if b.executor? = some e then 1 else 0 := by
  split
  · next hjob =>
    refine length_unfinished_succ id (fun hmem => ?_) fun k => ?_
    · obtain ⟨b', hb', -⟩ := mem_unfinished.1 hmem
      rw [bodies_dismiss, if_pos rfl] at hb'
      cases hb'
    · rw [mem_unfinished, mem_unfinished, bodies_dismiss]
      split
      · next heq => exact ⟨fun _ => .inl heq, fun _ => ⟨b, heq ▸ hb, hjob⟩⟩
      · next hne => exact ⟨.inr, fun hmem => hmem.resolve_left hne⟩
  · next hjob =>
    refine length_unfinished fun k => ?_
    rw [mem_unfinished, mem_unfinished, bodies_dismiss]
    split
    · next heq =>
      subst heq
      rw [hb]
      constructor
      · rintro ⟨b', hb', he⟩
        cases hb'
        exact absurd he hjob
      · rintro ⟨b', hb', -⟩
        cases hb'
    · exact .rfl

/-- A process that has come to its end leaves its slot, if it has one. -/
theorem Managed.gone (h : w.Managed limits (Function.update w.seeks? id none) none) {b : Body ω β}
    (hb : w.bodies.get? id = some b) :
    ((w.vacate b).dismiss id).Managed limits ((w.vacate b).dismiss id).seeks? none := by
  have hbodies : (w.vacate b).bodies = w.bodies := by cases b <;> rfl
  have hlength : (w.vacate b).executors.length = w.executors.length := by
    cases b with
    | job e program => exact List.length_set
    | _ => rfl
  have hrest : ∀ k, ((w.vacate b).dismiss id).bodies.get? k =
      if k = id then none else w.bodies.get? k := by
    intro k
    rw [bodies_dismiss, hbodies]
  refine {
    limited := ?_
    fresh := fun {k b'} hb' => ?_
    orderly := fun {k b'} hb' => ?_
    sound := fun {e} he => ?_
    active := fun {e} he => ?_
    queued := fun {e k} hk => ?_
    isOpen := nofun }
  · rw [← h.limited]
    cases b with
    | job e program => exact limits_setExecutor (Executor.limit_release _)
    | _ => rfl
  · rw [hrest] at hb'
    split at hb'
    · cases hb'
    · have hnext : ((w.vacate b).dismiss id).nextFiber = w.nextFiber := by cases b <;> rfl
      exact hnext ▸ h.fresh hb'
  · rw [hrest] at hb'
    split at hb'
    · cases hb'
    · exact h.orderly hb'
  · have hlt : e < w.executors.length := hlength ▸ he
    show ((w.vacate b).executor e).Sound _
    rw [executor_vacate]
    split
    · next hboth =>
      refine (h.sound hlt).finish ?_
      rw [h.active hlt]
      exact List.length_pos_of_mem (mem_unfinished.2 ⟨b, hb, hboth.1⟩)
    · exact h.sound hlt
  · have hlt : e < w.executors.length := hlength ▸ he
    have hcount := length_unfinished_dismiss hb e
    have hsame : ((w.vacate b).dismiss id).unfinished e = (w.dismiss id).unfinished e := by
      have heq : ((w.vacate b).dismiss id).bodies = (w.dismiss id).bodies := by cases b <;> rfl
      unfold World.unfinished
      rw [heq]
    have hactive := h.active hlt
    show ((w.vacate b).executor e).active = _
    rw [executor_vacate, hsame]
    split
    · next hboth =>
      rw [if_pos hboth.1] at hcount
      have hfinish : (w.executor e).finish.active = (w.executor e).active - 1 := rfl
      omega
    · next hnot =>
      rw [if_neg fun hjob => hnot ⟨hjob, hlt⟩] at hcount
      omega
  · have hold : k ∈ (w.executor e).queue := by
      have hk' : k ∈ ((w.vacate b).executor e).queue := hk
      rw [executor_vacate] at hk'
      split at hk'
      · exact (Executor.perm_queue_finish _).mem_iff.1 hk'
      · exact hk'
    have hseeks := h.queued hold
    by_cases hself : k = id
    · subst hself
      rw [Function.update_self] at hseeks
      cases hseeks
    · rw [Function.update_of_ne hself] at hseeks
      rw [seeks?_of_ne hself fun k hne => (hrest k).trans (if_neg hne)]
      exact hseeks

/-- A process waits for what it asks next. -/
theorem Managed.setBody {next : Option ExecutorId} {b b' : Body ω β}
    (h : w.Managed limits (Function.update w.seeks? id next) none)
    (hb : w.bodies.get? id = some b) (horderly : b'.Orderly)
    (hexecutor : b'.executor? = b.executor?) (hseeks : b'.seeks? = next) :
    (w.modifyFiber id fun f => { f with body := b' }).Managed limits
      (w.modifyFiber id fun f => { f with body := b' }).seeks? none := by
  generalize hw' : (w.modifyFiber id fun f => { f with body := b' }) = w'
  have hbodies : ∀ k, w'.bodies.get? k = if k = id then some b' else w.bodies.get? k := by
    intro k
    rw [← hw', bodies_setBody]
    split
    · next heq => rw [heq, hb]; rfl
    · rfl
  have hexecutors : w'.executors = w.executors := by rw [← hw']; rfl
  have hsame : ∀ e, w'.executor e = w.executor e := fun e => by rw [← hw']; rfl
  refine {
    limited := hexecutors ▸ h.limited
    fresh := fun {k b₁} hb₁ => ?_
    orderly := fun {k b₁} hb₁ => ?_
    sound := fun {e} he => ?_
    active := fun {e} he => ?_
    queued := fun {e k} hk => ?_
    isOpen := nofun }
  · have hnext : w'.nextFiber = w.nextFiber := by rw [← hw']; rfl
    rw [hnext]
    rw [hbodies] at hb₁
    split at hb₁
    · next heq => exact heq ▸ h.fresh hb
    · exact h.fresh hb₁
  · rw [hbodies] at hb₁
    split at hb₁
    · cases hb₁
      exact horderly
    · exact h.orderly hb₁
  · rw [hsame]
    exact h.sound (hexecutors ▸ he)
  · rw [hsame]
    refine (h.active (hexecutors ▸ he)).trans (length_unfinished fun k => ?_).symm
    rw [mem_unfinished, mem_unfinished, hbodies]
    split
    · next heq =>
      subst heq
      simp only [hb, Option.some.injEq, exists_eq_left', hexecutor]
    · exact .rfl
  · rw [hsame] at hk
    have hold := h.queued hk
    by_cases hself : k = id
    · subst hself
      rw [Function.update_self] at hold
      unfold World.seeks?
      rw [hbodies, if_pos rfl]
      exact hseeks.trans hold
    · rw [Function.update_of_ne hself] at hold
      rw [seeks?_of_ne hself fun k hne => (hbodies k).trans (if_neg hne)]
      exact hold

/-- Whoever gives up waits at no executor any more. -/
theorem executor_withdraw (w : World ω β) (id : FiberId) (e : ExecutorId) :
    (w.withdraw id).executor e = (w.executor e).leave id := by
  unfold executor withdraw
  rw [List.getElem?_map]
  cases w.executors[e]? <;> rfl

/-- Who gives up waiting is in no queue any more. -/
theorem Managed.withdraw (h : w.Managed limits w.seeks? none) :
    (w.withdraw id).Managed limits (Function.update (w.withdraw id).seeks? id none) none := by
  have hleft := fun e => (w.executor e).left_leave id
  refine {
    limited := ?_
    fresh := h.fresh
    orderly := h.orderly
    sound := fun {e} he => ?_
    active := fun {e} he => ?_
    queued := fun {e k} hk => ?_
    isOpen := nofun }
  · rw [← h.limited]
    show (w.executors.map fun x => x.leave id).map Executor.limit = _
    rw [List.map_map]
    exact congrArg (List.map · w.executors) (funext fun x => (x.left_leave id).limit)
  · rw [executor_withdraw]
    exact (hleft e).sound (h.sound (Nat.lt_of_lt_of_eq he (List.length_map _)))
  · rw [executor_withdraw, (hleft e).active]
    exact h.active (Nat.lt_of_lt_of_eq he (List.length_map _))
  · rw [executor_withdraw] at hk
    have hself : k ≠ id := fun heq => (hleft e).gone (h.nodup_queue e) (heq ▸ hk)
    rw [Function.update_of_ne hself]
    exact h.queued ((hleft e).queue k hk)

/-! ## Whole turns -/

/-- The results of a process. -/
def outcomes (w : World ω β) (k : FiberId) : List (Except Panic β) :=
  (w.results.filter fun r => r.1 == k).map Prod.snd

/-- A result is one of its process only. -/
theorem outcomes_cons (w : World ω β) (id k : FiberId) (outcome : Except Panic β) :
    ({ w with results := (id, outcome) :: w.results } : World ω β).outcomes k =
      if k = id then outcome :: w.outcomes k else w.outcomes k := by
  unfold outcomes
  split
  · next heq => simp [heq]
  · next hne => simp [Ne.symm hne]

/-- What a turn of a process, or its end, leaves as it was: the other processes and their results,
where the process has its slot if it stays, and what `World.Grows` says of those that come and of
executors that are closed. -/
structure Moves (jobProgram : ω → Process ω Unit) (id : FiberId) (w w' : World ω β) : Prop where
  length : w'.executors.length = w.executors.length
  closed : ∀ e, (w.executor e).closed = true → (w'.executor e).closed = true
  next_le : w.nextFiber ≤ w'.nextFiber
  kept : ∀ k < w.nextFiber, k ≠ id → w'.bodies.get? k = w.bodies.get? k
  own : ∀ b', w'.bodies.get? id = some b' →
    ∃ b, w.bodies.get? id = some b ∧ b'.executor? = b.executor? ∧ w'.outcomes id = w.outcomes id
  made : ∀ k b, w.nextFiber ≤ k → w'.bodies.get? k = some b →
    ∃ e job, b = .job e (jobProgram job) ∧ (w.executor e).closed = false
  outcomes : ∀ k, k ≠ id → w'.outcomes k = w.outcomes k

/-- A turn in which nothing happens is a move. -/
theorem Managed.moves_refl (h : w.Managed limits seeks hand) : w.Moves jobProgram id w :=
  have hgrows : w.Grows jobProgram w := .of_alike h (.refl w)
  ⟨rfl, hgrows.closed, hgrows.next_le, fun _ _ _ => rfl, fun b hb => ⟨b, hb, rfl, rfl⟩, hgrows.made,
    fun _ _ => rfl⟩

/-- After a turn the world changes for the process itself only. -/
theorem Grows.moves {w'' : World ω β} (h : w.Grows jobProgram w') (hid : id < w.nextFiber)
    (hlength : w''.executors.length = w'.executors.length)
    (hclosed : ∀ e, (w'.executor e).closed = true → (w''.executor e).closed = true)
    (hnext : w''.nextFiber = w'.nextFiber)
    (hbodies : ∀ k, k ≠ id → w''.bodies.get? k = w'.bodies.get? k)
    (hown : ∀ b', w''.bodies.get? id = some b' → ∃ b, w.bodies.get? id = some b ∧
      b'.executor? = b.executor? ∧ w''.outcomes id = w.outcomes id)
    (houtcomes : ∀ k, k ≠ id → w''.outcomes k = w'.outcomes k) : w.Moves jobProgram id w'' where
  length := hlength.trans h.length
  closed e hc := hclosed e (h.closed e hc)
  next_le := hnext ▸ h.next_le
  kept k hk hne := (hbodies k hne).trans (h.kept k hk)
  own := hown
  made k b hle hb := by
    have hne : k ≠ id := fun heq => absurd hid (Nat.not_lt.2 (heq ▸ hle))
    exact h.made k b hle ((hbodies k hne).symm.trans hb)
  outcomes k hne := by
    rw [houtcomes k hne]
    unfold World.outcomes
    rw [h.results]

/-- A process that is gone does not come back. -/
theorem Moves.gone (h : w.Moves jobProgram id w') {k : FiberId} (hk : k < w.nextFiber)
    (hgone : w.bodies.get? k = none) : w'.bodies.get? k = none := by
  by_cases hself : k = id
  · subst hself
    cases hb : w'.bodies.get? k with
    | none => rfl
    | some b' =>
      obtain ⟨b, hb, -⟩ := h.own b' hb
      rw [hgone] at hb
      cases hb
  · exact (h.kept k hk hself).trans hgone

/-- A closed executor gets no job. -/
theorem Moves.unfinished (h : w.Moves jobProgram id w') {e : ExecutorId}
    (hclosed : (w.executor e).closed = true) {k : FiberId} (hk : k ∈ w'.unfinished e) :
    k ∈ w.unfinished e := by
  obtain ⟨b', hb', hjob⟩ := mem_unfinished.1 hk
  by_cases hself : k = id
  · subst hself
    obtain ⟨b, hb, hsame, -⟩ := h.own b' hb'
    exact mem_unfinished.2 ⟨b, hb, hsame.symm.trans hjob⟩
  by_cases hlt : k < w.nextFiber
  · exact mem_unfinished.2 ⟨b', (h.kept k hlt hself).symm.trans hb', hjob⟩
  · obtain ⟨e', job, rfl, hopen⟩ := h.made k b' (Nat.not_lt.1 hlt) hb'
    obtain rfl : e' = e := Option.some.inj hjob
    exact absurd (hclosed.symm.trans hopen) nofun

/-- What a turn of a process comes to. -/
inductive Turned (jobProgram : ω → Process ω Unit) (w : World ω β) (id : FiberId) :
    World ω β → Prop
  | absent (hf : w.fibers.get? id = none) : Turned jobProgram w id w
  | buried {f : Fiber ω β} (hf : w.fibers.get? id = some f) (haborted : f.aborted = true) :
    Turned jobProgram w id (w.bury id f)
  | answered {program : Process ω β} {held : List Handle} {w' : World ω β}
    {outcome : Except Panic β} (hf : w.fibers.get? id = some ⟨.operation program, held, false⟩)
    (hrun : w.run jobProgram id program = (w', .ended outcome)) :
    Turned jobProgram w id ({ w' with results := (id, outcome) :: w'.results }.dismiss id)
  | worked {e : ExecutorId} {program : Process ω Unit} {held : List Handle} {w' : World ω β}
    {outcome : Except Panic Unit} (hf : w.fibers.get? id = some ⟨.job e program, held, false⟩)
    (hrun : w.run jobProgram id program = (w', .ended outcome)) :
    Turned jobProgram w id ((w'.setExecutor e (w'.executor e).finish).dismiss id)
  | again {round program : Process ω Bool} {held : List Handle} {w' : World ω β}
    (hf : w.fibers.get? id = some ⟨.loop round program, held, false⟩)
    (hrun : w.run jobProgram id program = (w', .ended (.ok true))) :
    Turned jobProgram w id { w'.modifyFiber id fun f => { f with body := .loop round round } with
      ready := id :: w'.ready }
  | loopEnds {round program : Process ω Bool} {held : List Handle} {w' : World ω β}
    {outcome : Except Panic Bool} (hf : w.fibers.get? id = some ⟨.loop round program, held, false⟩)
    (hrun : w.run jobProgram id program = (w', .ended outcome)) :
    Turned jobProgram w id (w'.dismiss id)
  | operationWaits {program left : Process ω β} {held : List Handle} {w' : World ω β}
    {condition : Wait} (hf : w.fibers.get? id = some ⟨.operation program, held, false⟩)
    (hrun : w.run jobProgram id program = (w', .blocked left condition)) :
    Turned jobProgram w id (w'.park id (.operation left) condition)
  | jobWaits {e : ExecutorId} {program left : Process ω Unit} {held : List Handle}
    {w' : World ω β} {condition : Wait}
    (hf : w.fibers.get? id = some ⟨.job e program, held, false⟩)
    (hrun : w.run jobProgram id program = (w', .blocked left condition)) :
    Turned jobProgram w id (w'.park id (.job e left) condition)
  | loopWaits {round program left : Process ω Bool} {held : List Handle} {w' : World ω β}
    {condition : Wait} (hf : w.fibers.get? id = some ⟨.loop round program, held, false⟩)
    (hrun : w.run jobProgram id program = (w', .blocked left condition)) :
    Turned jobProgram w id (w'.park id (.loop round left) condition)

/-- A turn is what the rules for turns say. -/
theorem turned_turn (jobProgram : ω → Process ω Unit) (w : World ω β) (id : FiberId) :
    Turned jobProgram w id (w.turn jobProgram id) := by
  unfold turn
  split
  · next hf => exact .absent hf
  · next f hf =>
    obtain ⟨body, held, aborted⟩ := f
    cases aborted with
    | true => exact .buried hf rfl
    | false =>
      cases body with
      | operation program =>
        simp only [Bool.false_eq_true, if_false]
        split
        · next w' outcome hrun => exact .answered hf hrun
        · next w' left condition hrun => exact .operationWaits hf hrun
      | job e program =>
        simp only [Bool.false_eq_true, if_false]
        split
        · next w' outcome hrun => exact .worked hf hrun
        · next w' left condition hrun => exact .jobWaits hf hrun
      | loop round program =>
        simp only [Bool.false_eq_true, if_false]
        split
        · next w' hrun => exact .again hf hrun
        · next w' outcome _ hrun => exact .loopEnds hf hrun
        · next w' left condition hrun => exact .loopWaits hf hrun

/-- What the turn of an operation comes to. -/
inductive OperationTurned (jobProgram : ω → Process ω Unit) (w : World ω β) (id : FiberId)
    (program : Process ω β) : World ω β → Prop
  | buried {f : Fiber ω β} (hf : w.fibers.get? id = some f) (haborted : f.aborted = true) :
    OperationTurned jobProgram w id program (w.bury id f)
  | answered {w' : World ω β} {outcome : Except Panic β}
    (hrun : w.run jobProgram id program = (w', .ended outcome)) :
    OperationTurned jobProgram w id program
      ({ w' with results := (id, outcome) :: w'.results }.dismiss id)
  | waits {w' : World ω β} {left : Process ω β} {condition : Wait}
    (hrun : w.run jobProgram id program = (w', .blocked left condition)) :
    OperationTurned jobProgram w id program (w'.park id (.operation left) condition)

/-- The turn of an operation is what the rules for these say. -/
theorem operationTurned_turn {program : Process ω β}
    (hb : w.bodies.get? id = some (.operation program)) :
    OperationTurned jobProgram w id program (w.turn jobProgram id) := by
  have hbody : ∀ {f : Fiber ω β}, w.fibers.get? id = some f → f.body = .operation program := by
    intro f hf
    unfold bodies at hb
    rw [OrderedMap.get?_mapValues, hf] at hb
    exact Option.some.inj hb
  have hturned := w.turned_turn jobProgram id
  generalize w.turn jobProgram id = w'' at hturned
  cases hturned with
  | absent hf =>
    unfold bodies at hb
    rw [OrderedMap.get?_mapValues, hf] at hb
    cases hb
  | buried hf haborted => exact .buried hf haborted
  | answered hf hrun => cases hbody hf; exact .answered hrun
  | operationWaits hf hrun => cases hbody hf; exact .waits hrun
  | worked hf _ => cases hbody hf
  | again hf _ => cases hbody hf
  | loopEnds hf _ => cases hbody hf
  | jobWaits hf _ => cases hbody hf
  | loopWaits hf _ => cases hbody hf

/-- A process whose turn it is, asks what is left of it. -/
theorem Managed.asking (h : w.Managed limits w.seeks? none) {b : Body ω β}
    (hb : w.bodies.get? id = some b) {next : Option ExecutorId} (hnext : b.seeks? = next) :
    w.Managed limits (Function.update w.seeks? id next) none := by
  have hsame : w.seeks? id = next := by
    unfold World.seeks?
    rw [hb]
    exact hnext
  rw [← hsame, Function.update_eq_self]
  exact h

/-- A process that is there has its body. -/
theorem get?_bodies {f : Fiber ω β} (hf : w.fibers.get? id = some f) :
    w.bodies.get? id = some f.body := by
  unfold bodies
  rw [OrderedMap.get?_mapValues, hf]
  rfl

/-- A process is gone, with the results of others as they were. -/
theorem Managed.leaves {b : Body ω β} {results : List (FiberId × Except Panic β)}
    (hmanaged : w'.Managed limits (Function.update w'.seeks? id none) none)
    (hgrows : w.Grows jobProgram w') (hid : id < w.nextFiber) (hb : w.bodies.get? id = some b)
    (hresults : ∀ k, k ≠ id →
      ({ w' with results := results } : World ω β).outcomes k = w'.outcomes k) :
    let w'' := (({ w' with results := results } : World ω β).vacate b).dismiss id
    w''.Managed limits w''.seeks? none ∧ w.Moves jobProgram id w'' := by
  have hb' : w'.bodies.get? id = some b := (hgrows.kept id hid).trans hb
  have hrenamed : ({ w' with results := results } : World ω β).Managed limits
      (Function.update w'.seeks? id none) none := { hmanaged with }
  refine ⟨hrenamed.gone hb', hgrows.moves hid ?_ (fun e hc => ?_) ?_ (fun k hne => ?_)
    (fun b' hb' => ?_) ?_⟩
  · cases b with
    | job e program => exact List.length_set
    | _ => rfl
  · show ((({ w' with results := results } : World ω β).vacate b).executor e).closed = true
    rw [executor_vacate]
    split
    · exact (Executor.closed_release _).trans hc
    · exact hc
  · cases b <;> rfl
  · rw [bodies_dismiss, if_neg hne]
    cases b <;> rfl
  · rw [bodies_dismiss, if_pos rfl] at hb'
    cases hb'
  · intro k hne
    refine Eq.trans ?_ (hresults k hne)
    cases b <;> rfl

/-- A process that has come to its end in its turn is gone. -/
theorem Managed.ended {p : Process ω γ} {b : Body ω β} {outcome : Except Panic γ}
    {results : List (FiberId × Except Panic β)} (h : w.Managed limits w.seeks? none)
    (hjobs : ∀ job, (jobProgram job).Orderly) (hb : w.bodies.get? id = some b)
    (hseeks : b.seeks? = p.seeks?) (hp : p.Orderly)
    (hrun : w.run jobProgram id p = (w', .ended outcome))
    (hresults : ∀ k, k ≠ id →
      ({ w' with results := results } : World ω β).outcomes k = w'.outcomes k) :
    let w'' := (({ w' with results := results } : World ω β).vacate b).dismiss id
    w''.Managed limits w''.seeks? none ∧ w.Moves jobProgram id w'' := by
  have hrested := (h.asking hb hseeks).run hjobs hp
  rw [hrun] at hrested
  exact hrested.1.leaves hrested.2 (h.fresh hb) hb hresults

/-- To abandon several transactions changes nothing here. -/
theorem alike_foldl_abandon (held : List Handle) (w : World ω β) :
    w.Alike (held.foldl abandon w) := by
  induction held generalizing w with
  | nil => exact .refl w
  | cons tx rest ih => exact (w.alike_abandon tx).trans (ih _)

/-- A process that is called off is gone, and has no result. -/
theorem Managed.bury (h : w.Managed limits w.seeks? none) {f : Fiber ω β}
    (hf : w.fibers.get? id = some f) :
    (w.bury id f).Managed limits (w.bury id f).seeks? none ∧
      w.Moves jobProgram id (w.bury id f) := by
  have halike := alike_foldl_abandon f.held w
  have hb := get?_bodies hf
  rw [bury_eq]
  generalize f.held.foldl abandon w = w₁ at halike
  have h₁ : w₁.Managed limits w₁.seeks? none := halike.seeks? ▸ h.of_alike halike
  have hgrows : w.Grows jobProgram (w₁.withdraw id) := Grows.trans (.of_alike h halike)
    { length := List.length_map _
      closed := fun e hc => by
        rw [executor_withdraw]
        exact ((w₁.executor e).left_leave id).closed.trans hc
      next_le := Nat.le_refl _
      kept := fun _ _ => rfl
      made := fun k b hle hb => absurd (h₁.fresh hb) (Nat.not_lt.2 hle)
      results := rfl }
  exact h₁.withdraw.leaves hgrows (h.fresh hb) hb fun _ _ => rfl

/-- A process that does not come to its end in its turn stays, with something else left to do. -/
theorem Managed.stays (b' : Body ω β) {b : Body ω β} {w'' : World ω β}
    (hmanaged : w'.Managed limits (Function.update w'.seeks? id b'.seeks?) none)
    (hgrows : w.Grows jobProgram w') (hid : id < w.nextFiber) (hb : w.bodies.get? id = some b)
    (horderly : b'.Orderly) (hexecutor : b'.executor? = b.executor?)
    (halike : (w'.modifyFiber id fun f => { f with body := b' }).Alike w'') :
    w''.Managed limits w''.seeks? none ∧ w.Moves jobProgram id w'' := by
  have hb' : w'.bodies.get? id = some b := (hgrows.kept id hid).trans hb
  have hset := hmanaged.setBody hb' horderly hexecutor rfl
  refine ⟨halike.seeks? ▸ hset.of_alike halike, hgrows.moves hid
    (congrArg List.length halike.executors) (fun e hc => ?_) halike.nextFiber (fun k hne => ?_)
    (fun b₁ hb₁ => ⟨b, hb, ?_, ?_⟩) fun k _ => ?_⟩
  · exact (congrArg Executor.closed (halike.executor e)).trans hc
  · rw [halike.bodies, bodies_setBody, if_neg hne]
  · rw [halike.bodies, bodies_setBody, if_pos rfl, hb'] at hb₁
    cases hb₁
    exact hexecutor
  · unfold World.outcomes
    rw [halike.results, ← hgrows.results]
    rfl
  · unfold World.outcomes
    rw [halike.results]
    rfl

/-- The accounts are right again after every turn. -/
theorem Managed.turn (hjobs : ∀ job, (jobProgram job).Orderly)
    (h : w.Managed limits w.seeks? none) (id : FiberId) :
    (w.turn jobProgram id).Managed limits (w.turn jobProgram id).seeks? none ∧
      w.Moves jobProgram id (w.turn jobProgram id) := by
  have hturned := w.turned_turn jobProgram id
  generalize w.turn jobProgram id = w'' at hturned
  cases hturned with
  | absent hf => exact ⟨h, h.moves_refl⟩
  | buried hf haborted => exact h.bury hf
  | @answered program held w' outcome hf hrun =>
    have hb := get?_bodies hf
    refine h.ended hjobs hb rfl (h.orderly hb) hrun fun k hne => ?_
    rw [outcomes_cons, if_neg hne]
  | worked hf hrun =>
    have hb := get?_bodies hf
    exact h.ended hjobs hb rfl (h.orderly hb) hrun fun _ _ => rfl
  | loopEnds hf hrun =>
    have hb := get?_bodies hf
    exact h.ended hjobs hb rfl (h.orderly hb).2 hrun fun _ _ => rfl
  | @again round program held w' hf hrun =>
    have hb := get?_bodies hf
    have hround : round.Orderly := (h.orderly hb).1
    have hrested := (h.asking hb rfl).run hjobs (h.orderly hb).2
    rw [hrun] at hrested
    exact Managed.stays (.loop round round) (hrested.1.forget _) hrested.2 (h.fresh hb) hb
      ⟨hround, hround⟩ rfl ⟨rfl, rfl, rfl, rfl⟩
  | @operationWaits program left held w' condition hf hrun =>
    have hb := get?_bodies hf
    have hrested := (h.asking hb rfl).run hjobs (h.orderly hb)
    rw [hrun] at hrested
    obtain ⟨hmanaged, hgrows, hleft⟩ := hrested
    exact Managed.stays (.operation left) hmanaged hgrows (h.fresh hb) hb hleft rfl
      ⟨rfl, rfl, rfl, rfl⟩
  | @jobWaits e program left held w' condition hf hrun =>
    have hb := get?_bodies hf
    have hrested := (h.asking hb rfl).run hjobs (h.orderly hb)
    rw [hrun] at hrested
    obtain ⟨hmanaged, hgrows, hleft⟩ := hrested
    exact Managed.stays (.job e left) hmanaged hgrows (h.fresh hb) hb hleft rfl
      ⟨rfl, rfl, rfl, rfl⟩
  | @loopWaits round program left held w' condition hf hrun =>
    have hb := get?_bodies hf
    have hrested := (h.asking hb rfl).run hjobs (h.orderly hb).2
    rw [hrun] at hrested
    obtain ⟨hmanaged, hgrows, hleft⟩ := hrested
    exact Managed.stays (.loop round left) hmanaged hgrows (h.fresh hb) hb
      ⟨(h.orderly hb).1, hleft⟩ rfl ⟨rfl, rfl, rfl, rfl⟩

end LeaseQueue.World
