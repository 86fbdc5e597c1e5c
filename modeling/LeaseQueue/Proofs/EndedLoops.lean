import LeaseQueue.Proofs.LoopPlacement

/-!
# Loops that have ended and jobs that are done

What a loop has said last about what it is doing is what its entry says (`Recorded.spoken`), so the
entry of a loop that has ended by itself says that it is stopped, and nobody else changes it.  The
number of unfinished jobs of an executor is the number of processes that work on them
(`Recorded.counted`).

These are the facts on single loops and jobs that the end of a shutdown rests on.
-/

set_option autoImplicit false

namespace LeaseQueue

variable {α : Type}

open Process

/-- No observer of the pool's loops panics. -/
def Pool.Calm (p : Pool α) : Prop :=
  ∀ l shard location event, (p.wiring.loopListener l shard location event).panic = none

/-- The loops of a pool with calm observers are calm. -/
theorem Duty.From.calm {p : Pool α} (hcalm : p.Calm) {start : Nat} {l : PollLoop α}
    (h : (Duty.loop start l).From p) : l.Calm := by
  obtain ⟨pair, -, hfor⟩ := h
  intro event
  have hlistener : l.listener = p.wiring.loopListener pair.1 := hfor.listener
  rw [hlistener]
  exact hcalm ..

namespace Outline

variable {p : Pool α} {o o' : Outline α}

/-- What the entry of a loop says that it is doing. -/
def stateOf (o : Outline α) (i : LoopId) : Option LoopState := (o.loops[i]?).map LoopEntry.state

/-- A process is there that works on a job of an executor. -/
def WorksOn (o : Outline α) (e : ExecutorId) (k : FiberId) : Prop :=
  (∃ job, o.duty k = some (.work e job)) ∧ o.fiber k ≠ none

/-- An executor has nothing left to do. -/
def Idle (o : Outline α) (e : ExecutorId) : Prop :=
  (o.active e).getD 0 = 0 ∧ ∀ k, ¬ o.WorksOn e k

/-- The entries of loops say what the loops have said last. -/
def Spoken (o : Outline α) : Prop :=
  ∀ {k start l state}, o.duty k = some (.loop start l) →
    (o.said k).getLast? = some ⟨.publish l.id state, ()⟩ → o.stateOf l.id = some state

/-- An executor has as many unfinished jobs as there are processes that work on them. -/
def Counted (o : Outline α) : Prop :=
  ∀ e a, o.active e = some a →
    ∃ ids : List FiberId, ids.Nodup ∧ ids.length = a ∧ ∀ k, k ∈ ids ↔ o.WorksOn e k

/-- Entries and executors tell what their loops and jobs do. -/
structure Recorded (o : Outline α) : Prop where
  spoken : o.Spoken
  counted : o.Counted
  hired : ∀ {k e job}, o.duty k = some (.work e job) → 1 ≤ o.starts

/-- Who works on jobs of an executor is told from the duties and from who is there. -/
theorem worksOn_of_same {e : ExecutorId} {k : FiberId}
    (hduty : ∀ {job}, o'.duty k = some (.work e job) ↔ o.duty k = some (.work e job))
    (hfiber : ∀ {job}, o.duty k = some (.work e job) → (o'.fiber k = none ↔ o.fiber k = none)) :
    o'.WorksOn e k ↔ o.WorksOn e k := by
  constructor
  · rintro ⟨⟨job, hjob⟩, hthere⟩
    exact ⟨⟨job, hduty.1 hjob⟩, fun hnone => hthere ((hfiber (hduty.1 hjob)).2 hnone)⟩
  · rintro ⟨⟨job, hjob⟩, hthere⟩
    exact ⟨⟨job, hduty.2 hjob⟩, fun hnone => hthere ((hfiber hjob).1 hnone)⟩

/-- An executor whose number is zero has nothing left to do. -/
theorem Recorded.idle (h : Recorded o) {e : ExecutorId} (hactive : o.active e = some 0) :
    o.Idle e := by
  obtain ⟨ids, -, hlength, hids⟩ := h.counted e 0 hactive
  refine ⟨by rw [hactive]; rfl, fun k hk => ?_⟩
  obtain rfl := List.length_eq_zero_iff.1 hlength
  exact absurd ((hids k).2 hk) List.not_mem_nil

/-! ## What changes do to entries -/

/-- What a loop says of itself leaves the states of the others as they are. -/
theorem stateOf_published {loop i : LoopId} {state : LoopState} (hne : i ≠ loop) :
    (o.published loop state).stateOf i = o.stateOf i := by
  unfold stateOf published
  dsimp only
  rw [List.getElem?_modify]
  simp [Ne.symm hne]

/-- What a loop says of itself is its state then. -/
theorem stateOf_published_self {loop : LoopId} {state : LoopState}
    (hthere : o.placeOf loop ≠ none) : (o.published loop state).stateOf loop = some state := by
  unfold placeOf at hthere
  unfold stateOf published
  dsimp only
  rw [List.getElem?_modify_eq]
  cases he : o.loops[loop]? with
  | none => simp [he] at hthere
  | some entry => rfl

/-- A start leaves the entries of earlier loops as they are. -/
theorem stateOf_started {planned : List (PlannedLoop α)} {i : LoopId} (hthere : o.placeOf i ≠ none) :
    (o.started planned).stateOf i = o.stateOf i := by
  have hlt : i < o.loops.length := by
    by_contra hge
    have hnone : o.loops[i]? = none := List.getElem?_eq_none_iff.2 (Nat.le_of_not_lt hge)
    simp [placeOf, hnone] at hthere
  exact congrArg (Option.map LoopEntry.state) (List.getElem?_append_left hlt)

/-- The entry of a loop that is gone stays. -/
theorem Change.stateOf_of_gone (hplaced : Placed p o) (h : o.Change p o') {k : FiberId}
    {start : Nat} {l : PollLoop α} (hduty : o.duty k = some (.loop start l))
    (hgone : o.fiber k = none) : o'.stateOf l.id = o.stateOf l.id := by
  cases h with
  | start hstatus hopen hplan =>
    exact stateOf_started (by rw [hplaced.entry hduty]; exact Option.some_ne_none _)
  | @publish id start' l' called state hfiber hduty' =>
    refine stateOf_published fun hid => ?_
    obtain rfl := hplaced.distinct hduty hduty' hid
    cases hgone.symm.trans hfiber
  | @stop id called x hfiber hduty' hgoes htells =>
    have hspared := spared_of_goes o id hgoes
    simp only [stateOf, heard, hspared.loops]
  | _ => rfl

/-- A process that comes takes no other one's place. -/
theorem fiber_of_spawned {k : FiberId}
    (h : Function.update o.fiber o.nextFiber (some false) k = none) :
    o.fiber k = none := by
  rw [Function.update_apply] at h
  split at h
  · cases h
  · exact h

/-- Only the process that goes is gone. -/
theorem eq_of_without {id k : FiberId} {called : Bool} (hthere : o.fiber k = some called)
    (hgone : (o.without id).fiber k = none) : k = id := by
  by_contra hne
  change Function.update o.fiber id none k = none at hgone
  rw [Function.update_of_ne hne, hthere] at hgone
  cases hgone

/-- A loop that ends without having been called off leaves an entry that says so. -/
theorem Change.stopped_of_gone (hcalm : p.Calm) (hfresh : o.Fresh) (hplaced : Placed p o)
    (hrecorded : Recorded o) (h : o.Change p o') {k : FiberId} {start : Nat} {l : PollLoop α}
    (hduty : o.duty k = some (.loop start l)) (hthere : o.fiber k = some false)
    (hgone : o'.fiber k = none) : o'.stateOf l.id = some .stopped := by
  cases h with
  | @endLoop id start' l' called hfiber hduty' hend =>
    obtain rfl := eq_of_without hthere hgone
    cases hduty.symm.trans hduty'
    rcases hend with hlast | ⟨cause, hpanic⟩
    · have hsaid := l.returns_round_false hlast
      exact hrecorded.spoken hduty (by rw [hsaid]; rfl)
    · have hround := l.round_neverPanics (Duty.From.calm hcalm (hplaced.source hduty))
      exact absurd hpanic hround.not_runs
  | @dropLoop id start' l' hfiber hduty' =>
    obtain rfl := eq_of_without hthere hgone
    cases hthere.symm.trans hfiber
  | @endWork id e job called hfiber hduty' =>
    obtain rfl := eq_of_without (o := o.counted e (· - 1)) hthere hgone
    cases hduty.symm.trans hduty'
  | @endShutdown id called hfiber hduty' =>
    obtain rfl := eq_of_without hthere hgone
    cases hduty.symm.trans hduty'
  | start hstatus hopen hplan =>
    have hsame : o.fiber k = none := (if_pos (hfresh.lt hthere)).symm.trans hgone
    cases hthere.symm.trans hsame
  | call => cases hthere.symm.trans (fiber_of_spawned hgone)
  | handOver record hfiber hduty' hboundary => cases hthere.symm.trans (fiber_of_spawned hgone)
  | stop x hfiber hduty' hgoes htells =>
    cases hthere.symm.trans ((fiber_after_eq_none hgoes).1 hgone)
  | _ => cases hthere.symm.trans hgone

/-- A process that is gone does not come back. -/
theorem Change.fiber_of_gone (hfresh : o.Fresh) (h : o.Change p o') {k : FiberId} {duty : Duty α}
    (hduty : o.duty k = some duty) (hgone : o.fiber k = none) : o'.fiber k = none := by
  have hk := hfresh.lt_of_duty hduty
  have hwithout : ∀ id, (o.without id).fiber k = none := by
    intro id
    change Function.update o.fiber id none k = none
    rw [Function.update_apply, hgone, ite_self]
  have hspawned : Function.update o.fiber o.nextFiber (some false) k = none :=
    (Function.update_of_ne (Nat.ne_of_lt hk) _ _).trans hgone
  cases h with
  | start hstatus hopen hplan => exact (if_pos hk).trans hgone
  | call => exact hspawned
  | handOver record hfiber hduty' hboundary => exact hspawned
  | stop x hfiber hduty' hgoes htells => exact (fiber_after_eq_none hgoes).2 hgone
  | endLoop hfiber hduty' hend => exact hwithout _
  | dropLoop hfiber hduty' => exact hwithout _
  | endWork hfiber hduty' => exact hwithout _
  | endShutdown hfiber hduty' => exact hwithout _
  | _ => exact hgone

/-! ## What changes do to executors -/

/-- Who works for an executor after a process without a job has come, gone or been called off. -/
theorem worksOn_added {e : ExecutorId} {duty : Duty α} (hfresh : o.Fresh)
    (hduty : ∀ job, duty ≠ .work e job) (k : FiberId) :
    (o.added duty).WorksOn e k ↔ o.WorksOn e k := by
  by_cases hk : k = o.nextFiber
  · subst hk
    have hnew : (o.added duty).duty o.nextFiber = some duty := Function.update_self ..
    constructor
    · rintro ⟨⟨job, hjob⟩, -⟩
      exact absurd (Option.some.inj (hnew.symm.trans hjob)) (hduty job)
    · rintro ⟨⟨job, hjob⟩, -⟩
      exact absurd (hfresh.lt_of_duty hjob) (Nat.lt_irrefl _)
  · have hsame : (o.added duty).duty k = o.duty k := Function.update_of_ne hk _ _
    have hfiber : (o.added duty).fiber k = o.fiber k := Function.update_of_ne hk _ _
    unfold WorksOn
    rw [hsame, hfiber]

/-- A start leaves the work on jobs as it is. -/
theorem worksOn_started {e : ExecutorId} {planned : List (PlannedLoop α)} (hfresh : o.Fresh)
    (k : FiberId) : (o.started planned).WorksOn e k ↔ o.WorksOn e k := by
  constructor
  · rintro ⟨⟨job, hjob⟩, hthere⟩
    rcases duty_started hjob with ⟨hduty, hk⟩ | ⟨-, l, -, hloop⟩
    · exact ⟨⟨job, hduty⟩, fun hnone => hthere ((if_pos hk).trans hnone)⟩
    · cases hloop
  · rintro ⟨⟨job, hjob⟩, hthere⟩
    have hk := hfresh.lt_of_duty hjob
    exact ⟨⟨job, (if_pos hk).trans hjob⟩, fun hnone => hthere ((if_pos hk).symm.trans hnone)⟩

/-- When a process goes its work on jobs is over, and the others go on with theirs. -/
theorem worksOn_without {e : ExecutorId} {id k : FiberId} :
    (o.without id).WorksOn e k ↔ o.WorksOn e k ∧ k ≠ id := by
  unfold WorksOn
  change (∃ job, o.duty k = _) ∧ Function.update o.fiber id none k ≠ none ↔ _
  by_cases hk : k = id
  · subst hk
    simp
  · rw [Function.update_of_ne hk]
    simp [hk]

/-- The count of jobs is right as long as neither it nor the work changes. -/
theorem counted_of_same (h : o.Counted) (hactive : o'.active = o.active)
    (hworks : ∀ e k, o'.WorksOn e k ↔ o.WorksOn e k) : o'.Counted := by
  intro e a ha
  obtain ⟨ids, hnodup, hlength, hids⟩ := h e a (hactive ▸ ha)
  exact ⟨ids, hnodup, hlength, fun k => (hids k).trans (hworks e k).symm⟩

/-- A job that is handed over counts. -/
theorem counted_handedOver (h : o.Counted) (hfresh : o.Fresh) (e : ExecutorId) (job : Job α) :
    (o.handedOver e job).Counted := by
  have hlater : (o.counted e (· + 1)).Fresh := fun k hk => hfresh k hk
  intro e' a ha
  change Function.update o.active e ((o.active e).map (· + 1)) e' = some a at ha
  by_cases he : e' = e
  · subst he
    rw [Function.update_self] at ha
    obtain ⟨b, hb, rfl⟩ := Option.map_eq_some_iff.1 ha
    obtain ⟨ids, hnodup, hlength, hids⟩ := h e' b hb
    have hnew : o.nextFiber ∉ ids := by
      intro hmem
      obtain ⟨⟨_, hduty⟩, -⟩ := (hids _).1 hmem
      exact Nat.lt_irrefl _ (hfresh.lt_of_duty hduty)
    refine ⟨o.nextFiber :: ids, List.nodup_cons.2 ⟨hnew, hnodup⟩, by simp [hlength], fun k => ?_⟩
    rw [List.mem_cons, hids]
    by_cases hk : k = o.nextFiber
    · subst hk
      have hduty : (o.handedOver e' job).duty o.nextFiber = some (.work e' job) :=
        Function.update_self ..
      have hfiber : (o.handedOver e' job).fiber o.nextFiber = some false := Function.update_self ..
      simp only [true_or, true_iff]
      exact ⟨⟨job, hduty⟩, by simp [hfiber]⟩
    · have hduty : (o.handedOver e' job).duty k = o.duty k := Function.update_of_ne hk _ _
      have hfiber : (o.handedOver e' job).fiber k = o.fiber k := Function.update_of_ne hk _ _
      simp [WorksOn, hk, hduty, hfiber]
  · rw [Function.update_of_ne he] at ha
    obtain ⟨ids, hnodup, hlength, hids⟩ := h e' a ha
    refine ⟨ids, hnodup, hlength, fun k => (hids k).trans ?_⟩
    refine (worksOn_added (o := o.counted e (· + 1)) hlater (fun other hwork => ?_) k).symm
    cases hwork
    exact he rfl

/-- A job that is done counts no more. -/
theorem counted_endWork (h : o.Counted) {id : FiberId} {e : ExecutorId} {job : Job α}
    {called : Bool} (hfiber : o.fiber id = some called) (hduty : o.duty id = some (.work e job)) :
    ((o.counted e (· - 1)).without id).Counted := by
  have hworks : ∀ e' k, ((o.counted e (· - 1)).without id).WorksOn e' k ↔
      o.WorksOn e' k ∧ k ≠ id := fun e' k => worksOn_without (o := o.counted e (· - 1))
  intro e' a ha
  change Function.update o.active e ((o.active e).map (· - 1)) e' = some a at ha
  by_cases he : e' = e
  · subst he
    rw [Function.update_self] at ha
    obtain ⟨b, hb, rfl⟩ := Option.map_eq_some_iff.1 ha
    obtain ⟨ids, hnodup, hlength, hids⟩ := h e' b hb
    have hmem : id ∈ ids := (hids id).2 ⟨⟨job, hduty⟩, by simp [hfiber]⟩
    refine ⟨ids.erase id, hnodup.erase id, ?_, fun k => ?_⟩
    · rw [List.length_erase_of_mem hmem, hlength]
    · rw [hnodup.mem_erase_iff, hworks, hids]
      exact and_comm
  · rw [Function.update_of_ne he] at ha
    obtain ⟨ids, hnodup, hlength, hids⟩ := h e' a ha
    refine ⟨ids, hnodup, hlength, fun k => ?_⟩
    rw [hids, hworks]
    refine ⟨fun hk => ⟨hk, ?_⟩, And.left⟩
    rintro rfl
    obtain ⟨⟨_, hother⟩, -⟩ := hk
    cases hother.symm.trans hduty
    exact he rfl

/-! ## The account of loops and jobs -/

/-- What is said of other things than a loop's state leaves it to what the loop has said last. -/
theorem spoken_heard (h : o.Spoken) {id : FiberId} {x : Exchange (Job α)}
    (hx : ∀ {start l state}, o.duty id = some (.loop start l) → x ≠ ⟨.publish l.id state, ()⟩) :
    (o.heard id x).Spoken := by
  intro k start l state hduty hlast
  change (Function.update o.said id (o.said id ++ [x]) k).getLast? = _ at hlast
  by_cases hk : k = id
  · subst hk
    rw [Function.update_self, List.getLast?_concat] at hlast
    exact absurd (Option.some.inj hlast) (hx hduty)
  · rw [Function.update_of_ne hk] at hlast
    exact h hduty hlast

/-- A loop that says what it is doing is seen to do this. -/
theorem spoken_published (h : o.Spoken) (hplaced : Placed p o) {id : FiberId} {start : Nat}
    {l : PollLoop α} (hduty : o.duty id = some (.loop start l)) (state : LoopState) :
    ((o.published l.id state).heard id ⟨.publish l.id state, ()⟩).Spoken := by
  intro k start' l' state' hduty' hlast
  change o.duty k = _ at hduty'
  change (Function.update o.said id _ k).getLast? = _ at hlast
  show (o.published l.id state).stateOf l'.id = _
  by_cases hk : k = id
  · subst hk
    cases hduty.symm.trans hduty'
    rw [Function.update_self, List.getLast?_concat] at hlast
    cases hlast
    exact stateOf_published_self (by rw [hplaced.entry hduty]; exact Option.some_ne_none _)
  · rw [Function.update_of_ne hk] at hlast
    rw [stateOf_published fun hid => hk (hplaced.distinct hduty' hduty hid)]
    exact h hduty' hlast

/-- Loops are seen to do what they have said as long as nothing is said. -/
theorem spoken_of_same (h : o.Spoken)
    (hduty : ∀ {k start l}, o'.duty k = some (.loop start l) → o.duty k = some (.loop start l))
    (hsaid : o'.said = o.said) (hloops : o'.loops = o.loops) : o'.Spoken := by
  intro k start l state hloop hlast
  unfold stateOf
  rw [hloops]
  exact h (hduty hloop) (hsaid ▸ hlast)

/-- Loops that have just been started are seen idle, and the others as before. -/
theorem spoken_started (h : o.Spoken) (hfresh : o.Fresh) (hplaced : Placed p o)
    (planned : List (PlannedLoop α)) : (o.started planned).Spoken := by
  intro k start l state hduty hlast
  rcases duty_started hduty with ⟨hduty, -⟩ | ⟨hk, -⟩
  · rw [stateOf_started (by rw [hplaced.entry hduty]; exact Option.some_ne_none _)]
    exact h hduty hlast
  · change (o.said k).getLast? = _ at hlast
    rw [(hfresh k hk).2.1] at hlast
    cases hlast

/-- A process that is no loop adds none. -/
theorem loop_of_added {duty : Duty α} (hne : ∀ start l, duty ≠ .loop start l) {k : FiberId}
    {start : Nat} {l : PollLoop α} (h : (o.added duty).duty k = some (.loop start l)) :
    o.duty k = some (.loop start l) := by
  change Function.update o.duty o.nextFiber _ k = _ at h
  rw [Function.update_apply] at h
  split at h
  · exact absurd (Option.some.inj h) (hne start l)
  · exact h

/-- Every change keeps the entries and the counts right. -/
theorem Recorded.change (h : Recorded o) (hfresh : o.Fresh) (hplaced : Placed p o)
    (hcrewed : Crewed p o) (hchange : o.Change p o') : Recorded o' := by
  have hcounted : ∀ {o' : Outline α}, o'.active = o.active → o'.duty = o.duty →
      o'.fiber = o.fiber → o'.Counted := by
    intro o' hactive hduty hfiber
    refine counted_of_same h.counted hactive fun e k => ?_
    unfold WorksOn
    rw [hduty, hfiber]
  have hwithout : ∀ {id d}, o.duty id = some d → (∀ e job, d ≠ .work e job) →
      (o.without id).Counted := by
    intro id d hduty hne
    refine counted_of_same h.counted rfl fun e k =>
      worksOn_without.trans ⟨And.left, fun hk => ⟨hk, ?_⟩⟩
    rintro rfl
    obtain ⟨⟨job, hjob⟩, -⟩ := hk
    exact hne e job (Option.some.inj (hduty.symm.trans hjob))
  have hspoken : ∀ {o' : Outline α}, o'.duty = o.duty → o'.said = o.said → o'.loops = o.loops →
      o'.Spoken := fun hduty hsaid hloops =>
    spoken_of_same h.spoken (fun hloop => hduty ▸ hloop) hsaid hloops
  cases hchange with
  | stay => exact h
  | lower hstatus hopen =>
    exact ⟨hspoken rfl rfl rfl, hcounted rfl rfl rfl, h.hired⟩
  | start hstatus hopen hplan =>
    refine ⟨spoken_started h.spoken hfresh hplaced _,
      counted_of_same h.counted rfl fun e k => worksOn_started hfresh k, fun hduty => ?_⟩
    exact Nat.le_add_left _ _
  | call =>
    refine ⟨spoken_of_same h.spoken (loop_of_added fun start l => by simp) rfl rfl,
      counted_of_same h.counted rfl fun e k => worksOn_added hfresh (fun job => by simp) k, ?_⟩
    intro k e job hduty
    change Function.update o.duty o.nextFiber _ k = _ at hduty
    rw [Function.update_apply] at hduty
    split at hduty
    · cases hduty
    · exact h.hired hduty
  | say x hfiber hduty hwork hneutral =>
    refine ⟨spoken_heard h.spoken fun _ hx => ?_, hcounted rfl rfl rfl, h.hired⟩
    subst hx
    exact hneutral
  | publish state hfiber hduty =>
    exact ⟨spoken_published h.spoken hplaced hduty state, hcounted rfl rfl rfl, h.hired⟩
  | @handOver id start l called e record hfiber hduty hboundary =>
    have hsame : (o.handedOver e ⟨l.runner.processor, record⟩).Spoken :=
      spoken_of_same h.spoken (loop_of_added (o := o.counted e (· + 1)) fun start l => by simp)
        rfl rfl
    refine ⟨spoken_heard hsame fun _ hx => ?_, counted_handedOver h.counted hfresh e _,
      fun _ => Nat.le_trans (hcrewed.known hduty).1 (hcrewed.known hduty).2⟩
    cases hx
  | @stop id called x hfiber hduty hgoes htells =>
    have hspared := spared_of_goes o id hgoes
    refine ⟨spoken_heard (hspoken hspared.duty hspared.said hspared.loops) fun hloop => ?_,
      counted_of_same h.counted hspared.active fun e k => ?_, fun {k e job} hwork => ?_⟩
    · rw [hspared.duty, hduty] at hloop
      cases hloop
    · refine worksOn_of_same ?_ fun _ => fiber_after_eq_none hgoes
      exact Iff.of_eq (congrArg (fun duty : FiberId → Option (Duty α) => duty k = _) hspared.duty)
    · show 1 ≤ (o.after id x).starts
      rw [hspared.starts]
      change (o.after id x).duty k = _ at hwork
      exact h.hired (hspared.duty ▸ hwork)
  | @again id start l called hfiber hduty =>
    refine ⟨?_, hcounted rfl rfl rfl, h.hired⟩
    intro k start' l' state hduty' hlast
    change (Function.update o.said id [] k).getLast? = _ at hlast
    rw [Function.update_apply] at hlast
    split at hlast
    · cases hlast
    · exact h.spoken hduty' hlast
  | endLoop hfiber hduty hend =>
    exact ⟨hspoken rfl rfl rfl, hwithout hduty (by simp), h.hired⟩
  | dropLoop hfiber hduty =>
    exact ⟨hspoken rfl rfl rfl, hwithout hduty (by simp), h.hired⟩
  | endWork hfiber hduty =>
    exact ⟨hspoken rfl rfl rfl, counted_endWork h.counted hfiber hduty, h.hired⟩
  | endShutdown hfiber hduty =>
    exact ⟨hspoken rfl rfl rfl, hwithout hduty (by simp), h.hired⟩

/-- An executor that has nothing left to do stays so while no loop is there that hands work over to
it. -/
theorem Change.idle (hfresh : o.Fresh) (hchange : o.Change p o') {e : ExecutorId}
    (hidle : o.Idle e)
    (hloops : ∀ {k start l called}, o.duty k = some (.loop start l) → o.fiber k = some called →
      l.runner.boundary ≠ .handedOver e) : o'.Idle e := by
  obtain ⟨hactive, hworks⟩ := hidle
  have hwithout : ∀ {id}, (o.without id).Idle e :=
    ⟨hactive, fun k hk => hworks k (worksOn_without.1 hk).1⟩
  cases hchange with
  | start hstatus hopen hplan =>
    exact ⟨hactive, fun k hk => hworks k ((worksOn_started hfresh k).1 hk)⟩
  | call =>
    exact ⟨hactive, fun k hk => hworks k ((worksOn_added hfresh (fun job => by simp) k).1 hk)⟩
  | @handOver id start l called e' record hfiber hduty hboundary =>
    have hne : e ≠ e' := by
      rintro rfl
      exact hloops hduty hfiber hboundary
    have hlater : (o.counted e' (· + 1)).Fresh := fun k hk => hfresh k hk
    refine ⟨?_, fun k hk => hworks k ?_⟩
    · show (Function.update o.active e' _ e).getD 0 = 0
      rw [Function.update_of_ne hne]
      exact hactive
    · refine (worksOn_added (o := o.counted e' (· + 1)) hlater (fun job hwork => ?_) k).1 hk
      cases hwork
      exact hne rfl
  | @stop id called x hfiber hduty hgoes htells =>
    have hspared := spared_of_goes o id hgoes
    refine ⟨(congrArg (fun active => (active e).getD 0) hspared.active).trans hactive, fun k hk => ?_⟩
    obtain ⟨⟨job, hjob⟩, hthere⟩ := hk
    refine hworks k ⟨⟨job, hspared.duty ▸ hjob⟩, fun hnone => hthere ?_⟩
    exact (fiber_after_eq_none hgoes).2 hnone
  | endLoop hfiber hduty hend => exact hwithout
  | dropLoop hfiber hduty => exact hwithout
  | @endWork id e' job called hfiber hduty =>
    refine ⟨?_, fun k hk => hworks k (worksOn_without (o := o.counted e' (· - 1)).1 hk).1⟩
    show (Function.update o.active e' _ e).getD 0 = 0
    rw [Function.update_apply]
    split
    · next he =>
      subst he
      cases hnumber : o.active e with
      | none => rfl
      | some a =>
        rw [hnumber] at hactive
        simp_all
    · exact hactive
  | endShutdown hfiber hduty => exact hwithout
  | _ => exact ⟨hactive, hworks⟩

/-- In a pool that was never started there is nothing to be counted or said. -/
theorem recorded_initial (clock : Instant) (shards : List ShardId) (limits : List Nat) :
    Recorded (Service.initial clock shards limits : Service α).outline where
  spoken h := by cases h
  counted e a ha := by
    refine ⟨[], List.nodup_nil, ?_, fun k => ⟨fun hk => absurd hk List.not_mem_nil, ?_⟩⟩
    · change ((limits.map Executor.make)[e]?).map Executor.active = some a at ha
      rw [List.getElem?_map] at ha
      obtain ⟨limit, hlimit, rfl⟩ := Option.map_eq_some_iff.1 ha
      obtain ⟨_, -, rfl⟩ := Option.map_eq_some_iff.1 hlimit
      rfl
    · rintro ⟨⟨job, hduty⟩, -⟩
      cases hduty
  hired h := by cases h

end Outline

/-- Entries and executors tell what loops and jobs do, wherever a pool has come to. -/
theorem Service.Reached.recorded {p : Pool α} {s : Service α} (h : s.Reached p) :
    Outline.Recorded s.outline :=
  h.induction_from (Q := fun o => Outline.Placed p o ∧ Outline.Crewed p o)
    (fun hs => ⟨hs.placed, hs.crewed⟩) Outline.recorded_initial
    fun _ _ hfresh hknown hold hchange => hold.change hfresh hknown.1 hknown.2 hchange

end LeaseQueue
