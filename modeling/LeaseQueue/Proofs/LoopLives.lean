import LeaseQueue.Proofs.ServiceTurns
import LeaseQueue.Proofs.StoreRuns

/-!
# Whole lives of loops

A loop lives from round to round until it finds the sign to stop.  Here its polls may come to
anything, another thing in every round, and between any two of its requests other processes may
change the world as they like, as long as they do not say in the loop's name what it is doing.

What a cycle is made of is a `PollCycle`, and `PollLoop.exchanges` lists all that is asked and told
in it, from the look at the sign to the wait.  Main statement: `PollLoop.Lives.whole_cycles`, by
which every life is the beginning of whole cycles, one after the other, and of the two requests of a
stop.  A crash is a cycle like any other, and a sign that is given inside of a cycle is found by the
next look at it only.
-/

set_option autoImplicit false

namespace LeaseQueue

variable {α ω β γ : Type}

open Process

/-! ## Processes that cannot panic -/

/-- Every request can be answered. -/
theorem Request.nonempty_reply (r : Request ω) : Nonempty r.Reply := by
  cases r with
  | now => exact ⟨(.epoch : Instant)⟩
  | takeLoops => exact ⟨([] : List FiberId)⟩
  | probe _ _ | begin _ | enqueue _ _ _ | pick _ _ _ | delete _ _ _ | reenqueue _ _ _ _ _ _
  | commit _ | rollback _ => exact ⟨.error .transactionFinished⟩
  | passBefore _ _ | slot _ | drained _ _ | isStopping | beginDraining | ended _ _ => exact ⟨true⟩
  | invocation _ | activeJobs _ | tick => exact ⟨(0 : Nat)⟩
  | loopState _ => exact ⟨LoopState.idle⟩
  | _ => exact ⟨()⟩

namespace Process

/-- The answers decide what is left. -/
theorem Runs.unique {p q q' : Process ω γ} {es : List (Exchange ω)} (h : Runs p es q)
    (h' : Runs p es q') : q = q' := by
  induction h with
  | nil =>
    cases h'
    rfl
  | cons _ ih =>
    cases h' with
    | cons h' => exact ih h'

/-- What is left of a process that never panics never panics. -/
theorem NeverPanics.of_runs {p q : Process ω γ} (h : p.NeverPanics) {es : List (Exchange ω)}
    (hruns : Runs p es q) : q.NeverPanics := by
  induction hruns with
  | nil => exact h
  | cons _ ih => exact ih (h _)

/-- A process that cannot panic can come to a result. -/
theorem NeverPanics.exists_returns {p : Process ω γ} (h : p.NeverPanics) :
    ∃ es a, Returns p es a := by
  induction p with
  | done a => exact ⟨[], a, .nil⟩
  | panic cause => exact h.elim
  | call r next ih =>
    obtain ⟨reply⟩ := r.nonempty_reply
    obtain ⟨es, a, hnext⟩ := ih reply (h reply)
    exact ⟨⟨r, reply⟩ :: es, a, .cons hnext⟩

/-- A process has asked nothing but what it may ask. -/
theorem Only.forall_mem {allowed : Request ω → Prop} {p q : Process ω γ} (h : p.Only allowed)
    {es : List (Exchange ω)} (hruns : Runs p es q) : ∀ x ∈ es, allowed x.1 := by
  induction hruns with
  | nil => exact fun x hx => absurd hx List.not_mem_nil
  | cons _ ih =>
    intro x hx
    rcases List.mem_cons.1 hx with rfl | hx
    · exact h.1
    · exact ih (h.2 _) x hx

/-- The notices of a reaction, as they are given. -/
def reports (r : Reaction) : List (Exchange ω) := r.notices.map fun n => ⟨.report n, ()⟩

/-- An observer that has returned has reported its notices and nothing else. -/
theorem returns_react {r : Reaction} {es : List (Exchange ω)} {u : Unit}
    (h : Returns (react r) es u) : es = reports r := by
  obtain ⟨notices, cause⟩ := r
  unfold reports
  induction notices generalizing es with
  | nil =>
    cases cause <;> cases h
    rfl
  | cons notice rest ih =>
    cases h with
    | cons h => exact congrArg (List.cons _) (ih h)

end Process

/-! ## Cycles -/

/-- The wait after a poll. -/
def Settings.waitAfter (s : Settings) : Except QueueError PollStatus → Duration
  | .ok .processed => s.betweenTaskTimeout
  | .ok .skipped => s.noTaskTimeout
  | .error _ => s.fatalCrashTimeout

/-- What one cycle of a loop is made of. -/
structure PollCycle (ω : Type) where
  /-- The reading of the clock before the poll. -/
  start : Instant
  /-- What the poll asked and was told. -/
  poll : List (Exchange ω)
  outcome : Except QueueError PollStatus
  /-- The reading of the clock after the poll; nobody asks for it after a crash. -/
  stop : Instant
  /-- When the wait began. -/
  tick : Tick

namespace PollCycle

/-- The cycle's poll came to this, by itself or by a panic. -/
def Fits (poll : Action ω QueueError PollStatus) (c : PollCycle ω) : Prop :=
  Returns poll.run c.poll c.outcome ∨
    ∃ cause, Runs poll.run c.poll (.panic cause) ∧ c.outcome = .error (.panic cause)

/-- What the observer is told of the poll. -/
def verdict (c : PollCycle ω) : LoopEvent :=
  match c.outcome with
  | .ok status => .executed status (c.stop.elapsed c.start)
  | .error e => .crashed e

/-- What the loop says that it is doing while it waits. -/
def rest (c : PollCycle ω) : LoopState :=
  match c.outcome with
  | .ok _ => .waiting
  | .error _ => .crashed

/-- All that the loop says that it is doing. -/
def states (c : PollCycle ω) : List LoopState := [.running, c.rest]

/-- No cycle says that the loop is stopped. -/
theorem stopped_not_mem (c : PollCycle ω) : .stopped ∉ c.states := by
  unfold states rest
  split <;> decide

/-- The second look at the clock, which comes before the observer is told of a status. -/
def timing (c : PollCycle ω) : List (Exchange ω) :=
  match c.outcome with
  | .ok _ => [⟨.now, c.stop⟩]
  | .error _ => []

end PollCycle

namespace PollLoop

variable (l : PollLoop α)

/-- The notices of the loop's observer. -/
def told (event : LoopEvent) : List (Exchange ω) := reports (l.listener l.shard l.location event)

/-- All that is asked and told in a cycle, from the look at the sign to stop to the wait. -/
def exchanges (c : PollCycle ω) : List (Exchange ω) :=
  [⟨.isStopping, false⟩, ⟨.publish l.id .running, ()⟩] ++ l.told .started ++ [⟨.now, c.start⟩] ++
    c.poll ++ c.timing ++ l.told c.verdict ++ [⟨.publish l.id c.rest, ()⟩] ++ l.told .finished ++
    [⟨.tick, c.tick⟩, ⟨.pauseUntil (waitEnd c.tick (l.settings.waitAfter c.outcome)), ()⟩]

/-- The end of a loop: it finds the sign to stop. -/
def ending : List (Exchange ω) := [⟨.isStopping, true⟩, ⟨.publish l.id .stopped, ()⟩]

/-- A life from its beginning to its end. -/
def wholeLife (cycles : List (PollCycle ω)) : List (Exchange ω) :=
  cycles.flatMap l.exchanges ++ l.ending

variable {l} {poll : Action ω QueueError PollStatus} {es : List (Exchange ω)}

/-- A poll that has come to an outcome makes a cycle with it. -/
theorem fits_of_returns {outcome : Except QueueError PollStatus}
    (h : Returns (guarded poll) es outcome) (start stop : Instant) (tick : Tick) :
    PollCycle.Fits poll ⟨start, es, outcome, stop, tick⟩ := by
  obtain ⟨xs, ys, caught, rfl, hpoll, hend⟩ := returns_bind h
  obtain ⟨p, hruns, hp⟩ := runs_attempt hpoll
  cases p with
  | done result =>
    cases hp
    cases hend
    rw [List.append_nil]
    exact .inl hruns
  | panic cause =>
    cases hp
    cases hend
    rw [List.append_nil]
    exact .inr ⟨cause, hruns, rfl⟩
  | call r next => cases hp

/-- A cycle that is over, with its wait. -/
theorem returns_cycleOf {wait : Duration} (h : Returns (l.cycleOf poll) es wait) (tick : Tick) :
    ∃ c : PollCycle ω, c.Fits poll ∧ c.tick = tick ∧ wait = l.settings.waitAfter c.outcome ∧
      es = [⟨.publish l.id .running, ()⟩] ++ l.told .started ++ [⟨.now, c.start⟩] ++ c.poll ++
        c.timing ++ l.told c.verdict ++ [⟨.publish l.id c.rest, ()⟩] ++ l.told .finished := by
  obtain ⟨_, _, _, rfl, hrunning, h⟩ := returns_bind h
  obtain ⟨_, _, _, rfl, hstarted, h⟩ := returns_bind h
  obtain ⟨_, _, start, rfl, hstart, h⟩ := returns_bind h
  obtain ⟨polled, _, outcome, rfl, hpoll, h⟩ := returns_bind h
  obtain rfl := returns_ask hrunning
  obtain rfl := returns_react hstarted
  obtain rfl := returns_ask hstart
  have hfits := fits_of_returns hpoll start
  -- what follows the poll is the same after a status and after a crash, but for the second look
  cases outcome with
  | ok status =>
    obtain ⟨_, _, stop, rfl, hstop, h⟩ := returns_bind h
    obtain ⟨_, _, _, rfl, hexecuted, h⟩ := returns_bind h
    obtain ⟨_, _, _, rfl, hwaiting, h⟩ := returns_bind h
    obtain ⟨_, _, _, rfl, hpure, h⟩ := returns_bind h
    obtain ⟨_, _, _, rfl, hfinished, hend⟩ := returns_bind h
    cases hpure
    obtain rfl := returns_ask hstop
    obtain rfl := returns_react hexecuted
    obtain rfl := returns_ask hwaiting
    obtain rfl := returns_react hfinished
    cases hend
    refine ⟨⟨start, polled, .ok status, stop, tick⟩, hfits stop tick, rfl, ?_, ?_⟩
    · cases status <;> rfl
    · simp [told, PollCycle.timing, PollCycle.verdict, PollCycle.rest]
  | error e =>
    obtain ⟨_, _, _, rfl, hcrashed, h⟩ := returns_bind h
    obtain ⟨_, _, _, rfl, hresting, h⟩ := returns_bind h
    obtain ⟨_, _, _, rfl, hpure, h⟩ := returns_bind h
    obtain ⟨_, _, _, rfl, hfinished, hend⟩ := returns_bind h
    cases hpure
    obtain rfl := returns_react hcrashed
    obtain rfl := returns_ask hresting
    obtain rfl := returns_react hfinished
    cases hend
    refine ⟨⟨start, polled, .error e, start, tick⟩, hfits start tick, rfl, rfl, ?_⟩
    simp [told, PollCycle.timing, PollCycle.verdict, PollCycle.rest]

/-- A round that is followed by another one is a whole cycle. -/
theorem returns_roundOf_true (h : Returns (l.roundOf poll) es true) :
    ∃ c : PollCycle ω, c.Fits poll ∧ es = l.exchanges c := by
  obtain ⟨_, _, stopping, rfl, hsign, hrest⟩ := returns_bind h
  obtain rfl := returns_ask hsign
  cases (stopping : Bool) with
  | true =>
    change Returns (Process.bind (l.publish .stopped) fun _ => .done false) _ true at hrest
    obtain ⟨_, _, _, -, -, hend⟩ := returns_bind hrest
    cases hend
  | false =>
    change Returns (Process.bind (l.cycleOf poll) fun wait => (pause wait).bind fun _ => .done true)
      _ true at hrest
    obtain ⟨_, _, wait, rfl, hcycle, hafter⟩ := returns_bind hrest
    obtain ⟨_, _, _, rfl, hpause, hend⟩ := returns_bind hafter
    obtain ⟨_, _, tick, rfl, htick, hwait⟩ := returns_bind hpause
    obtain rfl := returns_ask htick
    obtain rfl := returns_ask hwait
    cases hend
    obtain ⟨c, hfits, rfl, rfl, rfl⟩ := returns_cycleOf hcycle tick
    exact ⟨c, hfits, by simp [exchanges]⟩

/-- Whatever a round has come to, it is part of a cycle or of the end. -/
theorem runs_roundOf (hcalm : l.Calm) {left : Process ω Bool}
    (h : Runs (l.roundOf poll) es left) :
    (∃ c : PollCycle ω, c.Fits poll ∧ es <+: l.exchanges c ∧
      (left = .done true ↔ es = l.exchanges c) ∧ left ≠ .done false) ∨
    (es <+: l.ending ∧ (left = .done false ↔ es = l.ending) ∧ left ≠ .done true) := by
  obtain ⟨ys, more, hys⟩ := ((roundOf_neverPanics hcalm poll).of_runs h).exists_returns
  have hall := h.append hys
  have hdone : ∀ b, left = .done b → ys = [] ∧ b = more := by
    rintro b rfl
    cases hys
    exact ⟨rfl, rfl⟩
  have hback : es = es ++ ys → left = .done more := by
    intro hes
    obtain rfl := List.append_right_eq_self.1 hes.symm
    cases hys
    rfl
  cases more with
  | true =>
    obtain ⟨c, hfits, hc⟩ := returns_roundOf_true hall
    refine .inl ⟨c, hfits, ⟨ys, hc⟩, ⟨fun hleft => ?_, fun hes => ?_⟩, fun hleft => ?_⟩
    · rw [← hc, (hdone _ hleft).1, List.append_nil]
    · exact hback (hes.trans hc.symm)
    · cases (hdone _ hleft).2
  | false =>
    have hend := l.returns_roundOf_false hall
    refine .inr ⟨⟨ys, hend⟩, ⟨fun hleft => ?_, fun hes => ?_⟩, fun hleft => ?_⟩
    · exact ((congrArg (es ++ ·) (hdone _ hleft).1).trans (List.append_nil es)).symm.trans hend
    · exact hback (hes.trans hend.symm)
    · cases (hdone _ hleft).2

end PollLoop

/-! ## What a loop says that it is doing -/

/-- What is said in the name of a loop. -/
def Request.said? (loop : LoopId) : Request ω → Option LoopState
  | .publish other state => if other = loop then some state else none
  | _ => none

/-- All that has been said in the name of a loop. -/
def published (loop : LoopId) (es : List (Exchange ω)) : List LoopState :=
  es.filterMap fun x => x.1.said? loop

/-- What others see a loop doing. -/
def World.seen (w : World ω β) (loop : LoopId) : Option LoopState :=
  (w.loops[loop]?).map LoopEntry.state

/-- What is said in two stretches is said one after the other. -/
theorem published_append (loop : LoopId) (xs ys : List (Exchange ω)) :
    published loop (xs ++ ys) = published loop xs ++ published loop ys :=
  List.filterMap_append

/-- The notices of an observer are not said in the name of a loop. -/
theorem published_reports (loop : LoopId) (r : Reaction) :
    published loop (reports r : List (Exchange ω)) = [] := by
  refine List.filterMap_eq_nil_iff.2 fun x hx => ?_
  obtain ⟨notice, -, rfl⟩ := List.mem_map.1 hx
  rfl

/-- A process that may not speak in the name of a loop says nothing. -/
theorem published_eq_nil {loop : LoopId} {p q : Process ω γ}
    (h : p.Only fun r => r.said? loop = none) {es : List (Exchange ω)} (hruns : Runs p es q) :
    published loop es = [] :=
  List.filterMap_eq_nil_iff.2 fun x hx => h.forall_mem hruns x hx

namespace World

/-- A request does to what is seen of a loop what it says in the loop's name. -/
theorem seen_perform (jobProgram : ω → Process ω Unit) (w : World ω β) (id : FiberId)
    (r : Request ω) (loop : LoopId) :
    (w.perform jobProgram id r).1.seen loop =
      (w.seen loop).map fun state => (r.said? loop).getD state := by
  have hsame : ∀ {w' : World ω β}, w'.loops = w.loops → r.said? loop = none →
      w'.seen loop = (w.seen loop).map fun state => (r.said? loop).getD state := by
    intro w' hloops hsaid
    unfold seen
    rw [hsaid, hloops]
    exact Option.map_id'.symm
  by_cases hneutral : r.Neutral
  · refine hsame (congrArg Sketch.loops (sketch_perform_of_neutral hneutral)) ?_
    cases r <;> first | rfl | exact hneutral.elim
  cases r with
  | publish other state =>
    show (((w.loops.modify other _)[loop]?).map LoopEntry.state) = _
    unfold seen Request.said?
    rw [List.getElem?_modify]
    by_cases hloop : other = loop
    · simp [hloop, Function.comp_def]
    · simp [hloop, Function.comp_def]
  | beginDraining =>
    refine hsame ?_ rfl
    simp only [perform]
    split <;> rfl
  | handOver _ _ | close _ | signalStop _ | takeLoops | abort _ | enterHook _
  | endDraining => exact hsame rfl rfl
  | _ => exact absurd trivial hneutral

end World

namespace PollLoop

variable {l : PollLoop α} {poll : Action ω QueueError PollStatus}

/-- Polls say nothing in the loop's name. -/
def Discreet (l : PollLoop α) (poll : Action ω QueueError PollStatus) : Prop :=
  poll.run.Only fun r => r.said? l.id = none

/-- The poll of a cycle says nothing in the name of its loop. -/
theorem published_poll (hdiscreet : l.Discreet poll) {c : PollCycle ω} (hfits : c.Fits poll) :
    published l.id c.poll = [] := by
  rcases hfits with hreturns | ⟨cause, hpanics, -⟩
  · exact published_eq_nil hdiscreet hreturns
  · exact published_eq_nil hdiscreet hpanics

/-- A cycle says just the states that it goes through. -/
theorem published_exchanges (hdiscreet : l.Discreet poll) {c : PollCycle ω} (hfits : c.Fits poll) :
    published l.id (l.exchanges c) = c.states := by
  have htiming : published l.id c.timing = [] := by
    unfold PollCycle.timing
    split <;> rfl
  have hself : ∀ state, published l.id [(⟨.publish l.id state, ()⟩ : Exchange ω)] = [state] := by
    intro state
    simp [published, Request.said?]
  have hbegin : published l.id
      [(⟨.isStopping, false⟩ : Exchange ω), ⟨.publish l.id .running, ()⟩] = [.running] :=
    hself .running
  unfold exchanges
  simp only [published_append, told, published_reports, published_poll hdiscreet hfits, htiming,
    hself, hbegin]
  rfl

/-- The end of a loop says that it is stopped. -/
theorem published_ending : published l.id (l.ending : List (Exchange ω)) = [.stopped] := by
  simp [published, ending, Request.said?]

end PollLoop

/-! ## Lives -/

namespace PollLoop

/-- The life of a loop among other processes, from a world on: how many rounds are over, what has
been asked and told, what is left of the present round, and the world to which it has come.  The
polls are numbered by the rounds. -/
inductive Lives (l : PollLoop α) (polls : Nat → Action ω QueueError PollStatus)
    (jobProgram : ω → Process ω Unit) (id : FiberId) (w₀ : World ω β) :
    Nat → List (Exchange ω) → Process ω Bool → World ω β → Prop
  | start : Lives l polls jobProgram id w₀ 0 [] (l.roundOf (polls 0)) w₀
  | told {n : Nat} {es : List (Exchange ω)} {r : Request ω} {next : r.Reply → Process ω Bool}
    {w w' : World ω β} {reply : r.Reply} (h : Lives l polls jobProgram id w₀ n es (.call r next) w)
    (hanswer : w.perform jobProgram id r = (w', .answer reply)) :
    Lives l polls jobProgram id w₀ n (es ++ [⟨r, reply⟩]) (next reply) w'
  /-- The request has to be asked again later. -/
  | waits {n : Nat} {es : List (Exchange ω)} {r : Request ω} {next : r.Reply → Process ω Bool}
    {w w' : World ω β} {condition : Wait}
    (h : Lives l polls jobProgram id w₀ n es (.call r next) w)
    (hwait : w.perform jobProgram id r = (w', .wait condition)) :
    Lives l polls jobProgram id w₀ n es (.call r next) w'
  | again {n : Nat} {es : List (Exchange ω)} {w : World ω β}
    (h : Lives l polls jobProgram id w₀ n es (.done true) w) :
    Lives l polls jobProgram id w₀ (n + 1) es (l.roundOf (polls (n + 1))) w
  /-- Others change the world, but not what is seen of the loop. -/
  | meanwhile {n : Nat} {es : List (Exchange ω)} {left : Process ω Bool} {w w' : World ω β}
    (h : Lives l polls jobProgram id w₀ n es left w) (hseen : w'.seen l.id = w.seen l.id) :
    Lives l polls jobProgram id w₀ n es left w'

variable {l : PollLoop α} {polls : Nat → Action ω QueueError PollStatus}
  {jobProgram : ω → Process ω Unit} {id : FiberId} {w₀ w : World ω β} {n : Nat}
  {es : List (Exchange ω)} {left : Process ω Bool}

/-- Cycles in the order of the polls that they are made around. -/
def InTurn (polls : Nat → Action ω QueueError PollStatus) (cycles : List (PollCycle ω)) : Prop :=
  ∀ (i : Nat) (c : PollCycle ω), cycles[i]? = some c → c.Fits (polls i)

/-- One more cycle takes its turn after the others. -/
theorem InTurn.concat {cycles : List (PollCycle ω)} (h : InTurn polls cycles) {c : PollCycle ω}
    (hc : c.Fits (polls cycles.length)) : InTurn polls (cycles ++ [c]) := by
  intro i d hd
  rcases Nat.lt_or_ge i cycles.length with hlt | hge
  · exact h i d ((List.getElem?_append_left hlt).symm.trans hd)
  · rw [List.getElem?_append_right hge] at hd
    obtain ⟨hi, rfl⟩ := List.getElem?_eq_some_iff.1 hd
    have hlast : i = cycles.length := by
      simp only [List.length_singleton] at hi
      omega
    subst hlast
    simpa using hc

/-- The rounds that are over are cycles, and what comes after them is said in the present round. -/
theorem Lives.cycles (h : l.Lives polls jobProgram id w₀ n es left w) :
    ∃ cycles rest, cycles.length = n ∧ InTurn polls cycles ∧
      es = cycles.flatMap l.exchanges ++ rest ∧ Runs (l.roundOf (polls n)) rest left := by
  induction h with
  | start => exact ⟨[], [], rfl, (fun i c hc => by cases hc), rfl, .nil⟩
  | told _ _ ih =>
    obtain ⟨cycles, rest, hlength, hturn, rfl, hruns⟩ := ih
    exact ⟨cycles, _, hlength, hturn, List.append_assoc .., hruns.answered _⟩
  | waits _ _ ih => exact ih
  | again _ ih =>
    obtain ⟨cycles, rest, rfl, hturn, rfl, hruns⟩ := ih
    obtain ⟨c, hfits, rfl⟩ := returns_roundOf_true hruns
    exact ⟨cycles ++ [c], [], by simp, hturn.concat hfits, by simp, .nil⟩
  | meanwhile _ _ ih => exact ih

/-- Others see what the loop has said last; before it has said anything, what they saw before. -/
theorem Lives.seen (h : l.Lives polls jobProgram id w₀ n es left w) {state : LoopState}
    (hbegin : w₀.seen l.id = some state) :
    w.seen l.id = (state :: published l.id es).getLast? := by
  have hstep : ∀ {w : World ω β} {es : List (Exchange ω)} {r : Request ω} (reply : r.Reply),
      w.seen l.id = (state :: published l.id es).getLast? →
      (w.perform jobProgram id r).1.seen l.id =
        (state :: published l.id (es ++ [⟨r, reply⟩])).getLast? := by
    intro w es r reply hseen
    rw [World.seen_perform, hseen, published_append]
    unfold published
    cases hsaid : r.said? l.id with
    | none => simp [hsaid]
    | some said => simp [hsaid, List.getLast?_cons]
  induction h with
  | start => exact hbegin
  | @told _ _ _ _ _ _ reply _ hanswer ih =>
    have := hstep reply ih
    rwa [hanswer] at this
  | @waits _ _ r _ w w' condition _ hwait ih =>
    rw [← ih]
    have hperform := World.seen_perform jobProgram w id r l.id
    rw [hwait] at hperform
    refine hperform.trans ?_
    cases r with
    | publish other state => cases hwait
    | _ => exact Option.map_id'
  | again _ ih => exact ih
  | meanwhile _ hsame ih => exact hsame.trans ih

/-- A turn that a scheduler gives to the loop is part of its life. -/
theorem Lives.turn (h : l.Lives polls jobProgram id w₀ n es left w) :
    ∃ es', l.Lives polls jobProgram id w₀ n es' (w.run jobProgram id left).2.left
      (w.run jobProgram id left).1 := by
  induction left generalizing w es with
  | done _ => exact ⟨es, h⟩
  | panic _ => exact ⟨es, h⟩
  | call r next ih =>
    unfold World.run
    cases hperform : w.perform jobProgram id r with
    | mk w' reply =>
    cases reply with
    | answer reply =>
      exact ih reply ((h.told hperform).meanwhile (show w'.wake.seen l.id = w'.seen l.id from rfl))
    | wait condition => exact ⟨es, h.waits hperform⟩

/-- A moment in the life of a loop that goes through these cycles. -/
structure Course (l : PollLoop α) (cycles : List (PollCycle ω)) (n : Nat) (es : List (Exchange ω))
    (left : Process ω Bool) (w : World ω β) : Prop where
  /-- The last cycle may be under way. -/
  count : cycles.length = n ∨ cycles.length = n + 1
  /-- The rounds that are over were cycles to their end. -/
  complete : (cycles.take n).flatMap l.exchanges <+: es
  part : es <+: l.wholeLife cycles
  /-- The loop has returned just when it has gone through all of its life. -/
  returned : left = .done false ↔ es = l.wholeLife cycles
  unharmed : ∀ cause, left ≠ .panic cause
  /-- The loop has said that it is running and then that it waits or has crashed, cycle by cycle,
  and in the end that it is stopped. -/
  states : published l.id es <+: cycles.flatMap PollCycle.states ++ [.stopped]
  stopped : .stopped ∈ published l.id es ↔ left = .done false
  /-- Others see what it has said last, and before that an idle loop. -/
  seen : w.seen l.id = (.idle :: published l.id es).getLast?

/-- Whole cycles say just the states that they go through, cycle by cycle. -/
theorem published_flatMap (hdiscreet : ∀ i, l.Discreet (polls i)) {cycles : List (PollCycle ω)}
    (hturn : InTurn polls cycles) :
    published l.id (cycles.flatMap l.exchanges) = cycles.flatMap PollCycle.states := by
  unfold published
  rw [List.filterMap_flatMap, List.flatMap_def, List.flatMap_def]
  congr 1
  refine List.map_congr_left fun c hc => ?_
  obtain ⟨i, hi⟩ := List.getElem?_of_mem hc
  exact published_exchanges (hdiscreet i) (hturn i c hi)

/-- Whole cycles and what has happened of one more round make a moment of whole cycles. -/
theorem course_of_runs (hcalm : l.Calm) (hdiscreet : ∀ i, l.Discreet (polls i))
    {before : List (PollCycle ω)} {rest : List (Exchange ω)} (hturn : InTurn polls before)
    (hruns : Runs (l.roundOf (polls before.length)) rest left)
    (hnow : w.seen l.id =
      (.idle :: published l.id (before.flatMap l.exchanges ++ rest)).getLast?) :
    ∃ cycles, InTurn polls cycles ∧
      l.Course cycles before.length (before.flatMap l.exchanges ++ rest) left w := by
  have hpanic : ∀ cause, left ≠ .panic cause := by
    rintro cause rfl
    exact (roundOf_neverPanics hcalm _).not_runs hruns
  have hsaid : published l.id (before.flatMap l.exchanges ++ rest) =
      before.flatMap PollCycle.states ++ published l.id rest := by
    rw [published_append, published_flatMap hdiscreet hturn]
  have hbefore : .stopped ∉ before.flatMap PollCycle.states := fun hmem => by
    obtain ⟨c, -, hc⟩ := List.mem_flatMap.1 hmem
    exact c.stopped_not_mem hc
  rcases runs_roundOf hcalm hruns with ⟨c, hfits, hpart, -, hnot⟩ | ⟨hpart, hreturned, -⟩
  · -- a cycle is under way
    have hall : l.wholeLife (before ++ [c]) =
        before.flatMap l.exchanges ++ (l.exchanges c ++ l.ending) := by
      simp [wholeLife]
    have hrest : published l.id rest <+: c.states :=
      published_exchanges (hdiscreet _) hfits ▸ hpart.filterMap _
    refine ⟨before ++ [c], hturn.concat hfits, .inr (by simp), ?_, ?_, ?_, hpanic, ?_, ?_, hnow⟩
    · rw [List.take_left]
      exact List.prefix_append _ _
    · rw [hall, List.prefix_append_right_inj]
      exact List.prefix_append_of_prefix hpart
    · refine iff_of_false hnot fun hes => ?_
      rw [hall, List.append_cancel_left_eq] at hes
      have hlength := hpart.length_le
      rw [hes, List.length_append] at hlength
      exact Nat.not_succ_le_self _ (Nat.le_of_succ_le hlength)
    · rw [hsaid, List.flatMap_append, List.append_assoc, List.prefix_append_right_inj,
        List.flatMap_singleton]
      exact List.prefix_append_of_prefix hrest
    · rw [hsaid]
      refine iff_of_false (fun hmem => ?_) hnot
      rcases List.mem_append.1 hmem with hmem | hmem
      · exact hbefore hmem
      · exact c.stopped_not_mem (hrest.subset hmem)
  · -- the sign to stop has been found, or the round has only just begun
    refine ⟨before, hturn, .inl rfl, ?_, ?_, ?_, hpanic, ?_, ?_, hnow⟩
    · rw [List.take_length]
      exact List.prefix_append _ _
    · exact (List.prefix_append_right_inj _).2 hpart
    · rw [hreturned, wholeLife, List.append_cancel_left_eq]
    · rw [hsaid, List.prefix_append_right_inj, ← published_ending (l := l)]
      exact hpart.filterMap _
    · rw [hsaid, hreturned, List.mem_append, or_iff_right hbefore]
      constructor
      · intro hmem
        rcases List.prefix_cons_iff.1 hpart with rfl | ⟨after, rfl, hafter⟩
        · cases hmem
        · rcases List.prefix_cons_iff.1 hafter with rfl | ⟨others, rfl, hothers⟩
          · cases hmem
          · obtain rfl := List.prefix_nil.1 hothers
            rfl
      · rintro rfl
        rw [published_ending]
        exact List.mem_singleton_self _

/-- However long a loop lives, whatever its polls come to and whatever others do meanwhile, each
moment of its life is a moment of whole cycles that are followed by the end. -/
theorem Lives.whole_cycles (hcalm : l.Calm) (hdiscreet : ∀ i, l.Discreet (polls i))
    (hidle : w₀.seen l.id = some .idle) (h : l.Lives polls jobProgram id w₀ n es left w) :
    ∃ cycles, InTurn polls cycles ∧ l.Course cycles n es left w := by
  have hnow := h.seen hidle
  obtain ⟨before, rest, rfl, hturn, rfl, hruns⟩ := h.cycles
  exact course_of_runs hcalm hdiscreet hturn hruns hnow

/-- The only loop of a pool. -/
def solitary : PollLoop String where
  id := 0
  runner := {
    processor := {
      shard := default
      consumer := {
        number := 0
        config := ⟨Store.someQueue, ⟨.zero, .zero, .ofSeconds 1, .separateTransactions,
          .fixedInterval, .manual, .empty⟩⟩
        codec := .plain
        router := .single default
        handle := fun _ _ => ⟨[], .verdict .finish⟩ }
      listener := .silent
      reenqueue := .manual }
    lease := .fixed .zero
    boundary := .separate }
  listener := fun shard location event => ⟨[.loop shard location event], none⟩

/-- A poll that panics. -/
def panicking : Action (Job String) QueueError PollStatus := ExceptT.lift (.panic .other)

/-- A world in which others see the loop doing this and have given this sign. -/
def around (state : LoopState) (signal : StopSignal) : World (Job String) Unit :=
  { World.initial .epoch [default] [] with
    loops := [⟨default, Store.someQueue, state⟩]
    pool := { PoolState.initial with signal := signal } }

/-- What `Lives.whole_cycles` says of a loop whose poll panics and that is told to stop while it
waits: it goes through one cycle and returns. -/
theorem solitary_whole_cycles :
    ∃ es w, solitary.Lives (fun _ => panicking) Job.work 0 (around .idle .initial) 1 es
        (.done false) w ∧
      ∃ cycles, InTurn (fun _ => panicking) cycles ∧ solitary.Course cycles 1 es (.done false) w := by
  have hborn : solitary.Lives (fun _ => panicking) Job.work 0 (around .idle .initial) 0 [] _
    (around .idle .initial) := .start
  obtain ⟨es, hcrashed⟩ := hborn.turn
  have hraised : solitary.Lives (fun _ => panicking) Job.work 0 (around .idle .initial) 0 es _
    (around .crashed ⟨true, true⟩) := hcrashed.meanwhile rfl
  obtain ⟨_, hover⟩ := hraised.turn
  obtain ⟨es, hreturned⟩ := hover.again.turn
  refine ⟨es, _, hreturned, ?_⟩
  exact Lives.whole_cycles (fun _ => rfl) (fun _ => trivial) rfl hreturned

end PollLoop

end LeaseQueue
