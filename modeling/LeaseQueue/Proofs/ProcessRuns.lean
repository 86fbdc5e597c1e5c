import LeaseQueue.Session

/-!
# What a process asks and what it comes to

A process runs against the answers that it gets: `Runs p exchanges q` says that `q` is left of `p`
once these requests have been answered.  From it come what a process may ask next (`Asks`) and what
it may come to (`Returns`).  For every way to put processes together there is a lemma that takes a
run of the whole apart into runs of the parts, so the programs of the engine are read from their
text, part by part.

`Only` is the coarser fact that a process asks nothing but requests of some kind, whatever it is
told.
-/

set_option autoImplicit false

namespace LeaseQueue

/-- A request with its answer. -/
abbrev Exchange (ω : Type) := (r : Request ω) × r.Reply

namespace Process

variable {ω ε α β : Type}

/-- A sequence of three processes may be bracketed either way. -/
theorem bind_bind {γ : Type} (p : Process ω α) (f : α → Process ω β) (g : β → Process ω γ) :
    (p.bind f).bind g = p.bind fun a => (f a).bind g := by
  induction p with
  | done a => rfl
  | panic cause => rfl
  | call r next ih => exact congrArg (Process.call r) (funext ih)

/-- What a process has come to. -/
def outcome? : Process ω α → Option (Except Panic α)
  | .done a => some (.ok a)
  | .panic cause => some (.error cause)
  | .call .. => none

/-- What is left of a process once some of its requests have been answered. -/
inductive Runs : Process ω α → List (Exchange ω) → Process ω α → Prop
  | nil {p : Process ω α} : Runs p [] p
  | cons {r : Request ω} {next : r.Reply → Process ω α} {reply : r.Reply}
    {rest : List (Exchange ω)} {q : Process ω α} (h : Runs (next reply) rest q) :
    Runs (.call r next) (⟨r, reply⟩ :: rest) q

/-- After these exchanges the process asks something. -/
def Asks (p : Process ω α) (es : List (Exchange ω)) (r : Request ω) : Prop :=
  ∃ next, Runs p es (.call r next)

/-- After these exchanges the process is done. -/
def Returns (p : Process ω α) (es : List (Exchange ω)) (a : α) : Prop := Runs p es (.done a)

/-- What a process does in two stretches it does in one. -/
theorem Runs.append {p q t : Process ω α} {xs ys : List (Exchange ω)} (h : Runs p xs q)
    (h' : Runs q ys t) : Runs p (xs ++ ys) t := by
  induction h with
  | nil => exact h'
  | cons _ ih => exact .cons (ih h')

/-- A stretch of a process can be cut anywhere. -/
theorem runs_of_append {p t : Process ω α} {xs ys : List (Exchange ω)} (h : Runs p (xs ++ ys) t) :
    ∃ q, Runs p xs q ∧ Runs q ys t := by
  induction xs generalizing p with
  | nil => exact ⟨p, .nil, h⟩
  | cons x xs ih =>
    cases h with
    | cons h =>
      obtain ⟨q, hq, ht⟩ := ih h
      exact ⟨q, .cons hq, ht⟩

/-- One more request is answered. -/
theorem Runs.answered {p : Process ω α} {es : List (Exchange ω)} {r : Request ω}
    {next : r.Reply → Process ω α} (h : Runs p es (.call r next)) (reply : r.Reply) :
    Runs p (es ++ [⟨r, reply⟩]) (next reply) :=
  h.append (.cons .nil)

/-- A process that has returned asks nothing. -/
theorem not_asks_done {a : α} {es : List (Exchange ω)} {r : Request ω} :
    ¬ Asks (.done a) es r := by
  rintro ⟨next, h⟩
  cases h

/-- A process that has panicked asks nothing. -/
theorem not_asks_panic {cause : Panic} {es : List (Exchange ω)} {r : Request ω} :
    ¬ Asks (.panic cause : Process ω α) es r := by
  rintro ⟨next, h⟩
  cases h

/-- A single request is asked at once. -/
theorem asks_ask {r r' : Request ω} {es : List (Exchange ω)} (h : Asks (.ask r) es r') :
    es = [] ∧ r' = r := by
  obtain ⟨next, h⟩ := h
  cases h with
  | nil => exact ⟨rfl, rfl⟩
  | cons h => cases h

/-- A single request is one exchange, and its answer is the outcome. -/
theorem returns_ask {r : Request ω} {es : List (Exchange ω)} {a : r.Reply}
    (h : Returns (.ask r) es a) : es = [⟨r, a⟩] := by
  cases h with
  | cons h =>
    cases h
    rfl

/-- A run of two processes, one after the other, ends in the first or in the second one. -/
theorem runs_bind {p : Process ω α} {f : α → Process ω β} {es : List (Exchange ω)}
    {q : Process ω β} (h : Runs (p.bind f) es q) :
    (∃ p', Runs p es p' ∧ q = p'.bind f) ∨
      ∃ xs ys a, es = xs ++ ys ∧ Returns p xs a ∧ Runs (f a) ys q := by
  induction p generalizing es with
  | done a => exact .inr ⟨[], es, a, rfl, .nil, h⟩
  | panic cause =>
    cases h
    exact .inl ⟨_, .nil, rfl⟩
  | call r next ih =>
    cases h with
    | nil => exact .inl ⟨_, .nil, rfl⟩
    | @cons _ _ reply rest _ h =>
      rcases ih reply h with ⟨p', hp, rfl⟩ | ⟨xs, ys, a, rfl, hp, hf⟩
      · exact .inl ⟨p', .cons hp, rfl⟩
      · exact .inr ⟨⟨r, reply⟩ :: xs, ys, a, rfl, .cons hp, hf⟩

/-- A sequence asks what its first part asks, or what the second asks once the first has returned.
-/
theorem asks_bind {p : Process ω α} {f : α → Process ω β} {es : List (Exchange ω)}
    {r : Request ω} (h : Asks (p.bind f) es r) :
    Asks p es r ∨ ∃ xs ys a, es = xs ++ ys ∧ Returns p xs a ∧ Asks (f a) ys r := by
  obtain ⟨next, h⟩ := h
  rcases runs_bind h with ⟨p', hp, hq⟩ | ⟨xs, ys, a, hes, hp, hf⟩
  · cases p' with
    | done a => exact .inr ⟨es, [], a, (List.append_nil es).symm, hp, next, hq ▸ .nil⟩
    | panic cause => cases hq
    | call r' next' =>
      cases hq
      exact .inl ⟨next', hp⟩
  · exact .inr ⟨xs, ys, a, hes, hp, next, hf⟩

/-- A sequence returns when its first part does, and then its second. -/
theorem returns_bind {p : Process ω α} {f : α → Process ω β} {es : List (Exchange ω)} {b : β}
    (h : Returns (p.bind f) es b) :
    ∃ xs ys a, es = xs ++ ys ∧ Returns p xs a ∧ Returns (f a) ys b := by
  rcases runs_bind h with ⟨p', hp, hq⟩ | hafter
  · cases p' with
    | done a =>
      have hf : f a = .done b := hq.symm
      exact ⟨es, [], a, (List.append_nil es).symm, hp, hf ▸ .nil⟩
    | panic cause => cases hq
    | call r next => cases hq
  · exact hafter

/-- To catch a panic changes nothing in what is asked. -/
theorem runs_attempt {p : Process ω α} {es : List (Exchange ω)}
    {q : Process ω (Except Panic α)} (h : Runs p.attempt es q) :
    ∃ p', Runs p es p' ∧ q = p'.attempt := by
  induction p generalizing es with
  | done a =>
    cases h
    exact ⟨_, .nil, rfl⟩
  | panic cause =>
    cases h
    exact ⟨_, .nil, rfl⟩
  | call r next ih =>
    cases h with
    | nil => exact ⟨_, .nil, rfl⟩
    | @cons _ _ reply rest _ h =>
      obtain ⟨p', hp, hq⟩ := ih reply h
      exact ⟨p', .cons hp, hq⟩

/-- A process whose panic is caught asks nothing more for it. -/
theorem asks_attempt {p : Process ω α} {es : List (Exchange ω)} {r : Request ω}
    (h : Asks p.attempt es r) : Asks p es r := by
  obtain ⟨next, h⟩ := h
  obtain ⟨p', hp, hq⟩ := runs_attempt h
  cases p' with
  | done a => cases hq
  | panic cause => cases hq
  | call r' next' =>
    cases hq
    exact ⟨next', hp⟩

/-- What a caught process returns without a panic it returns by itself. -/
theorem returns_attempt {p : Process ω α} {es : List (Exchange ω)} {a : α}
    (h : Returns p.attempt es (.ok a)) : Returns p es a := by
  obtain ⟨p', hp, hq⟩ := runs_attempt h
  cases p' with
  | done a' =>
    cases hq
    exact hp
  | panic cause => cases hq
  | call r next => cases hq

/-- A process with a last action asks in the process or in the last action. -/
theorem asks_followedBy {p : Process ω α} {last : Process ω Unit} {es : List (Exchange ω)}
    {r : Request ω} (h : Asks (p.followedBy last) es r) :
    Asks p es r ∨ ∃ xs ys, es = xs ++ ys ∧ Asks last ys r := by
  rcases asks_bind h with h | ⟨xs, ys, outcome, rfl, -, h⟩
  · exact .inl (asks_attempt h)
  · rcases asks_bind h with h | ⟨xs', ys', _, rfl, -, h⟩
    · exact .inr ⟨xs, ys, rfl, h⟩
    · cases outcome with
      | ok a => exact absurd h not_asks_done
      | error cause => exact absurd h not_asks_panic

/-- When a process returns with its last request, it has returned before that. -/
theorem returns_followedBy {p : Process ω α} {last : Process ω Unit} {es : List (Exchange ω)}
    {a : α} (h : Returns (p.followedBy last) es a) :
    ∃ xs ys, es = xs ++ ys ∧ Returns p xs a := by
  obtain ⟨xs, ys, outcome, rfl, hp, h⟩ := returns_bind h
  obtain ⟨xs', ys', _, rfl, -, h⟩ := returns_bind h
  cases outcome with
  | ok a' =>
    cases h
    exact ⟨xs, _, rfl, returns_attempt hp⟩
  | error cause => cases h

/-! ## Parts that may fail -/

/-- A sequence of actions goes on only after a success. -/
theorem run_bind (x : Action ω ε α) (f : α → Action ω ε β) :
    (x >>= f).run = x.run.bind fun
      | .ok a => (f a).run
      | .error e => .done (.error e) := by
  show x.run.bind (ExceptT.bindCont f) = _
  congr 1

/-- A process that is run as an action succeeds with what it returns. -/
theorem run_lift (p : Process ω α) :
    (ExceptT.lift p : Action ω ε α).run = p.bind fun a => .done (.ok a) := rfl

/-- A sequence of actions asks what its first part asks, or the second after its success. -/
theorem asks_run_bind {x : Action ω ε α} {f : α → Action ω ε β} {es : List (Exchange ω)}
    {r : Request ω} (h : Asks (x >>= f).run es r) :
    Asks x.run es r ∨
      ∃ xs ys a, es = xs ++ ys ∧ Returns x.run xs (.ok a) ∧ Asks (f a).run ys r := by
  rw [run_bind] at h
  rcases asks_bind h with h | ⟨xs, ys, outcome, hes, hx, h⟩
  · exact .inl h
  · cases outcome with
    | ok a => exact .inr ⟨xs, ys, a, hes, hx, h⟩
    | error e => exact absurd h not_asks_done

/-- A sequence of actions succeeds when its first part does, and then its second. -/
theorem returns_run_bind {x : Action ω ε α} {f : α → Action ω ε β} {es : List (Exchange ω)} {b : β}
    (h : Returns (x >>= f).run es (.ok b)) :
    ∃ xs ys a, es = xs ++ ys ∧ Returns x.run xs (.ok a) ∧ Returns (f a).run ys (.ok b) := by
  rw [run_bind] at h
  obtain ⟨xs, ys, outcome, hes, hx, h⟩ := returns_bind h
  cases outcome with
  | ok a => exact ⟨xs, ys, a, hes, hx, h⟩
  | error e => cases h

/-- A process that is run as an action asks nothing more for it. -/
theorem asks_lift {p : Process ω α} {es : List (Exchange ω)} {r : Request ω}
    (h : Asks (ExceptT.lift p : Action ω ε α).run es r) : Asks p es r := by
  rw [run_lift] at h
  rcases asks_bind h with h | ⟨xs, ys, a, -, -, h⟩
  · exact h
  · exact absurd h not_asks_done

/-- The action that gives a value succeeds with it at once. -/
theorem returns_pure {a b : α} {es : List (Exchange ω)}
    (h : Returns (pure a : Action ω ε α).run es (.ok b)) : es = [] ∧ b = a := by
  cases h
  exact ⟨rfl, rfl⟩

/-- An action that fails does not succeed. -/
theorem not_returns_throw {e : ε} {a : α} {es : List (Exchange ω)} :
    ¬ Returns (throw e : Action ω ε α).run es (.ok a) := by
  intro h
  cases h

/-- The action that gives a value asks nothing. -/
theorem not_asks_pure {a : α} {es : List (Exchange ω)} {r : Request ω} :
    ¬ Asks (pure a : Action ω ε α).run es r := not_asks_done

/-- An action that fails asks nothing. -/
theorem not_asks_throw {e : ε} {es : List (Exchange ω)} {r : Request ω} :
    ¬ Asks (throw e : Action ω ε α).run es r := not_asks_done

/-- An action of the store asks nothing more for having its errors wrapped. -/
theorem asks_storing {x : Action ω StoreError α} {es : List (Exchange ω)} {r : Request ω}
    (h : Asks (storing x).run es r) : Asks x.run es r := by
  rcases asks_bind h with h | ⟨xs, ys, a, -, -, h⟩
  · exact h
  · exact absurd h not_asks_done

/-- An action of the store succeeds under the errors of a queue only if it succeeds by itself. -/
theorem returns_storing {x : Action ω StoreError α} {es : List (Exchange ω)} {a : α}
    (h : Returns (storing x).run es (.ok a)) : Returns x.run es (.ok a) := by
  obtain ⟨xs, ys, outcome, rfl, hx, h⟩ := returns_bind h
  cases outcome with
  | ok a' =>
    cases h
    rw [List.append_nil]
    exact hx
  | error e => cases h

/-- A transaction for one part is opened first and abandoned last. -/
theorem asks_withTransaction {shard : ShardId} {body : Handle → Action ω QueueError α}
    {es : List (Exchange ω)} {r : Request ω} (h : Asks (withTransaction shard body).run es r) :
    Asks (Session.begin shard : Action ω StoreError Handle).run es r ∨
      ∃ xs ys tx, es = xs ++ ys ∧
        Returns (Session.begin shard : Action ω StoreError Handle).run xs (.ok tx) ∧
        (Asks (body tx).run ys r ∨ r = .abandon tx) := by
  rcases asks_run_bind h with h | ⟨xs, ys, tx, rfl, hbegin, h⟩
  · exact .inl (asks_storing h)
  · refine .inr ⟨xs, ys, tx, rfl, returns_storing hbegin, ?_⟩
    have hinside : Asks ((body tx).run.followedBy (.ask (.abandon tx))) ys r := h
    rcases asks_followedBy hinside with hbody | ⟨xs', ys', -, hlast⟩
    · exact .inl hbody
    · exact .inr (asks_ask hlast).2

/-- What succeeds in a transaction of its own has begun one and succeeded in it. -/
theorem returns_withTransaction {shard : ShardId} {body : Handle → Action ω QueueError α}
    {es : List (Exchange ω)} {a : α} (h : Returns (withTransaction shard body).run es (.ok a)) :
    ∃ xs ys zs tx, es = xs ++ (ys ++ zs) ∧
      Returns (Session.begin shard : Action ω StoreError Handle).run xs (.ok tx) ∧
      Returns (body tx).run ys (.ok a) := by
  obtain ⟨xs, ys, tx, rfl, hbegin, h⟩ := returns_run_bind h
  have hinside : Returns ((body tx).run.followedBy (.ask (.abandon tx))) ys (.ok a) := h
  obtain ⟨ys', zs, hys, hbody⟩ := returns_followedBy hinside
  exact ⟨xs, ys', zs, tx, by rw [hys], returns_storing hbegin, hbody⟩

/-! ## Requests of one kind -/

/-- Whatever it is told, the process asks nothing but what is allowed. -/
def Only (allowed : Request ω → Prop) : Process ω α → Prop
  | .done _ => True
  | .panic _ => True
  | .call r next => allowed r ∧ ∀ reply, (next reply).Only allowed

section Only

variable {allowed : Request ω → Prop}

/-- What a process asks is among what it may ask. -/
theorem Only.of_asks {p : Process ω α} (h : p.Only allowed) {es : List (Exchange ω)}
    {r : Request ω} (hasks : Asks p es r) : allowed r := by
  obtain ⟨next, hruns⟩ := hasks
  -- the induction is on the run, so what is left at its end has to be a variable
  generalize hq : Process.call r next = q at hruns
  induction hruns with
  | nil =>
    subst hq
    exact h.1
  | cons _ ih => exact ih (h.2 _) hq

/-- A process may as well be allowed more. -/
theorem Only.mono {allowed' : Request ω → Prop} {p : Process ω α} (h : p.Only allowed)
    (hallowed : ∀ r, allowed r → allowed' r) : p.Only allowed' := by
  induction p with
  | done a => trivial
  | panic cause => trivial
  | call r next ih => exact ⟨hallowed r h.1, fun reply => ih reply (h.2 reply)⟩

/-- A sequence asks only what is allowed if both of its parts do. -/
theorem only_bind {p : Process ω α} {f : α → Process ω β} (hp : p.Only allowed)
    (hf : ∀ a, (f a).Only allowed) : (p.bind f).Only allowed := by
  induction p with
  | done a => exact hf a
  | panic cause => trivial
  | call r next ih => exact ⟨hp.1, fun reply => ih reply (hp.2 reply)⟩

/-- A caught process asks only what is allowed if the process does. -/
theorem only_attempt {p : Process ω α} (hp : p.Only allowed) : p.attempt.Only allowed := by
  induction p with
  | done a => trivial
  | panic cause => trivial
  | call r next ih => exact ⟨hp.1, fun reply => ih reply (hp.2 reply)⟩

/-- A process with a last request asks only what is allowed if both do. -/
theorem only_followedBy {p : Process ω α} {last : Process ω Unit} (hp : p.Only allowed)
    (hlast : last.Only allowed) : (p.followedBy last).Only allowed := by
  refine only_bind (only_attempt hp) fun outcome => only_bind hlast fun _ => ?_
  cases outcome <;> trivial

/-- A single request that is allowed is all that is asked. -/
theorem only_ask {r : Request ω} (hr : allowed r) : (ask r).Only allowed :=
  ⟨hr, fun _ => trivial⟩

/-- An observer asks only what is allowed where every report is. -/
theorem only_react (hreport : ∀ notice, allowed (.report notice)) (r : Reaction) :
    (react r : Process ω Unit).Only allowed := by
  unfold react
  induction r.notices with
  | nil =>
    simp only [List.foldr_nil]
    split <;> trivial
  | cons notice rest ih => exact ⟨hreport notice, fun _ => ih⟩

/-- A sequence of actions asks only what is allowed if both of its parts do. -/
theorem only_run_bind {x : Action ω ε α} {f : α → Action ω ε β} (hx : x.run.Only allowed)
    (hf : ∀ a, (f a).run.Only allowed) : (x >>= f).run.Only allowed := by
  rw [run_bind]
  refine only_bind hx fun outcome => ?_
  cases outcome with
  | ok a => exact hf a
  | error e => trivial

/-- A process that is run as an action asks only what the process asks. -/
theorem only_lift {p : Process ω α} (hp : p.Only allowed) :
    (ExceptT.lift p : Action ω ε α).run.Only allowed :=
  only_bind hp fun _ => trivial

/-- An action of the store asks the same under the errors of a queue. -/
theorem only_storing {x : Action ω StoreError α} (hx : x.run.Only allowed) :
    (storing x).run.Only allowed :=
  only_bind hx fun _ => trivial

/-- What goes on in a transaction of its own asks only what is allowed, if its beginning, its body
and its abandonment do. -/
theorem only_withTransaction {shard : ShardId} {body : Handle → Action ω QueueError α}
    (hbegin : (Session.begin shard : Action ω StoreError Handle).run.Only allowed)
    (hbody : ∀ tx, (body tx).run.Only allowed) (habandon : ∀ tx, allowed (.abandon tx)) :
    (withTransaction shard body).run.Only allowed :=
  only_run_bind (only_storing hbegin) fun tx => only_followedBy (hbody tx) (only_ask (habandon tx))

end Only

end Process

end LeaseQueue
