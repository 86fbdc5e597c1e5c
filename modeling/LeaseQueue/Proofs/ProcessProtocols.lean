import LeaseQueue.Proofs.ProcessRuns

/-!
# Processes that keep to a protocol

A protocol gives a process a state: it says which requests the state permits and what the state is
after an answer.  `Follows` says that a process never asks what its state does not permit, whatever
it is told, and what the state is when it ends.

For every way to put processes together there is a rule, so a program of the engine is shown to
follow a protocol part by part.  `follows_runs` carries the result to what is left of a process in
the middle of a run.
-/

set_option autoImplicit false

namespace LeaseQueue

/-- What a process may ask, given what it has asked and been told. -/
structure Protocol (ω σ : Type) where
  permits : σ → Request ω → Prop
  after : σ → Exchange ω → σ
  /-- The answers that are to be expected. -/
  trusts : Exchange ω → Prop

/-- A request is permitted, and no answer to it changes the state. -/
def Protocol.Idle {ω σ : Type} (P : Protocol ω σ) (s : σ) (r : Request ω) : Prop :=
  P.permits s r ∧ ∀ reply, P.after s ⟨r, reply⟩ = s

namespace Process

variable {ω σ α β : Type} {P : Protocol ω σ}

/-- The process asks only what is permitted, and ends in a state that goes with its outcome. -/
def Follows (P : Protocol ω σ) (Q : Except Panic α → σ → Prop) : Process ω α → σ → Prop
  | .done a, s => Q (.ok a) s
  | .panic cause, s => Q (.error cause) s
  | .call r next, s => P.permits s r ∧
    ∀ reply, P.trusts ⟨r, reply⟩ → (next reply).Follows P Q (P.after s ⟨r, reply⟩)

/-- A process that follows a protocol to its ends follows it to any weaker ones. -/
theorem Follows.mono {p : Process ω α} {s : σ} {Q Q' : Except Panic α → σ → Prop}
    (h : p.Follows P Q s) (hQ : ∀ o s', Q o s' → Q' o s') : p.Follows P Q' s := by
  induction p generalizing s with
  | done a => exact hQ _ _ h
  | panic cause => exact hQ _ _ h
  | call r next ih => exact ⟨h.1, fun reply htrusts => ih reply (h.2 reply htrusts)⟩

/-- What is left of a process goes on following the protocol from the state it has come to. -/
theorem follows_runs {p q : Process ω α} {es : List (Exchange ω)} {s : σ}
    {Q : Except Panic α → σ → Prop} (h : p.Follows P Q s) (hruns : Runs p es q)
    (htrusts : ∀ x ∈ es, P.trusts x) : q.Follows P Q (es.foldl P.after s) := by
  induction hruns generalizing s with
  | nil => exact h
  | @cons r next reply rest q _ ih =>
    have hthis : P.trusts ⟨r, reply⟩ := htrusts _ List.mem_cons_self
    have hrest : ∀ x ∈ rest, P.trusts x := fun x hx => htrusts x (List.mem_cons_of_mem _ hx)
    exact ih (h.2 reply hthis) hrest

/-- Two processes follow a protocol in sequence when the second takes it up where the first ends. -/
theorem follows_bind {p : Process ω α} {f : α → Process ω β} {s : σ}
    {R : Except Panic α → σ → Prop} {Q : Except Panic β → σ → Prop} (h : p.Follows P R s)
    (hok : ∀ a s', R (.ok a) s' → (f a).Follows P Q s')
    (hpanic : ∀ cause s', R (.error cause) s' → Q (.error cause) s') :
    (p.bind f).Follows P Q s := by
  induction p generalizing s with
  | done a => exact hok a s h
  | panic cause => exact hpanic cause s h
  | call r next ih => exact ⟨h.1, fun reply htrusts => ih reply (h.2 reply htrusts)⟩

/-- A process whose panic is caught follows the protocol that it follows. -/
theorem follows_attempt {p : Process ω α} {s : σ} {R : Except Panic α → σ → Prop}
    {Q : Except Panic (Except Panic α) → σ → Prop} (h : p.Follows P R s)
    (hQ : ∀ o s', R o s' → Q (.ok o) s') : p.attempt.Follows P Q s := by
  induction p generalizing s with
  | done a => exact hQ _ _ h
  | panic cause => exact hQ _ _ h
  | call r next ih => exact ⟨h.1, fun reply htrusts => ih reply (h.2 reply htrusts)⟩

/-- A last request is asked in the state that the process has come to, whatever its outcome. -/
theorem follows_followedBy {p : Process ω α} {last : Process ω Unit} {s : σ}
    {R Q : Except Panic α → σ → Prop} (h : p.Follows P R s)
    (hlast : ∀ o s', R o s' → last.Follows P (fun result s'' => result = .ok () ∧ Q o s'') s') :
    (p.followedBy last).Follows P Q s := by
  have hattempt : p.attempt.Follows P (fun result s' => ∃ o, result = .ok o ∧ R o s') s :=
    follows_attempt h fun o s' hR => ⟨o, rfl, hR⟩
  refine follows_bind hattempt ?_ ?_
  · rintro outcome s' ⟨o, heq, hR⟩
    cases heq
    refine follows_bind (hlast outcome s' hR) ?_ ?_
    · rintro u s'' ⟨-, hQ⟩
      cases outcome with
      | ok a => exact hQ
      | error cause => exact hQ
    · rintro cause s'' ⟨heq, -⟩
      cases heq
  · rintro cause s' ⟨o, heq, -⟩
    cases heq

/-! ## Requests that leave the state as it is -/

/-- A process that asks only what leaves the protocol where it is stays where it is. -/
theorem follows_of_only {p : Process ω α} {s : σ} (h : p.Only (P.Idle s)) :
    p.Follows P (fun _ s' => s' = s) s := by
  induction p with
  | done a => rfl
  | panic cause => rfl
  | call r next ih =>
    refine ⟨h.1.1, fun reply _ => ?_⟩
    rw [h.1.2 reply]
    exact ih reply (h.2 reply)

end Process

/-! ## Parts that may fail -/

namespace Action

open Process

variable {ω σ ε α β : Type} {P : Protocol ω σ}

/-- What holds of the state at the end of a part: that it returns, or else that it fails or
panics. -/
def post (Q : α → σ → Prop) (E : σ → Prop) : Except Panic (Except ε α) → σ → Prop
  | .ok (.ok a), s => Q a s
  | .ok (.error _), s => E s
  | .error _, s => E s

/-- A part keeps to a protocol. -/
def Follows (P : Protocol ω σ) (Q : α → σ → Prop) (E : σ → Prop) (x : Action ω ε α) (s : σ) : Prop :=
  x.run.Follows P (post Q E) s

variable {Q : α → σ → Prop} {E : σ → Prop} {s : σ}

/-- An action that follows a protocol to its ends follows it to any weaker ones. -/
theorem Follows.mono {x : Action ω ε α} {Q' : α → σ → Prop} {E' : σ → Prop}
    (h : Follows P Q E x s) (hQ : ∀ a s', Q a s' → Q' a s') (hE : ∀ s', E s' → E' s') :
    Follows P Q' E' x s := by
  refine Process.Follows.mono h ?_
  rintro (cause | e | a) s' ho
  · exact hE s' ho
  · exact hE s' ho
  · exact hQ a s' ho

/-- Two actions follow a protocol in sequence when the second takes it up where the first succeeds.
-/
theorem follows_bind {x : Action ω ε α} {f : α → Action ω ε β} {R : α → σ → Prop}
    {Q : β → σ → Prop} (h : Follows P R E x s) (hf : ∀ a s', R a s' → Follows P Q E (f a) s') :
    Follows P Q E (x >>= f) s := by
  unfold Follows
  rw [run_bind]
  refine Process.follows_bind h ?_ ?_
  · rintro (e | a) s' ho
    · exact ho
    · exact hf a s' ho
  · intro cause s' ho
    exact ho

/-- A process that is run as an action follows the protocol that it follows. -/
theorem follows_lift {p : Process ω α}
    (h : p.Follows P (fun o s' => match o with | .ok a => Q a s' | .error _ => E s') s) :
    Follows P Q E (ExceptT.lift p : Action ω ε α) s := by
  unfold Follows
  rw [run_lift]
  refine Process.follows_bind h ?_ ?_
  · intro a s' ha
    exact ha
  · intro cause s' hE
    exact hE

/-- An action of the store follows its protocol under the errors of a queue too. -/
theorem follows_storing {x : Action ω StoreError α} (h : Follows P Q E x s) :
    Follows P Q E (storing x) s := by
  refine Process.follows_bind h ?_ ?_
  · rintro (e | a) s' ho
    · exact ho
    · exact ho
  · intro cause s' ho
    exact ho

/-- A part that leaves the state as it is at each of its requests. -/
theorem follows_of_only {x : Action ω ε α} (h : x.run.Only (P.Idle s)) :
    Follows P (fun _ s' => s' = s) (fun s' => s' = s) x s := by
  refine (Process.follows_of_only h).mono ?_
  rintro (cause | e | a) s' heq
  · exact heq
  · exact heq
  · exact heq

end Action

end LeaseQueue
