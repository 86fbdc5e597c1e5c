import LeaseQueue.World.Schedule
import LeaseQueue.Proofs.EngineTransactions

/-!
# Processes that come to their end among others

A process runs in a world while others use the stores as they like, as long as they do not act in
its own transactions.  `Process.Completes` says how such a run may go from the beginning of a
process to its end, and keeps what the process has done itself: each of its requests with the worlds
before and after it (`Deal`).  The process may be of any kind, and so may the worlds.

For every way to put processes together there is a lemma that takes a run of the whole apart into
runs of the parts.  What holds of a transaction of the process goes on to hold while others act
(`World.Elsewhere.spared`).
-/

set_option autoImplicit false

namespace LeaseQueue

variable {ω α β γ ε : Type}

/-! ## What others do -/

/-- Others have acted on the stores, but in none of these transactions.  All but the stores may have
changed, only that no shard has come or gone. -/
structure World.Elsewhere (own : List Handle) (w w' : World ω β) : Prop where
  shards : ∀ s, w'.shards.contains s = w.shards.contains s
  stores : ∀ s, ∃ actions : List Store.Action, w'.store s = (w.store s).run actions ∧
    ∀ a ∈ actions, ∀ t, a.transaction? = some t → (⟨s, t⟩ : Handle) ∉ own

namespace World.Elsewhere

variable {own : List Handle} {w w' w'' : World ω β}

/-- Worlds with the same shards and stores differ elsewhere only. -/
theorem of_stores (hshards : ∀ s, w'.shards.contains s = w.shards.contains s)
    (hstores : ∀ s, w'.store s = w.store s) : w.Elsewhere own w' :=
  ⟨hshards, fun s => ⟨[], hstores s, fun _ ha => absurd ha List.not_mem_nil⟩⟩

/-- A world does not differ from itself. -/
theorem refl (own : List Handle) (w : World ω β) : w.Elsewhere own w :=
  of_stores (fun _ => rfl) fun _ => rfl

/-- What others do first and what they do then are together something that others do. -/
theorem trans (h : w.Elsewhere own w') (h' : w'.Elsewhere own w'') : w.Elsewhere own w'' where
  shards s := (h'.shards s).trans (h.shards s)
  stores s := by
    obtain ⟨xs, hxs, hothers⟩ := h.stores s
    obtain ⟨ys, hys, hothers'⟩ := h'.stores s
    refine ⟨xs ++ ys, by rw [Store.run_append, ← hxs, hys], fun a ha => ?_⟩
    rcases List.mem_append.1 ha with ha | ha
    · exact hothers a ha
    · exact hothers' a ha

/-- A request that has to wait changes nothing that others could not. -/
theorem of_wait {jobProgram : ω → Process ω Unit} {id : FiberId} {r : Request ω} {condition : Wait}
    (h : w.perform jobProgram id r = (w', .wait condition)) : w.Elsewhere own w' := by
  have hsame := (World.perform_wait h).1
  refine of_stores (fun s => by rw [hsame]) fun s => ?_
  unfold World.store
  rw [hsame]

end World.Elsewhere

/-! ## Runs to the end -/

/-- A request of a process with its answer, and the worlds before and after it. -/
structure Deal (ω β : Type) where
  before : World ω β
  exchange : Exchange ω
  after : World ω β

/-- The transaction that an exchange has opened. -/
def Exchange.opened? : Exchange ω → Option Handle
  | ⟨.begin _, reply⟩ => (reply : Except StoreError Handle).toOption
  | _ => none

/-- The transactions of a process after some more of its deals. -/
def ownAfter (own : List Handle) (t : List (Deal ω β)) : List Handle :=
  t.foldl (fun own d => d.exchange.opened?.toList ++ own) own

/-- What is owned after two stretches is owned after the second, from what is owned after the first.
-/
theorem ownAfter_append (own : List Handle) (xs ys : List (Deal ω β)) :
    ownAfter own (xs ++ ys) = ownAfter (ownAfter own xs) ys :=
  List.foldl_append

/-- A stretch in which nothing is opened leaves what is owned as it is. -/
theorem ownAfter_of_forall {own : List Handle} {t : List (Deal ω β)}
    (h : ∀ d ∈ t, d.exchange.opened? = none) : ownAfter own t = own := by
  induction t with
  | nil => rfl
  | cons d rest ih =>
    unfold ownAfter
    rw [List.foldl_cons, h d List.mem_cons_self]
    exact ih fun d' hd' => h d' (List.mem_cons_of_mem _ hd')

namespace Process

/-- A process with some transactions of its own goes from a world on to its end, through these
deals; others act in between. -/
inductive Completes (jobProgram : ω → Process ω Unit) (id : FiberId) :
    List Handle → Process ω γ → World ω β → List (Deal ω β) → Except Panic γ → World ω β → Prop
  | done {own : List Handle} {a : γ} {w : World ω β} :
    Completes jobProgram id own (.done a) w [] (.ok a) w
  | panic {own : List Handle} {cause : Panic} {w : World ω β} :
    Completes jobProgram id own (.panic cause) w [] (.error cause) w
  | told {own : List Handle} {r : Request ω} {next : r.Reply → Process ω γ} {reply : r.Reply}
    {w w' w'' : World ω β} {t : List (Deal ω β)} {o : Except Panic γ}
    (hanswer : w.perform jobProgram id r = (w', .answer reply))
    (h : Completes jobProgram id ((Exchange.opened? ⟨r, reply⟩).toList ++ own) (next reply) w' t o
      w'') :
    Completes jobProgram id own (.call r next) w (⟨w, ⟨r, reply⟩, w'⟩ :: t) o w''
  /-- The request has to be asked again later. -/
  | waits {own : List Handle} {r : Request ω} {next : r.Reply → Process ω γ} {condition : Wait}
    {w w' w'' : World ω β} {t : List (Deal ω β)} {o : Except Panic γ}
    (hwait : w.perform jobProgram id r = (w', .wait condition))
    (h : Completes jobProgram id own (.call r next) w' t o w'') :
    Completes jobProgram id own (.call r next) w t o w''
  | meanwhile {own : List Handle} {p : Process ω γ} {w w' w'' : World ω β} {t : List (Deal ω β)}
    {o : Except Panic γ} (hothers : w.Elsewhere own w')
    (h : Completes jobProgram id own p w' t o w'') : Completes jobProgram id own p w t o w''

variable {jobProgram : ω → Process ω Unit} {id : FiberId} {own : List Handle}
  {w w' w'' : World ω β} {t : List (Deal ω β)}

/-- Others may act after the end as well. -/
theorem Completes.later {p : Process ω γ} {o : Except Panic γ}
    (h : Completes jobProgram id own p w t o w') (hothers : w'.Elsewhere (ownAfter own t) w'') :
    Completes jobProgram id own p w t o w'' := by
  induction h with
  | done => exact .meanwhile hothers .done
  | panic => exact .meanwhile hothers .panic
  | told hanswer _ ih => exact .told hanswer (ih hothers)
  | waits hwait _ ih => exact .waits hwait (ih hothers)
  | meanwhile hbefore _ ih => exact .meanwhile hbefore (ih hothers)

/-- The turn of a process in which it ends is a run to its end. -/
theorem completes_of_run {p : Process ω γ} {o : Except Panic γ}
    (h : w.run jobProgram id p = (w', .ended o)) (own : List Handle) :
    ∃ t, Completes jobProgram id own p w t o w' := by
  induction p generalizing w own with
  | done a =>
    cases h
    exact ⟨[], .done⟩
  | panic cause =>
    cases h
    exact ⟨[], .panic⟩
  | call r next ih =>
    unfold World.run at h
    split at h
    · next w₁ reply hanswer =>
      have hwake : ∀ own, w₁.Elsewhere own w₁.wake := fun own => .of_stores (fun _ => rfl) fun _ => rfl
      obtain ⟨t, hrest⟩ := ih reply h ((Exchange.opened? ⟨r, reply⟩).toList ++ own)
      exact ⟨_, .told hanswer (.meanwhile (hwake _) hrest)⟩
    · cases h

/-- A process that is done asks nothing more. -/
theorem completes_done {a : γ} {o : Except Panic γ}
    (h : Completes jobProgram id own (.done a) w t o w') :
    t = [] ∧ o = .ok a ∧ w.Elsewhere own w' := by
  generalize hp : Process.done a = p at h
  induction h with
  | done =>
    cases hp
    exact ⟨rfl, rfl, .refl _ _⟩
  | panic => cases hp
  | told => cases hp
  | waits => cases hp
  | meanwhile hothers _ ih =>
    obtain ⟨rfl, rfl, hlater⟩ := ih hp
    exact ⟨rfl, rfl, hothers.trans hlater⟩

/-- A process that has panicked asks nothing more. -/
theorem completes_panic {cause : Panic} {o : Except Panic γ}
    (h : Completes jobProgram id own (.panic cause) w t o w') :
    t = [] ∧ o = .error cause ∧ w.Elsewhere own w' := by
  generalize hp : Process.panic cause = p at h
  induction h with
  | done => cases hp
  | panic =>
    cases hp
    exact ⟨rfl, rfl, .refl _ _⟩
  | told => cases hp
  | waits => cases hp
  | meanwhile hothers _ ih =>
    obtain ⟨rfl, rfl, hlater⟩ := ih hp
    exact ⟨rfl, rfl, hothers.trans hlater⟩

/-- A request is answered once, whatever others do before and after. -/
theorem completes_call {r : Request ω} {next : r.Reply → Process ω γ} {o : Except Panic γ}
    (h : Completes jobProgram id own (.call r next) w t o w') :
    ∃ w₁ reply w₂ rest, w.Elsewhere own w₁ ∧ w₁.perform jobProgram id r = (w₂, .answer reply) ∧
      t = ⟨w₁, ⟨r, reply⟩, w₂⟩ :: rest ∧
      Completes jobProgram id ((Exchange.opened? ⟨r, reply⟩).toList ++ own) (next reply) w₂ rest o
        w' := by
  generalize hp : Process.call r next = p at h
  induction h with
  | done => cases hp
  | panic => cases hp
  | told hanswer h =>
    cases hp
    exact ⟨_, _, _, _, .refl _ _, hanswer, rfl, h⟩
  | waits hwait _ ih =>
    obtain ⟨w₁, reply, w₂, rest, hbefore, h⟩ := ih hp
    exact ⟨w₁, reply, w₂, rest, (World.Elsewhere.of_wait hwait).trans hbefore, h⟩
  | meanwhile hothers _ ih =>
    obtain ⟨w₁, reply, w₂, rest, hbefore, h⟩ := ih hp
    exact ⟨w₁, reply, w₂, rest, hothers.trans hbefore, h⟩

/-- A single request is answered at one point, and others act before and after it. -/
theorem completes_ask {r : Request ω} {o : Except Panic r.Reply}
    (h : Completes jobProgram id own (ask r) w t o w') :
    ∃ w₁ reply w₂, w.Elsewhere own w₁ ∧ w₁.perform jobProgram id r = (w₂, .answer reply) ∧
      t = [⟨w₁, ⟨r, reply⟩, w₂⟩] ∧ o = .ok reply ∧
      w₂.Elsewhere ((Exchange.opened? ⟨r, reply⟩).toList ++ own) w' := by
  obtain ⟨w₁, reply, w₂, rest, hbefore, hanswer, rfl, hrest⟩ := completes_call h
  obtain ⟨rfl, rfl, hafter⟩ := completes_done hrest
  exact ⟨w₁, reply, w₂, hbefore, hanswer, rfl, rfl, hafter⟩

/-- A run of two processes, one after the other, goes through both or ends in a panic of the first
one. -/
theorem completes_bind {δ : Type} {p : Process ω γ} {f : γ → Process ω δ} {o : Except Panic δ}
    (h : Completes jobProgram id own (p.bind f) w t o w') :
    (∃ a xs ys w₁, t = xs ++ ys ∧ Completes jobProgram id own p w xs (.ok a) w₁ ∧
      Completes jobProgram id (ownAfter own xs) (f a) w₁ ys o w') ∨
    ∃ cause, o = .error cause ∧ Completes jobProgram id own p w t (.error cause) w' := by
  generalize hq : p.bind f = q at h
  induction h generalizing p with
  | done =>
    cases p with
    | done a => exact .inl ⟨a, [], [], _, rfl, .done, (show f a = _ from hq) ▸ .done⟩
    | panic cause => cases hq
    | call r next => cases hq
  | @panic own cause w =>
    cases p with
    | done a => exact .inl ⟨a, [], [], _, rfl, .done, (show f a = _ from hq) ▸ .panic⟩
    | panic cause' =>
      cases hq
      exact .inr ⟨_, rfl, .panic⟩
    | call r next => cases hq
  | told hanswer h ih =>
    cases p with
    | done a => exact .inl ⟨a, [], _, _, rfl, .done, (show f a = _ from hq) ▸ .told hanswer h⟩
    | panic cause => cases hq
    | call r next =>
      cases hq
      rcases ih rfl with ⟨a, xs, ys, w₁, rfl, hp, hf⟩ | ⟨cause, rfl, hp⟩
      · exact .inl ⟨a, _ :: xs, ys, w₁, rfl, .told hanswer hp, hf⟩
      · exact .inr ⟨cause, rfl, .told hanswer hp⟩
  | waits hwait h ih =>
    cases p with
    | done a => exact .inl ⟨a, [], _, _, rfl, .done, (show f a = _ from hq) ▸ .waits hwait h⟩
    | panic cause => cases hq
    | call r next =>
      rcases ih hq with ⟨a, xs, ys, w₁, rfl, hp, hf⟩ | ⟨cause, rfl, hp⟩
      · cases hq
        exact .inl ⟨a, xs, ys, w₁, rfl, .waits hwait hp, hf⟩
      · cases hq
        exact .inr ⟨cause, rfl, .waits hwait hp⟩
  | meanwhile hothers _ ih =>
    rcases ih hq with ⟨a, xs, ys, w₁, rfl, hp, hf⟩ | ⟨cause, rfl, hp⟩
    · exact .inl ⟨a, xs, ys, w₁, rfl, .meanwhile hothers hp, hf⟩
    · exact .inr ⟨cause, rfl, .meanwhile hothers hp⟩

/-- An attempt completes as the process does that it guards. -/
theorem completes_attempt {p : Process ω γ} {o : Except Panic (Except Panic γ)}
    (h : Completes jobProgram id own p.attempt w t o w') :
    ∃ o', o = .ok o' ∧ Completes jobProgram id own p w t o' w' := by
  generalize hq : p.attempt = q at h
  induction h generalizing p with
  | done =>
    cases p with
    | done a =>
      cases hq
      exact ⟨_, rfl, .done⟩
    | panic cause =>
      cases hq
      exact ⟨_, rfl, .panic⟩
    | call r next => cases hq
  | panic => cases p <;> cases hq
  | told hanswer _ ih =>
    cases p with
    | done a => cases hq
    | panic cause => cases hq
    | call r next =>
      cases hq
      obtain ⟨o', rfl, hp⟩ := ih rfl
      exact ⟨o', rfl, .told hanswer hp⟩
  | waits hwait _ ih =>
    cases p with
    | done a => cases hq
    | panic cause => cases hq
    | call r next =>
      obtain ⟨o', rfl, hp⟩ := ih hq
      cases hq
      exact ⟨o', rfl, .waits hwait hp⟩
  | meanwhile hothers _ ih =>
    obtain ⟨o', rfl, hp⟩ := ih hq
    exact ⟨o', rfl, .meanwhile hothers hp⟩

/-- A transaction that is abandoned in any case is abandoned once, at the very end. -/
theorem completes_followedBy {p : Process ω γ} {tx : Handle} {o : Except Panic γ}
    (h : Completes jobProgram id own (p.followedBy (ask (.abandon tx))) w t o w') :
    ∃ xs w₁ w₂, Completes jobProgram id own p w xs o w₁ ∧
      w₁.perform jobProgram id (.abandon tx) = (w₂, .answer ()) ∧
      t = xs ++ [⟨w₁, ⟨.abandon tx, ()⟩, w₂⟩] ∧ w₂.Elsewhere (ownAfter own xs) w' := by
  rcases completes_bind h with ⟨o', xs, ys, w₀, rfl, hcaught, hlast⟩ | ⟨cause, rfl, hcaught⟩
  · obtain ⟨o'', heq, hp⟩ := completes_attempt hcaught
    cases heq
    rcases completes_bind hlast with ⟨u, xs', ys', w₃, rfl, habandon, hend⟩ | ⟨cause, rfl, habandon⟩
    · obtain ⟨w₁, reply, w₂, hbefore, hanswer, rfl, -, hafter⟩ := completes_ask habandon
      refine ⟨xs, w₁, w₂, ?_, hanswer, ?_, ?_⟩
      · cases o' with
        | ok a =>
          obtain ⟨-, rfl, -⟩ := completes_done hend
          exact hp.later hbefore
        | error cause =>
          obtain ⟨-, rfl, -⟩ := completes_panic hend
          exact hp.later hbefore
      · cases o' with
        | ok a =>
          obtain ⟨rfl, -, -⟩ := completes_done hend
          rfl
        | error cause =>
          obtain ⟨rfl, -, -⟩ := completes_panic hend
          rfl
      · cases o' with
        | ok a => exact hafter.trans (completes_done hend).2.2
        | error cause => exact hafter.trans (completes_panic hend).2.2
    · obtain ⟨_, _, _, -, -, -, heq, -⟩ := completes_ask habandon
      cases heq
  · obtain ⟨_, heq, -⟩ := completes_attempt hcaught
    cases heq

/-! ### Parts that may fail -/

/-- A sequence completes as its first part and then its second, or as the first part alone. -/
theorem completes_run_bind {x : Action ω ε γ} {δ : Type} {f : γ → Action ω ε δ}
    {o : Except Panic (Except ε δ)} (h : Completes jobProgram id own (x >>= f).run w t o w') :
    (∃ a xs ys w₁, t = xs ++ ys ∧ Completes jobProgram id own x.run w xs (.ok (.ok a)) w₁ ∧
      Completes jobProgram id (ownAfter own xs) (f a).run w₁ ys o w') ∨
    (∃ e, o = .ok (.error e) ∧ Completes jobProgram id own x.run w t (.ok (.error e)) w') ∨
    ∃ cause, o = .error cause ∧ Completes jobProgram id own x.run w t (.error cause) w' := by
  rw [run_bind] at h
  rcases completes_bind h with ⟨outcome, xs, ys, w₁, rfl, hx, hf⟩ | ⟨cause, rfl, hx⟩
  · cases outcome with
    | ok a => exact .inl ⟨a, xs, ys, w₁, rfl, hx, hf⟩
    | error e =>
      obtain ⟨rfl, rfl, hafter⟩ := completes_done hf
      rw [List.append_nil]
      exact .inr (.inl ⟨e, rfl, hx.later hafter⟩)
  · exact .inr (.inr ⟨cause, rfl, hx⟩)

/-- What comes out of a process is only put differently. -/
theorem completes_map {δ : Type} {p : Process ω γ} {f : γ → δ} {o : Except Panic δ}
    (h : Completes jobProgram id own (p.bind fun a => .done (f a)) w t o w') :
    ∃ o', o = o'.map f ∧ Completes jobProgram id own p w t o' w' := by
  rcases completes_bind h with ⟨a, xs, ys, w₁, rfl, hp, hend⟩ | ⟨cause, rfl, hp⟩
  · obtain ⟨rfl, rfl, hafter⟩ := completes_done hend
    rw [List.append_nil]
    exact ⟨.ok a, rfl, hp.later hafter⟩
  · exact ⟨.error cause, rfl, hp⟩

/-- A process among actions completes as it does by itself. -/
theorem completes_lift {p : Process ω γ} {o : Except Panic (Except ε γ)}
    (h : Completes jobProgram id own (ExceptT.lift p : Action ω ε γ).run w t o w') :
    ∃ o', o = o'.map .ok ∧ Completes jobProgram id own p w t o' w' :=
  completes_map h

/-- An action on a store completes as it does by itself, with its error as that of the store. -/
theorem completes_storing {x : Action ω StoreError γ} {o : Except Panic (Except QueueError γ)}
    (h : Completes jobProgram id own (storing x).run w t o w') :
    ∃ o', o = o'.map (·.mapError QueueError.store) ∧ Completes jobProgram id own x.run w t o' w' :=
  completes_map h

/-- A reaction gives its notices and panics if it is to. -/
theorem completes_react {r : Reaction} {o : Except Panic Unit}
    (h : Completes jobProgram id own (react r) w t o w') :
    t.map Deal.exchange = r.notices.map (fun notice => ⟨.report notice, ()⟩) ∧
      ((o = .ok () ∧ r.panic = none) ∨ ∃ cause, o = .error cause ∧ r.panic = some cause) := by
  obtain ⟨notices, cause⟩ := r
  unfold react at h
  induction notices generalizing own w t with
  | nil =>
    cases cause with
    | none =>
      obtain ⟨rfl, rfl, -⟩ := completes_done h
      exact ⟨rfl, .inl ⟨rfl, rfl⟩⟩
    | some cause =>
      obtain ⟨rfl, rfl, -⟩ := completes_panic h
      exact ⟨rfl, .inr ⟨cause, rfl, rfl⟩⟩
  | cons notice rest ih =>
    obtain ⟨w₁, reply, w₂, rest', -, -, rfl, hrest⟩ := completes_call h
    obtain ⟨htold, hend⟩ := ih hrest
    exact ⟨congrArg (List.cons _) htold, hend⟩

/-! ### What is known of all deals -/

/-- A completed process has asked nothing but what it may ask. -/
theorem Completes.allowed {p : Process ω γ} {o : Except Panic γ}
    (h : Completes jobProgram id own p w t o w') {allowed : Request ω → Prop}
    (hp : p.Only allowed) : ∀ d ∈ t, allowed d.exchange.1 := by
  induction h with
  | done => exact fun d hd => absurd hd List.not_mem_nil
  | panic => exact fun d hd => absurd hd List.not_mem_nil
  | told _ _ ih =>
    intro d hd
    rcases List.mem_cons.1 hd with rfl | hd
    · exact hp.1
    · exact ih (hp.2 _) d hd
  | waits _ _ ih => exact ih hp
  | meanwhile _ _ ih => exact ih hp

/-- Every deal is what its request does to the world that it finds. -/
theorem Completes.performed {p : Process ω γ} {o : Except Panic γ}
    (h : Completes jobProgram id own p w t o w') :
    ∀ d ∈ t, d.before.perform jobProgram id d.exchange.1 = (d.after, .answer d.exchange.2) := by
  induction h with
  | done => exact fun d hd => absurd hd List.not_mem_nil
  | panic => exact fun d hd => absurd hd List.not_mem_nil
  | told hanswer _ ih =>
    intro d hd
    rcases List.mem_cons.1 hd with rfl | hd
    · exact hanswer
    · exact ih d hd
  | waits _ _ ih => exact ih
  | meanwhile _ _ ih => exact ih

end Process

/-! ## Transactions of one's own -/

namespace Store

/-- A transaction is as it was, and so are the rows that it has changed. -/
structure Sheltered (s s' : Store) (tx : TransactionId) : Prop where
  undisturbed : Undisturbed s s' tx
  content : ∀ {id}, id ∈ s.touched tx → s'.content id = s.content id

/-- A store shelters a transaction from nothing. -/
theorem Sheltered.refl (s : Store) (tx : TransactionId) : Sheltered s s tx :=
  ⟨.refl s tx, fun _ => rfl⟩

/-- Two stretches that spare a transaction are one that does. -/
theorem Sheltered.trans {s s' s'' : Store} {tx : TransactionId} (h : Sheltered s s' tx)
    (h' : Sheltered s' s'' tx) : Sheltered s s'' tx where
  undisturbed := ⟨h'.undisturbed.isOpen.trans h.undisturbed.isOpen,
    h'.undisturbed.journal.trans h.undisturbed.journal,
    fun hholder => (h'.undisturbed.rows hholder).trans (h.undisturbed.rows hholder)⟩
  content hid := by
    refine (h'.content ?_).trans (h.content hid)
    unfold touched at hid ⊢
    rwa [h.undisturbed.journal]

/-- What another transaction does spares this one. -/
theorem Change.sheltered {s s' : Store} {a : Action} {answer : Answer} {tx : TransactionId}
    (hs : s.WellFormed) (h : Change s a answer s') (hother : a.transaction? ≠ some tx)
    (hbegun : tx ≤ s.opened) : Sheltered s s' tx := by
  refine ⟨h.undisturbed hs hother hbegun, fun {id} hid => ?_⟩
  cases h with
  | idle => rfl
  | outage on => rfl
  | begun => rfl
  | @touched _ _ actor k _ _ ha htouch =>
    have hactor : tx ≠ actor := by
      rintro rfl
      exact hother ha
    refine htouch.content_of_ne ?_
    rintro rfl
    exact htouch.not_touched hs hactor hid
  | kept _ hcontent => exact hcontent id
  | @takenBack _ _ actor _ ha hended =>
    have hactor : tx ≠ actor := by
      rintro rfl
      rcases ha with ⟨rfl, -⟩ | ⟨rfl, -⟩
      · exact hother rfl
      · exact hother rfl
    exact hended.content_of_not_touched fun hid' => hactor (hs.disjoint hid hid')

/-- A run in which a transaction does not act spares it. -/
theorem sheltered_run {s : Store} (hs : s.WellFormed) {tx : TransactionId} (hbegun : tx ≤ s.opened)
    {actions : List Action} (hothers : ∀ a ∈ actions, a.transaction? ≠ some tx) :
    Sheltered s (s.run actions) tx := by
  induction actions generalizing s with
  | nil => exact ⟨.refl s tx, fun _ => rfl⟩
  | cons a rest ih =>
    have hstep := perform_step s a
    have hchange := step_change hs hstep
    exact (hchange.sheltered hs (hothers a List.mem_cons_self) hbegun).trans
      (ih (hs.step hstep) (Nat.le_trans hbegun hchange.opened_le)
        fun b hb => hothers b (List.mem_cons_of_mem _ hb))

/-- What is committed of the rows of a transaction stays the same while others act. -/
theorem Sheltered.committed {s s' : Store} {tx : TransactionId} (h : Sheltered s s' tx)
    (hs : s.WellFormed) (hs' : s'.WellFormed) {id : TaskId} (hid : id ∈ s.touched tx) :
    s'.committed id = s.committed id := by
  have hid' : id ∈ s'.touched tx := by
    unfold touched at hid ⊢
    rwa [h.undisturbed.journal]
  rw [hs'.committed_of_touched hid', hs.committed_of_touched hid]
  unfold restored entries
  rw [h.undisturbed.journal, h.content hid]

end Store

/-- The transactions of a process are as they were, and so are the rows that they have changed. -/
def World.Spared (own : List Handle) (w w' : World ω β) : Prop :=
  ∀ tx ∈ own, Store.Sheltered (w.store tx.shard) (w'.store tx.shard) tx.transaction

/-- Two stretches that spare transactions are one that does. -/
theorem World.Spared.trans {own : List Handle} {w w' w'' : World ω β} (h : w.Spared own w')
    (h' : w'.Spared own w'') : w.Spared own w'' :=
  fun tx hown => (h tx hown).trans (h' tx hown)

/-- The stores of a world are such as any use brings them about, the transactions of a process have
begun in them, and the shard that it uses is there. -/
structure World.Fit (w : World ω β) (home : ShardId) (own : List Handle) : Prop where
  wellFormed : ∀ s, (w.store s).WellFormed
  begun : ∀ tx ∈ own, tx.transaction ≤ (w.store tx.shard).opened
  there : w.shards.contains home = true

/-- The request opens no transaction elsewhere. -/
def Request.OpensAt (home : ShardId) : Request ω → Prop
  | .begin shard => shard = home
  | _ => True

namespace World

variable {w w' : World ω β} {own : List Handle} {home : ShardId}

/-- What happens elsewhere spares one's own transactions. -/
theorem Elsewhere.spared (h : w.Elsewhere own w') (hfit : w.Fit home own) : w.Spared own w' := by
  intro tx hown
  obtain ⟨actions, hstore, hothers⟩ := h.stores tx.shard
  rw [hstore]
  exact Store.sheltered_run (hfit.wellFormed _) (hfit.begun tx hown) fun a ha hactor =>
    hothers a ha _ hactor hown

/-- What happens elsewhere keeps one's own transactions fit. -/
theorem Fit.elsewhere (h : w.Fit home own) (hothers : w.Elsewhere own w') : w'.Fit home own where
  wellFormed s := by
    obtain ⟨actions, hstore, -⟩ := hothers.stores s
    rw [hstore]
    exact (h.wellFormed s).run actions
  begun tx hown := by
    obtain ⟨actions, hstore, -⟩ := hothers.stores tx.shard
    rw [hstore]
    exact Nat.le_trans (h.begun tx hown) (Store.opened_le_run (h.wellFormed _) actions)
  there := (hothers.shards home).trans h.there

/-- A request of the process itself may open one more transaction. -/
theorem Fit.perform (h : w.Fit home own) {jobProgram : ω → Process ω Unit} {id : FiberId}
    {r : Request ω} {reply : r.Reply} (hopens : r.OpensAt home)
    (hanswer : w.perform jobProgram id r = (w', .answer reply)) :
    w'.Fit home ((Exchange.opened? ⟨r, reply⟩).toList ++ own) := by
  have hstore : ∀ s, w'.store s = _ := fun s =>
    (congrArg (fun x => x.1.store s) hanswer).symm.trans (w.store_perform jobProgram id r s)
  have hopened : ∀ s, (w.store s).opened ≤ (w'.store s).opened := by
    intro s
    rw [hstore]
    split
    · exact Nat.le_refl _
    · exact opened_le_acted h.wellFormed _ _ s
  refine ⟨fun s => ?_, fun tx htx => ?_, ?_⟩
  · rw [hstore]
    split
    · exact h.wellFormed s
    · exact wellFormed_acted h.wellFormed _ _ s
  · rcases List.mem_append.1 htx with hnew | hown
    · cases r with
      | begin shard =>
        cases reply with
        | error e => cases hnew
        | ok tx' =>
          obtain rfl := List.mem_singleton.1 hnew
          obtain rfl : shard = home := hopens
          obtain ⟨rfl, hafter⟩ := perform_begin_new hanswer
          rw [if_pos h.there] at hafter
          rw [hafter]
          exact Nat.le_refl _
      | _ => cases hnew
    · exact Nat.le_trans (h.begun tx hown) (hopened _)
  · have hcontains := w.contains_perform jobProgram id r home
    rw [hanswer] at hcontains
    exact hcontains.trans h.there

end World

/-! ## Requests that spare a transaction -/

/-- The request does not act in this transaction. -/
def Request.Spares (tx : Handle) (r : Request ω) : Prop :=
  ∀ clock a, r.action? clock = some (tx.shard, a) → a.transaction? ≠ some tx.transaction

/-- The request acts in no transaction and opens none. -/
def Request.Aloof (r : Request ω) : Prop :=
  ∀ clock shard a, r.action? clock = some (shard, a) → ∃ on, a = .outage on

/-- A request that does nothing on a store is aloof. -/
theorem Request.aloof_of_action? {r : Request ω} (h : ∀ clock, r.action? clock = none) : r.Aloof := by
  intro clock shard a haction
  rw [h] at haction
  cases haction

/-- A request that is aloof spares every transaction. -/
theorem Request.Aloof.spares {r : Request ω} (h : r.Aloof) (tx : Handle) : r.Spares tx := by
  intro clock a haction hactor
  obtain ⟨on, rfl⟩ := h clock _ a haction
  cases hactor

/-- The request opens no transaction. -/
def Request.OpensNone (r : Request ω) : Prop := ∀ shard, r ≠ .begin shard

/-- A request that opens no transaction opens none elsewhere. -/
theorem Request.OpensNone.opensAt {r : Request ω} (h : r.OpensNone) (home : ShardId) :
    r.OpensAt home := by
  cases r with
  | begin shard => exact absurd rfl (h shard)
  | _ => trivial

/-- A request that opens no transaction has opened none, whatever it is told. -/
theorem Request.OpensNone.opened? {x : Exchange ω} (h : x.1.OpensNone) : x.opened? = none := by
  obtain ⟨r, reply⟩ := x
  cases r with
  | begin shard => exact absurd rfl (h shard)
  | _ => rfl

/-- A request that is aloof opens no transaction. -/
theorem Request.Aloof.opensNone {r : Request ω} (h : r.Aloof) : r.OpensNone := by
  rintro shard rfl
  obtain ⟨on, heq⟩ := h .epoch shard .begin rfl
  cases heq

/-- A request spares the transactions that it is to spare. -/
theorem World.sheltered_perform {w : World ω β} (hs : ∀ s, (w.store s).WellFormed) {tx : Handle}
    (hbegun : tx.transaction ≤ (w.store tx.shard).opened) (jobProgram : ω → Process ω Unit)
    (id : FiberId) {r : Request ω} (hr : r.Spares tx) :
    Store.Sheltered (w.store tx.shard) ((w.perform jobProgram id r).1.store tx.shard)
      tx.transaction := by
  rw [World.store_perform]
  cases haction : r.action? w.clock with
  | none => exact .refl _ _
  | some action =>
    obtain ⟨shard, a⟩ := action
    simp only [World.acted]
    split
    · next hthere =>
      obtain ⟨rfl, -⟩ := hthere
      exact (Store.step_change (hs _) (Store.perform_step _ a)).sheltered (hs _)
        (hr _ a haction) hbegun
    · exact .refl _ _

namespace Process

variable {jobProgram : ω → Process ω Unit} {id : FiberId} {own : List Handle} {home : ShardId}
  {w w' : World ω β} {t : List (Deal ω β)}

/-- A completed process that opens transactions at home only leaves what it owns fit. -/
theorem Completes.fit {p : Process ω γ} {o : Except Panic γ}
    (h : Completes jobProgram id own p w t o w') (hopens : p.Only (Request.OpensAt home))
    (hfit : w.Fit home own) :
    w'.Fit home (ownAfter own t) ∧ ∀ d ∈ t, ∀ s, (d.before.store s).WellFormed := by
  induction h with
  | done => exact ⟨hfit, fun d hd => absurd hd List.not_mem_nil⟩
  | panic => exact ⟨hfit, fun d hd => absurd hd List.not_mem_nil⟩
  | told hanswer _ ih =>
    obtain ⟨hlast, hdeals⟩ := ih (hopens.2 _) (hfit.perform hopens.1 hanswer)
    refine ⟨hlast, fun d hd => ?_⟩
    rcases List.mem_cons.1 hd with rfl | hd
    · exact hfit.wellFormed
    · exact hdeals d hd
  | waits hwait _ ih => exact ih hopens (hfit.elsewhere (.of_wait hwait))
  | meanwhile hothers _ ih => exact ih hopens (hfit.elsewhere hothers)

/-- A transaction of a process is spared as long as the process asks for nothing in it. -/
theorem Completes.sheltered {p : Process ω γ} {o : Except Panic γ}
    (h : Completes jobProgram id own p w t o w') (hopens : p.Only (Request.OpensAt home))
    (hfit : w.Fit home own) {tx : Handle} (hown : tx ∈ own) (hspares : p.Only (Request.Spares tx)) :
    Store.Sheltered (w.store tx.shard) (w'.store tx.shard) tx.transaction := by
  induction h with
  | done => exact .refl _ _
  | panic => exact .refl _ _
  | @told own r next reply w w₁ w' t o hanswer _ ih =>
    have hstep := World.sheltered_perform hfit.wellFormed (hfit.begun tx hown) jobProgram id hspares.1
    rw [hanswer] at hstep
    exact hstep.trans (ih (hopens.2 _) (hfit.perform hopens.1 hanswer)
      (List.mem_append_right _ hown) (hspares.2 _))
  | @waits own _ _ _ w w₁ _ _ _ hwait _ ih =>
    have hsame : w.Elsewhere own w₁ := .of_wait hwait
    exact (hsame.spared hfit tx hown).trans (ih hopens (hfit.elsewhere hsame) hown hspares)
  | meanwhile hothers _ ih =>
    exact (hothers.spared hfit tx hown).trans (ih hopens (hfit.elsewhere hothers) hown hspares)

/-- A process that opens no transaction owns in the end what it owned before. -/
theorem Completes.ownAfter_eq {p : Process ω γ} {o : Except Panic γ}
    (h : Completes jobProgram id own p w t o w') (hp : p.Only Request.OpensNone) :
    ownAfter own t = own :=
  ownAfter_of_forall fun d hd => (h.allowed hp d hd).opened?

/-- A process that keeps away from transactions opens none and spares all. -/
theorem Completes.aloof {p : Process ω γ} {o : Except Panic γ}
    (h : Completes jobProgram id own p w t o w') (haloof : p.Only Request.Aloof)
    (hfit : w.Fit home own) :
    (∀ d ∈ t, d.exchange.1.Aloof) ∧ ownAfter own t = own ∧ w'.Fit home own ∧ w.Spared own w' := by
  have hnone : p.Only Request.OpensNone := haloof.mono fun r hr => hr.opensNone
  have hopens : p.Only (Request.OpensAt home) := hnone.mono fun r hr => hr.opensAt home
  have hsame := h.ownAfter_eq hnone
  refine ⟨h.allowed haloof, hsame, ?_, fun tx hown => ?_⟩
  · rw [← hsame]
    exact (h.fit hopens hfit).1
  · exact h.sheltered hopens hfit hown (haloof.mono fun r hr => hr.spares tx)

/-- A part that keeps away from transactions, and what follows. -/
theorem completes_aloof_bind {x : Action ω ε γ} {δ : Type} {f : γ → Action ω ε δ}
    {o : Except Panic (Except ε δ)} (haloof : x.run.Only Request.Aloof) (hfit : w.Fit home own)
    (h : Completes jobProgram id own (x >>= f).run w t o w') :
    (∃ a xs ys w₁, t = xs ++ ys ∧ (∀ d ∈ xs, d.exchange.1.Aloof) ∧
      Completes jobProgram id own x.run w xs (.ok (.ok a)) w₁ ∧ w₁.Fit home own ∧
      w.Spared own w₁ ∧ Completes jobProgram id own (f a).run w₁ ys o w') ∨
    (∀ d ∈ t, d.exchange.1.Aloof) ∧
      ((∃ e, o = .ok (.error e) ∧ Completes jobProgram id own x.run w t (.ok (.error e)) w') ∨
        ∃ cause, o = .error cause ∧ Completes jobProgram id own x.run w t (.error cause) w') := by
  rcases completes_run_bind h with ⟨a, xs, ys, w₁, rfl, hx, hf⟩ | hends
  · obtain ⟨hdeals, hsame, hfit', hspared⟩ := hx.aloof haloof hfit
    rw [hsame] at hf
    exact .inl ⟨a, xs, ys, w₁, rfl, hdeals, hx, hfit', hspared, hf⟩
  · rcases hends with ⟨e, rfl, hx⟩ | ⟨cause, rfl, hx⟩
    · exact .inr ⟨hx.allowed haloof, .inl ⟨e, rfl, hx⟩⟩
    · exact .inr ⟨hx.allowed haloof, .inr ⟨cause, rfl, hx⟩⟩

end Process

end LeaseQueue
