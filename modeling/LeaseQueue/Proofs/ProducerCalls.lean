import LeaseQueue.Proofs.PickTraces
import LeaseQueue.Proofs.RowSources

/-!
# Calls of producers

A call that puts a task in runs through a fixed sequence of requests: it opens a transaction, puts
its row in, commits, and lets go of the transaction. `CallStage` names the points between them, and
`CallStage.left_eq` says of each which request comes next and where its answer leads. A
`ProducerCall` is a call that is under way, with the transaction that has been opened for it and the
row that it has put in; `ProducerCall.Sound` ties the two to the point it has come to. What others
do to the stores leaves a sound call sound (`ProducerCall.Sound.acted`), as long as they leave its
transaction alone or give it up.
-/

set_option autoImplicit false

namespace LeaseQueue

variable {α ω β : Type}

open Process

/-- How far a call of a producer has come that has found its store and written its payload. -/
inductive CallStage
  | starting
  | beginning
  | opened (tx : Handle)
  | inserting (tx : Handle)
  | inserted (tx : Handle) (id : TaskId)
  | committing (tx : Handle) (id : TaskId)
  /-- All that is left is the end of the transaction. -/
  | closing (tx : Handle) (result : Except QueueError Receipt)
  | returned (result : Except QueueError Receipt)

namespace CallStage

variable (location : Location) (shard : ShardId) (new : NewTask)

/-- What a call does once it has put its row in. -/
def keep (tx : Handle) (id : TaskId) : Action ω QueueError Receipt := do
  storing (Session.commit tx)
  pure ⟨shard, id⟩

/-- What a call does in its transaction. -/
def inside (tx : Handle) : Action ω QueueError Receipt := do
  let id ← storing (Session.enqueue tx location new)
  keep shard tx id

/-- What is left of a call. -/
def left : CallStage → Process ω (Except QueueError Receipt)
  | .starting => (withTransaction shard (inside location shard new)).run
  | .beginning => .call (.begin shard) fun reply =>
    match (reply : Except StoreError Handle) with
    | .ok tx => (inside location shard new tx).run.followedBy (.ask (.abandon tx))
    | .error e => .done (.error (.store e))
  | .opened tx => (inside location shard new tx).run.followedBy (.ask (.abandon tx))
  | .inserting tx => .call (.enqueue tx location new) fun reply =>
    match (reply : Except StoreError TaskId) with
    | .ok id => (keep shard tx id).run.followedBy (.ask (.abandon tx))
    | .error e => .call (.abandon tx) fun _ => .done (.error (.store e))
  | .inserted tx id => (keep shard tx id).run.followedBy (.ask (.abandon tx))
  | .committing tx id => .call (.commit tx) fun reply =>
    match (reply : Except StoreError Unit) with
    | .ok () => .call (.abandon tx) fun _ => .done (.ok ⟨shard, id⟩)
    | .error e => .call (.abandon tx) fun _ => .done (.error (.store e))
  | .closing tx result => .call (.abandon tx) fun _ => .done result
  | .returned result => .done result

/-- The next request of a call, and how far it has come with the answer. -/
def request? : CallStage → Option ((r : Request ω) × (r.Reply → CallStage))
  | .starting => some ⟨.probe shard .begin, fun reply =>
    match (reply : Except StoreError Unit) with
    | .ok () => .beginning
    | .error e => .returned (.error (.store e))⟩
  | .beginning => some ⟨.begin shard, fun reply =>
    match (reply : Except StoreError Handle) with
    | .ok tx => .opened tx
    | .error e => .returned (.error (.store e))⟩
  | .opened tx => some ⟨.probe tx.shard .enqueue, fun reply =>
    match (reply : Except StoreError Unit) with
    | .ok () => .inserting tx
    | .error e => .closing tx (.error (.store e))⟩
  | .inserting tx => some ⟨.enqueue tx location new, fun reply =>
    match (reply : Except StoreError TaskId) with
    | .ok id => .inserted tx id
    | .error e => .closing tx (.error (.store e))⟩
  | .inserted tx id => some ⟨.probe tx.shard .commit, fun reply =>
    match (reply : Except StoreError Unit) with
    | .ok () => .committing tx id
    | .error e => .closing tx (.error (.store e))⟩
  | .committing tx id => some ⟨.commit tx, fun reply =>
    match (reply : Except StoreError Unit) with
    | .ok () => .closing tx (.ok ⟨shard, id⟩)
    | .error e => .closing tx (.error (.store e))⟩
  | .closing tx result => some ⟨.abandon tx, fun _ => .returned result⟩
  | .returned _ => none

variable {location shard new}

/-- What is left of a call at a stage is its next request and what is left after the answer. -/
theorem left_eq {stage : CallStage} {r : Request ω} {after : r.Reply → CallStage}
    (h : stage.request? location shard new = some ⟨r, after⟩) :
    stage.left location shard new = .call r fun reply => (after reply).left location shard new := by
  cases stage with
  | returned result => cases h
  | closing tx result =>
    cases h
    rfl
  | beginning | inserting | committing =>
    cases h
    refine congrArg (Process.call _) (funext fun reply => ?_)
    cases reply <;> rfl
  | starting | opened | inserted =>
    cases h
    refine congrArg (Process.call _) (funext fun reply => ?_)
    cases reply with
    | error e => rfl
    | ok u =>
      refine congrArg (Process.call _) (funext fun reply => ?_)
      cases reply <;> rfl

end CallStage

/-- An enqueue refuses an unknown shard, then a payload that cannot be written, and else goes
through the stages of a call. -/
theorem Producer.enqueue_eq (p : Producer α) (task : Submission α) :
    (p.enqueue task : Action ω QueueError Receipt).run =
      if p.router.route task ∈ p.shards then
        match p.codec.write task.payload with
        | .error e => .done (.error (.payload e))
        | .ok payload => CallStage.starting.left p.config.location (p.router.route task)
          ⟨payload, task.delay, task.correlationId, task.actor⟩
      else .done (.error (.shardNotFound (p.router.route task))) := by
  unfold Producer.enqueue
  dsimp only
  split
  · cases p.codec.write task.payload <;> rfl
  · rfl

/-! ## Calls and their stages -/

/-- A call that puts a task in, with what has come of it so far. -/
structure ProducerCall (α : Type) where
  producer : Producer α
  task : Submission α
  left : Process (Job α) (Except QueueError Receipt)
  /-- The transaction that has been opened for it. -/
  tx : Option Handle
  /-- The row that it has put in. -/
  put : Option Insertion
  givenUp : Bool

namespace ProducerCall

/-- A call that has just been made. -/
def make (producer : Producer α) (task : Submission α) : ProducerCall α :=
  ⟨producer, task, (producer.enqueue task).run, none, none, false⟩

/-- The queue. -/
def location (c : ProducerCall α) : Location := c.producer.config.location

/-- The shard that the router names. -/
def shard (c : ProducerCall α) : ShardId := c.producer.router.route c.task

/-- What is put in, given the written payload. -/
def new (c : ProducerCall α) (payload : Option String) : NewTask :=
  ⟨payload, c.task.delay, c.task.correlationId, c.task.actor⟩

/-- The call has returned a receipt, or has nothing left to do before but to let go of its
transaction. -/
def Succeeded (c : ProducerCall α) (receipt : Receipt) : Prop :=
  c.left = .done (.ok receipt) ∨ ∃ tx, c.left = .call (.abandon tx) fun _ => .done (.ok receipt)

/-- The call has returned an error. -/
def Failed (c : ProducerCall α) : Prop := ∃ e, c.left = .done (.error e)

/-- What is noted of an answer that a call gets at some time. -/
def noted (c : ProducerCall α) (clock : Instant) : Exchange (Job α) → ProducerCall α
  | ⟨.begin _, reply⟩ =>
    match (reply : Except StoreError Handle) with
    | .ok tx => { c with tx := some tx }
    | .error _ => c
  | ⟨.enqueue tx location task, reply⟩ =>
    match (reply : Except StoreError TaskId) with
    | .ok id => { c with put := some ⟨tx, location, task, id, clock⟩ }
    | .error _ => c
  | _ => c

/-- A call goes on with an answer. -/
def answered (c : ProducerCall α) (clock : Instant) (x : Exchange (Job α))
    (left : Process (Job α) (Except QueueError Receipt)) : ProducerCall α :=
  { c.noted clock x with left := left }

/-- What a stage says of a call and of the stores. -/
def Fits (store : ShardId → Store) (c : ProducerCall α) : CallStage → Prop
  | .starting => c.tx = none
  | .beginning => c.tx = none
  | .opened tx => c.tx = some tx ∧ c.put = none ∧ (store tx.shard).journal tx.transaction = []
  | .inserting tx => c.tx = some tx ∧ c.put = none ∧ (store tx.shard).journal tx.transaction = []
  | .inserted tx id => c.tx = some tx ∧ ∃ i, c.put = some i ∧ i.id = id
  | .committing tx id => c.tx = some tx ∧ ∃ i, c.put = some i ∧ i.id = id
  | .closing tx (.ok receipt) =>
    c.tx = some tx ∧ ∃ i, c.put = some i ∧ receipt = ⟨c.shard, i.id⟩
  | .closing tx (.error _) => c.tx = some tx
  | .returned (.ok receipt) => ∃ i, c.put = some i ∧ receipt = ⟨c.shard, i.id⟩
  | .returned (.error _) =>
    ∀ tx, c.tx = some tx → ¬ (store tx.shard).isOpen tx.transaction = true

/-- A call is at a stage, its payload written so. -/
structure Stands (store : ShardId → Store) (c : ProducerCall α) (payload : Option String)
    (stage : CallStage) : Prop where
  wrote : c.producer.codec.write c.task.payload = .ok payload
  left_eq : c.left = stage.left c.location c.shard (c.new payload)
  shard_eq : ∀ tx, c.tx = some tx → tx.shard = c.shard
  put_eq : ∀ i, c.put = some i → c.tx = some i.tx ∧ i.location = c.location ∧ i.task = c.new payload
  fits : c.Fits store stage

/-- A call has failed before it asked anything, or is at one of its stages. -/
inductive Sound (store : ShardId → Store) (c : ProducerCall α) : Prop
  | refused {e : QueueError} (hleft : c.left = .done (.error e)) (htx : c.tx = none)
    (hput : c.put = none)
  | underway {payload : Option String} {stage : CallStage} (h : c.Stands store payload stage)

/-- A call goes on to a stage. -/
def moved (c : ProducerCall α) (payload : Option String) (stage : CallStage) : ProducerCall α :=
  { c with left := stage.left c.location c.shard (c.new payload) }

end ProducerCall

/-- The receipt of a call that has succeeded. -/
def CallStage.receipt? : CallStage → Option Receipt
  | .closing _ (.ok receipt) => some receipt
  | .returned (.ok receipt) => some receipt
  | _ => none

/-- A call has succeeded when its stage holds the receipt. -/
theorem ProducerCall.succeeded_iff {c : ProducerCall α} {stage : CallStage} {location : Location}
    {shard : ShardId} {new : NewTask} (hleft : c.left = stage.left location shard new)
    (receipt : Receipt) : c.Succeeded receipt ↔ stage.receipt? = some receipt := by
  unfold Succeeded
  rw [hleft]
  cases stage with
  | returned result =>
    cases result with
    | ok r => simp [CallStage.left, CallStage.receipt?]
    | error e => simp [CallStage.left, CallStage.receipt?]
  | closing tx result =>
    have hnext : ∀ {tx'}, (CallStage.closing tx result).left location shard new =
        (.call (.abandon tx') fun _ => .done (.ok receipt) : Process (Job α) _) ↔
          tx = tx' ∧ result = .ok receipt := by
      intro tx'
      constructor
      · intro h
        obtain ⟨hrequest, hnext⟩ := Process.call.inj h
        cases hrequest
        exact ⟨rfl, Process.done.inj (congrFun (eq_of_heq hnext) ())⟩
      · rintro ⟨rfl, rfl⟩
        rfl
    simp only [hnext]
    cases result <;> simp [CallStage.left, CallStage.receipt?]
  | _ =>
    rw [CallStage.left_eq rfl]
    simp [CallStage.receipt?]

namespace ProducerCall

variable {c : ProducerCall α} {store : ShardId → Store}

/-- A call has a receipt at its last stages. -/
theorem Stands.succeeded_iff {payload : Option String} {stage : CallStage}
    (h : c.Stands store payload stage) (receipt : Receipt) :
    c.Succeeded receipt ↔ stage.receipt? = some receipt :=
  ProducerCall.succeeded_iff h.left_eq receipt

/-- The row of a call stands in the transaction of the call, at its shard. -/
theorem Sound.tx_of_put (h : c.Sound store) {i : Insertion} (hput : c.put = some i) :
    c.tx = some i.tx ∧ i.tx.shard = c.shard := by
  cases h with
  | refused _ _ hnone => cases hnone.symm.trans hput
  | underway h =>
    have hown := (h.put_eq i hput).1
    exact ⟨hown, h.shard_eq _ hown⟩

/-- A call that has succeeded has put in the row that its receipt names. -/
theorem Sound.put_of_succeeded (h : c.Sound store) {receipt : Receipt}
    (hsucceeded : c.Succeeded receipt) :
    ∃ i payload, c.put = some i ∧ receipt = ⟨c.shard, i.id⟩ ∧ i.tx.shard = c.shard ∧
      c.producer.codec.write c.task.payload = .ok payload ∧ i.location = c.location ∧
      i.task = c.new payload := by
  cases h with
  | refused hleft =>
    rcases hsucceeded with hdone | ⟨tx, hdone⟩ <;> cases hleft.symm.trans hdone
  | @underway payload stage h =>
    have hput : ∃ i, c.put = some i ∧ receipt = ⟨c.shard, i.id⟩ := by
      have hreceipt := (h.succeeded_iff receipt).1 hsucceeded
      have hfits := h.fits
      unfold CallStage.receipt? at hreceipt
      split at hreceipt
      · cases hreceipt
        exact hfits.2
      · cases hreceipt
        exact hfits
      · cases hreceipt
    obtain ⟨i, hput, hreceipt⟩ := hput
    obtain ⟨hown, hlocation, htask⟩ := h.put_eq i hput
    exact ⟨i, payload, hput, hreceipt, h.shard_eq _ hown, h.wrote, hlocation, htask⟩

/-- The transaction of a call that has failed is not open. -/
theorem Sound.not_isOpen_of_failed (h : c.Sound store) (hfailed : c.Failed) {tx : Handle}
    (htx : c.tx = some tx) : ¬ (store tx.shard).isOpen tx.transaction = true := by
  obtain ⟨e, hdone⟩ := hfailed
  cases h with
  | refused _ hnone => cases hnone.symm.trans htx
  | @underway payload stage h =>
    have hleft := h.left_eq.symm.trans hdone
    have hfits := h.fits
    cases stage with
    | returned result =>
      cases hleft
      exact hfits tx htx
    | closing => cases hleft
    | _ =>
      rw [CallStage.left_eq rfl] at hleft
      cases hleft

end ProducerCall

/-! ## Actions of others -/

/-- An action gives its transaction up. -/
def Store.Action.GivesUp (a : Store.Action) (tx : TransactionId) : Prop :=
  a = .abandon tx ∨ a = .rollback tx

/-- A transaction that has been given up has nothing left to take back. -/
theorem Store.journal_of_givesUp {s : Store} {a : Store.Action} {tx : TransactionId}
    (h : a.GivesUp tx) : (s.perform a).1.journal tx = [] := by
  by_cases hopen : s.isOpen tx = true
  · rcases h with rfl | rfl
    · simp [perform, abandon, hopen, journal_release]
    · simp [perform, rollback, whenOpen, hopen, journal_release]
  · rcases h with rfl | rfl
    · simp [perform, abandon, hopen, journal_of_not_isOpen hopen]
    · simp [perform, rollback, whenOpen, hopen, journal_of_not_isOpen hopen]

/-- A call stays where it is if its transaction is left alone or given up. -/
theorem ProducerCall.Sound.acted {w : World ω β} {c : ProducerCall α} (h : c.Sound w.store)
    (hs : ∀ s, (w.store s).WellFormed) {shard : ShardId} {a : Store.Action}
    (hbegun : ∀ tx, c.tx = some tx → w.shards.contains tx.shard = true →
      tx.transaction ≤ (w.store tx.shard).opened)
    (hother : ∀ tx, c.tx = some tx → tx.shard = shard → w.shards.contains shard = true →
      a.transaction? = some tx.transaction → a.GivesUp tx.transaction) :
    c.Sound (w.acted shard a) := by
  have hjournal : ∀ tx, c.tx = some tx → (w.store tx.shard).journal tx.transaction = [] →
      (w.acted shard a tx.shard).journal tx.transaction = [] := by
    intro tx htx hnil
    by_cases hown : tx.shard = shard ∧ w.shards.contains shard = true ∧
        a.transaction? = some tx.transaction
    · obtain ⟨hshard, hthere, ha⟩ := hown
      unfold World.acted
      rw [if_pos ⟨hshard, hthere⟩]
      exact Store.journal_of_givesUp (hother tx htx hshard hthere ha)
    · refine (World.undisturbed_acted hs (hbegun tx htx) fun hshard hthere ha => ?_).journal.trans hnil
      exact hown ⟨hshard, hthere, ha⟩
  cases h with
  | refused hleft htx hput => exact .refused hleft htx hput
  | @underway payload stage h =>
    refine .underway ⟨h.wrote, h.left_eq, h.shard_eq, h.put_eq, ?_⟩
    have hstage := h.fits
    cases stage with
    | opened tx =>
      obtain ⟨hown, hnone, hnil⟩ := hstage
      exact ⟨hown, hnone, hjournal tx hown hnil⟩
    | inserting tx =>
      obtain ⟨hown, hnone, hnil⟩ := hstage
      exact ⟨hown, hnone, hjournal tx hown hnil⟩
    | returned result =>
      cases result with
      | ok receipt => exact hstage
      | error e =>
        intro tx hown hopen
        exact hstage tx hown (World.isOpen_of_acted hs (hbegun tx hown) hopen)
    | closing tx result => cases result <;> exact hstage
    | _ => exact hstage

end LeaseQueue
