import LeaseQueue.Proofs.OwnTransactions

/-!
# The transactions of the processes of an engine

Here an engine begins with stores of any content, and others use the stores as well: their
transactions may be open when the processes start and go on acting in between, as long as they are
not those of a process that is still there.

`Tidy` ties the transactions to the processes: every open transaction of a process is the one of its
present stage, different processes have different transactions, and what the stages say of the
stores holds.  Every event keeps this, since an event acts in one transaction only and leaves those
of the other processes as they are.
-/

set_option autoImplicit false

namespace LeaseQueue

variable {α : Type}

/-- A world without processes, whose stores may have been used in any way. -/
structure World.Unattended {ω β : Type} (w : World ω β) : Prop where
  fibers : w.fibers = .empty
  reachable : ∀ s, Store.Reachable (w.store s)

/-- In a world at its start nobody holds anything. -/
theorem World.unattended_initial {ω β : Type} (clock : Instant) (shards : List ShardId)
    (executors : List Executor) : (initial clock shards executors : World ω β).Unattended where
  fibers := rfl
  reachable s := by
    rw [store_initial]
    exact .empty

namespace Engine

/-- What can happen to an engine while others use its stores. -/
inductive Event (α : Type)
  | move (m : Move α)
  /-- Somebody else acts on a store. -/
  | outside (shard : ShardId) (a : Store.Action)

/-- The engine over a world in which no process has been started. -/
def ofWorld (w : World (Job α) Unit) : Engine α := ⟨w, fun _ => none, fun _ => []⟩

/-- Whether an action is one in the transaction of a process that is there. -/
def isOwn (e : Engine α) (shard : ShardId) (a : Store.Action) : Bool :=
  e.world.fibers.values.any fun f =>
    f.held.any fun tx => tx.shard = shard && a.transaction? = some tx.transaction

/-- The engine after one event; nobody else acts in the transaction of a process. -/
def react (e : Engine α) : Event α → Engine α
  | .move m => e.step m
  | .outside shard a =>
    if e.isOwn shard a then e
    else { e with world := e.world.setStore shard ((e.world.store shard).perform a).1 }

/-- The engine after some events. -/
def happen (e : Engine α) : List (Event α) → Engine α
  | [] => e
  | event :: rest => (e.react event).happen rest

/-- Events happen one after the other. -/
theorem happen_append (e : Engine α) (xs ys : List (Event α)) :
    e.happen (xs ++ ys) = (e.happen xs).happen ys := by
  induction xs generalizing e with
  | nil => rfl
  | cons x rest ih => exact ih (e.react x)

end Engine

/-! ## Shards, and the transactions that processes hold -/

/-- A request that has nothing to do with the shards and starts or aborts no process. -/
def Request.Quiet {ω : Type} : Request ω → Prop
  | .probe .. => False
  | .begin _ => False
  | .enqueue .. => False
  | .pick .. => False
  | .delete .. => False
  | .reenqueue .. => False
  | .commit _ => False
  | .rollback _ => False
  | .abandon _ => False
  | .outage .. => False
  | .handOver .. => False
  | .abort _ => False
  | _ => True

namespace World

section

variable {ω β : Type} {w w' : World ω β} {jobProgram : ω → Process ω Unit} {id : FiberId}

/-- A store that is put in place adds no shard. -/
theorem contains_setStore (w : World ω β) (shard s : ShardId) (store : Store) :
    (w.setStore shard store).shards.contains s = w.shards.contains s := by
  unfold setStore OrderedMap.contains
  rw [OrderedMap.get?_modify]
  split
  · exact Option.isSome_map
  · rfl

/-- Faults add no shard. -/
theorem contains_setFaults (w : World ω β) (shard s : ShardId) (point : StorePoint) (times : Nat) :
    (w.setFaults shard point times).shards.contains s = w.shards.contains s := by
  unfold setFaults OrderedMap.contains
  rw [OrderedMap.get?_modify]
  split
  · exact Option.isSome_map
  · rfl

/-- An operation on a store that may have to wait adds no shard. -/
theorem contains_inStoreWaiting {γ : Type} (w : World ω β) (tx : Handle)
    (act : Store → TransactionId → Store × Option (Except StoreError γ)) (s : ShardId) :
    (w.inStoreWaiting tx act).1.shards.contains s = w.shards.contains s := by
  unfold inStoreWaiting
  split
  · exact contains_setStore w _ s _
  · rfl

/-- An operation on a store that may have to wait leaves the processes as they are. -/
theorem fibers_inStoreWaiting {γ : Type} (w : World ω β) (tx : Handle)
    (act : Store → TransactionId → Store × Option (Except StoreError γ)) :
    (w.inStoreWaiting tx act).1.fibers = w.fibers := by
  unfold inStoreWaiting
  split <;> rfl

/-- A quiet request changes neither the shards nor the processes. -/
theorem perform_quiet (jobProgram : ω → Process ω Unit) (w : World ω β) (id : FiberId)
    {r : Request ω} (h : r.Quiet) :
    (w.perform jobProgram id r).1.shards = w.shards ∧
      (w.perform jobProgram id r).1.fibers = w.fibers := by
  cases r with
  | pass gate =>
    simp only [perform]
    split <;> exact ⟨rfl, rfl⟩
  | slot executor =>
    simp only [perform]
    split <;> exact ⟨rfl, rfl⟩
  | passBefore _ _ | drained _ _ =>
    simp only [perform]
    split
    · exact ⟨rfl, rfl⟩
    · split <;> exact ⟨rfl, rfl⟩
  | sleepUntil t =>
    simp only [perform]
    split <;> exact ⟨rfl, rfl⟩
  | pauseUntil t =>
    simp only [perform]
    split <;> exact ⟨rfl, rfl⟩
  | beginDraining =>
    simp only [perform]
    split <;> exact ⟨rfl, rfl⟩
  | ended fibers deadline =>
    simp only [perform]
    split
    · exact ⟨rfl, rfl⟩
    · split <;> exact ⟨rfl, rfl⟩
  | probe | begin | enqueue | pick | delete | reenqueue | commit | rollback | abandon | outage |
    handOver | abort => exact h.elim
  | _ => exact ⟨rfl, rfl⟩

/-- No request makes or removes a shard. -/
theorem contains_perform (jobProgram : ω → Process ω Unit) (w : World ω β) (id : FiberId)
    (r : Request ω) (s : ShardId) :
    (w.perform jobProgram id r).1.shards.contains s = w.shards.contains s := by
  have hquiet : r.Quiet → (w.perform jobProgram id r).1.shards.contains s = w.shards.contains s :=
    fun hr => congrArg (·.contains s) (perform_quiet jobProgram w id hr).1
  cases r with
  | probe shard point =>
    simp only [perform, probe]
    split
    · rfl
    · exact contains_setFaults w shard s point _
  | begin shard =>
    simp only [perform, begin]
    split
    · exact contains_setStore w shard s _
    · exact contains_setStore w shard s _
  | enqueue tx location task => exact contains_setStore w tx.shard s _
  | pick tx location lease => exact contains_setStore w tx.shard s _
  | commit tx => exact contains_setStore w tx.shard s _
  | rollback tx => exact contains_setStore w tx.shard s _
  | abandon tx => exact contains_setStore w tx.shard s _
  | outage shard on => exact contains_setStore w shard s _
  | delete tx location task => exact contains_inStoreWaiting w tx _ s
  | reenqueue tx asOf location task delay fresh => exact contains_inStoreWaiting w tx _ s
  | handOver executor job => rfl
  | abort fibers => rfl
  | _ => exact hquiet trivial

/-- The transactions of a process that is there. -/
def held? (w : World ω β) (id : FiberId) : Option (List Handle) :=
  (w.fibers.get? id).map Fiber.held

/-- An abandoned transaction is not open. -/
theorem not_isOpen_abandoned {w : World ω β} (tx : Handle) :
    ¬ (w.acted tx.shard (.abandon tx.transaction) tx.shard).isOpen tx.transaction = true := by
  unfold acted
  split
  · by_cases hopen : (w.store tx.shard).isOpen tx.transaction = true
    · simp [Store.perform, Store.abandon, hopen, Store.isOpen_release]
    · simp [Store.perform, Store.abandon, hopen]
  · next hnot =>
    exact fun hopen => hnot ⟨rfl, contains_of_isOpen hopen⟩

/-- A change of one process leaves what the others hold as it is. -/
theorem held?_modifyFiber (w : World ω β) (id k : FiberId) (f : Fiber ω β → Fiber ω β) :
    (w.modifyFiber id f).held? k =
      if k = id then (w.fibers.get? id).map fun g => (f g).held else w.held? k := by
  unfold held? modifyFiber
  rw [OrderedMap.get?_modify]
  split
  · next hk =>
    subst hk
    rw [Option.map_map]
    rfl
  · rfl

/-- Whoever begins a transaction holds it, and the others hold what they held. -/
theorem held?_begin {shard : ShardId} {tx : Handle}
    (h : w.perform jobProgram id (.begin shard) = (w', .answer (.ok tx))) (k : FiberId) :
    w'.held? k = if k = id then (w.held? id).map (tx :: ·) else w.held? k := by
  have hworld : (w.begin id shard).1 = w' := congrArg Prod.fst h
  have hanswer : (w.begin id shard).2 = .ok tx := Reply.answer.inj (congrArg Prod.snd h)
  subst hworld
  unfold begin at hanswer ⊢
  generalize (w.store shard).begin = outcome at hanswer ⊢
  obtain ⟨store, answer⟩ := outcome
  cases answer with
  | error e => cases hanswer
  | ok t =>
    cases hanswer
    simp only
    rw [held?_modifyFiber]
    unfold held?
    rw [Option.map_map]
    rfl

/-- If a transaction cannot begin then everybody holds what he held. -/
theorem held?_begin_error {shard : ShardId} {e : StoreError}
    (h : w.perform jobProgram id (.begin shard) = (w', .answer (.error e))) (k : FiberId) :
    w'.held? k = w.held? k := by
  have hworld : (w.begin id shard).1 = w' := congrArg Prod.fst h
  have hanswer : (w.begin id shard).2 = .error e := Reply.answer.inj (congrArg Prod.snd h)
  subst hworld
  unfold begin at hanswer ⊢
  generalize (w.store shard).begin = outcome at hanswer ⊢
  obtain ⟨store, answer⟩ := outcome
  cases answer with
  | error e => rfl
  | ok t => cases hanswer

/-- Whoever abandons a transaction does not hold it any more. -/
theorem held?_abandon (jobProgram : ω → Process ω Unit) (w : World ω β) (id : FiberId)
    (tx : Handle) (k : FiberId) :
    (w.perform jobProgram id (.abandon tx)).1.held? k =
      if k = id then (w.held? id).map (fun held => held.filter (· ≠ tx)) else w.held? k := by
  show ((w.abandon tx).modifyFiber id fun f =>
    { f with held := f.held.filter (· ≠ tx) }).held? k = _
  rw [held?_modifyFiber]
  unfold held?
  rw [Option.map_map]
  rfl

/-- The other requests leave the processes the transactions that they have; a job that is handed
over has none. -/
theorem held?_perform (jobProgram : ω → Process ω Unit) (w : World ω β) (id : FiberId)
    {r : Request ω} (hbegin : ∀ shard, r ≠ .begin shard) (habandon : ∀ tx, r ≠ .abandon tx)
    (habort : ∀ fibers, r ≠ .abort fibers) (k : FiberId) :
    (w.perform jobProgram id r).1.held? k =
      if r.handsOver?.isSome ∧ k = w.nextFiber then some [] else w.held? k := by
  have hsame : r.handsOver? = none → (w.perform jobProgram id r).1.fibers = w.fibers →
      (w.perform jobProgram id r).1.held? k =
        if r.handsOver?.isSome ∧ k = w.nextFiber then some [] else w.held? k := by
    intro hnone hfibers
    unfold held?
    rw [hfibers, hnone]
    simp
  have hquiet : r.Quiet → (w.perform jobProgram id r).1.fibers = w.fibers :=
    fun hr => (perform_quiet jobProgram w id hr).2
  cases r with
  | begin shard => exact absurd rfl (hbegin shard)
  | abandon tx => exact absurd rfl (habandon tx)
  | abort fibers => exact absurd rfl (habort fibers)
  | handOver executor job =>
    show Option.map Fiber.held ((w.fibers.insert w.nextFiber _).get? k) = _
    rw [OrderedMap.get?_insert]
    simp only [Request.handsOver?, Option.isSome_some, true_and]
    split <;> rfl
  | probe shard point =>
    refine hsame rfl ?_
    simp only [perform, probe]
    split <;> rfl
  | delete tx location task => exact hsame rfl (fibers_inStoreWaiting w tx _)
  | reenqueue tx asOf location task delay fresh => exact hsame rfl (fibers_inStoreWaiting w tx _)
  | enqueue | pick | commit | rollback | outage => exact hsame rfl rfl
  | _ => exact hsame rfl (hquiet trivial)

/-- A request that has to wait changes neither the stores nor the processes. -/
theorem perform_wait {r : Request ω} {condition : Wait}
    (h : w.perform jobProgram id r = (w', .wait condition)) :
    w'.shards = w.shards ∧ w'.fibers = w.fibers := by
  have hquiet : r.Quiet → w'.shards = w.shards ∧ w'.fibers = w.fibers := by
    intro hr
    have hsame := perform_quiet jobProgram w id hr
    rwa [h] at hsame
  have hwaiting : ∀ {γ : Type} (tx : Handle)
      (act : Store → TransactionId → Store × Option (Except StoreError γ)),
      w.inStoreWaiting tx act = (w', .wait condition) → w' = w := by
    intro γ tx act hact
    unfold inStoreWaiting at hact
    split at hact
    · cases hact
    · cases hact
      rfl
  cases r with
  | probe | begin | enqueue | pick | commit | rollback | abandon | outage | handOver | abort =>
    cases congrArg Prod.snd h
  | delete tx location task =>
    have hact : w.inStoreWaiting tx (fun s t => s.delete t location task) =
        (w', .wait condition) := h
    rw [hwaiting tx _ hact]
    exact ⟨rfl, rfl⟩
  | reenqueue tx asOf location task delay fresh =>
    have hact : w.inStoreWaiting tx
        (fun s t => s.reenqueue t asOf location task delay fresh) = (w', .wait condition) := h
    rw [hwaiting tx _ hact]
    exact ⟨rfl, rfl⟩
  | _ => exact hquiet trivial

end

end World

/-! ## What one exchange makes of a standing -/

namespace Standing

variable {ω : Type} {s : Standing} {home : ShardId} {waits : Standing → Prop}

/-- The store on which a process acts is that of its own transaction. -/
theorem Permits.own {r : Request ω} (h : s.Permits home waits r) {clock : Instant}
    {shard : ShardId} {a : Store.Action} {t : TransactionId}
    (haction : r.action? clock = some (shard, a)) (ht : a.transaction? = some t) :
    s.stage.handle? = some ⟨shard, t⟩ := by
  cases r with
  | enqueue tx location task =>
    cases haction
    cases ht
    exact congrArg Stage.handle? h
  | pick tx location lease =>
    cases haction
    cases ht
    exact congrArg Stage.handle? h.1
  | delete tx location id =>
    cases haction
    cases ht
    exact h.1.handle?
  | reenqueue tx asOf location id delay fresh =>
    cases haction
    cases ht
    exact h.1.handle?
  | commit tx =>
    cases haction
    cases ht
    exact h
  | rollback tx =>
    cases haction
    cases ht
    exact h
  | abandon tx =>
    cases haction
    cases ht
    exact h
  | begin shard =>
    cases haction
    cases ht
  | outage shard on =>
    cases haction
    cases ht
  | _ => cases haction

/-- What an exchange may do to the transaction of a process. -/
inductive Turn (s : Standing) : Exchange ω → Prop
  | began {shard : ShardId} {tx : Handle} (hstage : s.stage = .outside) :
    Turn s ⟨.begin shard, .ok tx⟩
  | abandoned {tx : Handle} (hstage : s.stage.handle? = some tx) {reply : Unit} :
    Turn s ⟨.abandon tx, reply⟩
  | stays {x : Exchange ω} (hbegin : ∀ shard tx, x ≠ ⟨.begin shard, .ok tx⟩)
    (habandon : ∀ tx, x.1 ≠ .abandon tx) (hhandle : (s.after x).stage.handle? = s.stage.handle?) :
    Turn s x

/-- A request that is permitted makes a turn, whatever the answer is. -/
theorem Permits.turn {r : Request ω} (h : s.Permits home waits r) (reply : r.Reply) :
    s.Turn ⟨r, reply⟩ := by
  have hstays : (∀ shard tx, (⟨r, reply⟩ : Exchange ω) ≠ ⟨.begin shard, .ok tx⟩) →
      (∀ tx, r ≠ .abandon tx) → (s.after ⟨r, reply⟩).stage.handle? = s.stage.handle? →
      s.Turn ⟨r, reply⟩ := fun hbegin habandon hhandle => .stays hbegin habandon hhandle
  cases r with
  | begin shard =>
    cases reply with
    | ok tx => exact .began h.1
    | error e => exact hstays (fun _ _ heq => by cases heq) (fun _ heq => by cases heq) rfl
  | abandon tx => exact .abandoned h
  | enqueue tx location task =>
    exact hstays (fun _ _ heq => by cases heq) (fun _ heq => by cases heq)
      (congrArg Stage.handle? h).symm
  | pick tx location lease =>
    refine hstays (fun _ _ heq => by cases heq) (fun _ heq => by cases heq) ?_
    rcases reply with e | _ | record
    · exact (congrArg Stage.handle? h.1).symm
    · rfl
    · exact (congrArg Stage.handle? h.1).symm
  | delete tx location id =>
    exact hstays (fun _ _ heq => by cases heq) (fun _ heq => by cases heq) h.1.handle?.symm
  | reenqueue tx asOf location id delay fresh =>
    exact hstays (fun _ _ heq => by cases heq) (fun _ heq => by cases heq) h.1.handle?.symm
  | commit tx =>
    refine hstays (fun _ _ heq => by cases heq) (fun _ heq => by cases heq) ?_
    cases reply with
    | ok u => exact Eq.symm h
    | error e => exact Eq.symm h
  | rollback tx =>
    exact hstays (fun _ _ heq => by cases heq) (fun _ heq => by cases heq) (Eq.symm h)
  | _ => exact hstays (fun _ _ heq => by cases heq) (fun _ heq => by cases heq) rfl

end Standing

/-! ## Transactions and processes -/

namespace Engine

/-- How a process stands, by its account. -/
def standing (e : Engine α) (id : FiberId) : Standing :=
  (e.said id).foldl Standing.after .initial

/-- A process has opened a transaction. -/
def Began (e : Engine α) (id : FiberId) (tx : Handle) : Prop :=
  ⟨.begin tx.shard, .ok tx⟩ ∈ e.said id

/-- After an answer it is known of the one who was told, and of the others what was known before. -/
theorem standing_answered (e : Engine α) (w : World (Job α) Unit) (id : FiberId)
    (x : Exchange (Job α)) (left : Process (Job α) Unit) (k : FiberId) :
    (e.answered w id x left).standing k =
      if k = id then (e.standing id).after x else e.standing k := by
  unfold standing
  rw [said_answered]
  split
  · rw [List.foldl_append]
    rfl
  · rfl

/-- What has been said can be trusted. -/
theorem Accounted.trusts {e : Engine α} (h : e.Accounted) {id : FiberId}
    {x : Exchange (Job α)} (hx : x ∈ e.said id) : Standing.Trusts x := by
  obtain ⟨r, reply⟩ := x
  cases r with
  | begin shard =>
    cases reply with
    | ok tx => exact h.honest hx
    | error e => trivial
  | _ => trivial

/-- What is left of a process keeps to the protocol of its deed. -/
theorem Accounted.follows {e : Engine α} (h : e.Accounted) {id : FiberId}
    {p : Process (Job α) Unit} (hp : e.world.program? id = some p) :
    ∃ deed, e.deed id = some deed ∧
      p.Follows deed.protocol (fun _ s => s.stage = .outside) (e.standing id) := by
  obtain ⟨deed, hdeed, hruns⟩ := h.runs hp
  exact ⟨deed, hdeed, Process.follows_runs deed.follows hruns fun x hx => h.trusts hx⟩

/-- What a process asks is permitted. -/
theorem Accounted.permits {e : Engine α} (h : e.Accounted) {id : FiberId} {r : Request (Job α)}
    {next : r.Reply → Process (Job α) Unit}
    (hcall : e.world.program? id = some (.call r next)) :
    ∃ deed, e.deed id = some deed ∧ (e.standing id).Permits deed.home deed.Waits r := by
  obtain ⟨deed, hdeed, hfollows⟩ := h.follows hcall
  exact ⟨deed, hdeed, hfollows.1⟩

/-- The open transactions are those of the stages of the processes. -/
structure Tidy (e : Engine α) : Prop where
  accounted : e.Accounted
  wellFormed : ∀ s, (e.world.store s).WellFormed
  begun : ∀ {id tx}, e.Began id tx → e.world.shards.contains tx.shard = true →
    tx.transaction ≤ (e.world.store tx.shard).opened
  own : ∀ {id tx}, (e.standing id).stage.handle? = some tx → e.Began id tx
  held : ∀ {id l}, e.world.held? id = some l → l = (e.standing id).stage.handle?.toList
  /-- A transaction of a process that is open is the one in which the process is. -/
  current : ∀ {id tx}, e.Began id tx →
    (e.world.store tx.shard).isOpen tx.transaction = true → e.world.held? id = some [tx]
  apart : ∀ {id k tx}, e.world.held? id = some [tx] → e.world.held? k = some [tx] →
    e.world.shards.contains tx.shard = true → id = k
  stage : ∀ {id l}, e.world.held? id = some l → (e.standing id).stage.Holds e.world.store

/-- The transaction that a process holds is the one of its stage. -/
theorem Tidy.handle_of_held {e : Engine α} (h : e.Tidy) {id : FiberId} {tx : Handle}
    (hheld : e.world.held? id = some [tx]) : (e.standing id).stage.handle? = some tx := by
  have heq := h.held hheld
  cases hhandle : (e.standing id).stage.handle? with
  | none =>
    rw [hhandle] at heq
    cases heq
  | some tx' =>
    rw [hhandle] at heq
    cases heq
    rfl

/-- The transaction of its stage is the one that a process holds. -/
theorem Tidy.held_of_handle {e : Engine α} (h : e.Tidy) {id : FiberId} {tx : Handle}
    {l : List Handle} (hheld : e.world.held? id = some l)
    (hhandle : (e.standing id).stage.handle? = some tx) : e.world.held? id = some [tx] := by
  rw [hheld, h.held hheld, hhandle]
  rfl

/-- A change of the world keeps everything tidy if it starts no process, opens no transaction of
theirs again, ends the open transactions of those that are gone, and leaves those of the others as
they are. -/
theorem Tidy.frame {e : Engine α} (h : e.Tidy) {w : World (Job α) Unit}
    (haccounted : Accounted { e with world := w }) (hwf : ∀ s, (w.store s).WellFormed)
    (hshards : ∀ s, w.shards.contains s = e.world.shards.contains s)
    (hopened : ∀ s, (e.world.store s).opened ≤ (w.store s).opened)
    (hheld : ∀ {k l}, w.held? k = some l → e.world.held? k = some l)
    (hopen : ∀ {k tx}, e.Began k tx → (w.store tx.shard).isOpen tx.transaction = true →
      (e.world.store tx.shard).isOpen tx.transaction = true)
    (hgone : ∀ {k tx}, e.world.held? k = some [tx] →
      (w.store tx.shard).isOpen tx.transaction = true → w.held? k = some [tx])
    (hsame : ∀ {k tx}, w.held? k = some [tx] →
      Store.Undisturbed (e.world.store tx.shard) (w.store tx.shard) tx.transaction) :
    Tidy { e with world := w } where
  accounted := haccounted
  wellFormed := hwf
  begun {id tx} hbegan hthere := by
    have hthere : e.world.shards.contains tx.shard = true := hshards tx.shard ▸ hthere
    exact Nat.le_trans (h.begun hbegan hthere) (hopened tx.shard)
  own := h.own
  held hk := h.held (hheld hk)
  current hbegan hopen' := hgone (h.current hbegan (hopen hbegan hopen')) hopen'
  apart {id k tx} hid hk hthere := by
    have hthere : e.world.shards.contains tx.shard = true := hshards tx.shard ▸ hthere
    exact h.apart (hheld hid) (hheld hk) hthere
  stage {k l} hk := by
    refine (h.stage (hheld hk)).undisturbed fun tx htx => ?_
    have hin : w.held? k = some [tx] := by
      rw [hk, h.held (hheld hk)]
      exact congrArg (fun o => some o.toList) htx
    exact hsame hin

/-- So does an action of somebody else on one of the stores. -/
theorem Tidy.acted {e : Engine α} (h : e.Tidy) {w : World (Job α) Unit} {shard : ShardId}
    {a : Store.Action} (haccounted : Accounted { e with world := w })
    (hstore : ∀ s, w.store s = e.world.acted shard a s)
    (hshards : ∀ s, w.shards.contains s = e.world.shards.contains s)
    (hheld : ∀ {k l}, w.held? k = some l → e.world.held? k = some l)
    (hgone : ∀ {k tx}, e.world.held? k = some [tx] →
      (w.store tx.shard).isOpen tx.transaction = true → w.held? k = some [tx])
    (hother : ∀ {k tx}, w.held? k = some [tx] → tx.shard = shard →
      e.world.shards.contains shard = true → a.transaction? ≠ some tx.transaction) :
    Tidy { e with world := w } := by
  refine h.frame haccounted ?_ hshards ?_ hheld ?_ hgone ?_
  · intro s
    rw [hstore]
    exact World.wellFormed_acted h.wellFormed shard a s
  · intro s
    rw [hstore]
    exact World.opened_le_acted h.wellFormed shard a s
  · intro k tx hbegan hopen
    rw [hstore] at hopen
    exact World.isOpen_of_acted h.wellFormed (h.begun hbegan) hopen
  · intro k tx hk
    rw [hstore]
    have hbegan := h.own (h.handle_of_held (hheld hk))
    exact World.undisturbed_acted h.wellFormed (h.begun hbegan) (hother hk)

/-- And so does a change that leaves the stores alone. -/
theorem Tidy.of_store {e : Engine α} (h : e.Tidy) {w : World (Job α) Unit}
    (haccounted : Accounted { e with world := w }) (hstore : ∀ s, w.store s = e.world.store s)
    (hshards : ∀ s, w.shards.contains s = e.world.shards.contains s)
    (hheld : ∀ {k l}, w.held? k = some l → e.world.held? k = some l)
    (hgone : ∀ {k tx}, e.world.held? k = some [tx] →
      (w.store tx.shard).isOpen tx.transaction = true → w.held? k = some [tx]) :
    Tidy { e with world := w } := by
  refine h.frame haccounted ?_ hshards ?_ hheld ?_ hgone ?_
  · intro s
    rw [hstore]
    exact h.wellFormed s
  · intro s
    exact Nat.le_of_eq (by rw [hstore])
  · intro k tx _ hopen
    rwa [hstore] at hopen
  · intro k tx _
    rw [hstore]
    exact .refl _ _

/-! ## Answers -/

section Answers

variable {e : Engine α} {w : World (Job α) Unit} {id : FiberId} {r : Request (Job α)}
  {reply : r.Reply} {next : r.Reply → Process (Job α) Unit}

/-- An answer changes what is held only in so far as the request has. -/
theorem held?_answered (x : Exchange (Job α)) (left : Process (Job α) Unit) (k : FiberId) :
    (e.answered w id x left).world.held? k = w.held? k := by
  show (w.modifyFiber id fun f => { f with body := f.body.goOn left }).held? k = _
  rw [World.held?_modifyFiber]
  split
  · next hk =>
    subst hk
    rfl
  · rfl

/-- A transaction was opened before, or by this exchange. -/
theorem began_answered {x : Exchange (Job α)} {left : Process (Job α) Unit} {k : FiberId}
    {tx : Handle} (h : (e.answered w id x left).Began k tx) :
    e.Began k tx ∨ k = id ∧ x = ⟨.begin tx.shard, .ok tx⟩ := by
  rcases mem_said_answered h with h | ⟨hk, heq⟩
  · exact .inl h
  · exact .inr ⟨hk, heq.symm⟩

/-- What has begun has begun also after one more answer. -/
theorem Began.answered {k : FiberId} {tx : Handle} (h : e.Began k tx) (w : World (Job α) Unit)
    (id : FiberId) (x : Exchange (Job α)) (left : Process (Job α) Unit) :
    (e.answered w id x left).Began k tx := by
  unfold Began
  rw [said_answered]
  split
  · next hk =>
    subst hk
    exact List.mem_append_left _ h
  · exact h

/-- Whoever has begun a transaction has begun before the next process. -/
theorem Accounted.lt_of_began (h : e.Accounted) {k : FiberId} {tx : Handle}
    (hbegan : e.Began k tx) : k < e.world.nextFiber :=
  Nat.lt_of_not_le fun hle => by
    unfold Began at hbegan
    rw [(h.unborn hle).2] at hbegan
    cases hbegan

/-- The transactions of the processes after an answer: the process that has asked may have opened
one or abandoned its own, and a new job has none. -/
theorem Tidy.held_perform (h : e.Tidy)
    (hcall : e.world.program? id = some (.call r next))
    (hperform : e.world.perform Job.work id r = (w, .answer reply)) (k : FiberId) :
    w.held? k =
      if k = id then
        (e.world.held? id).map fun _ => ((e.standing id).after ⟨r, reply⟩).stage.handle?.toList
      else if r.handsOver?.isSome ∧ k = e.world.nextFiber then some [] else e.world.held? k := by
  have hw : w = (e.world.perform Job.work id r).1 := by rw [hperform]
  obtain ⟨deed, hdeed, hpermits⟩ := h.accounted.permits hcall
  have hlt := h.accounted.lt_nextFiber hdeed
  cases hpermits.turn reply with
  | @began shard tx hstage =>
    have hold : ∀ l, e.world.held? id = some l → l = [] := by
      intro l hl
      rw [h.held hl, hstage]
      rfl
    rw [World.held?_begin hperform]
    simp only [Request.handsOver?, Option.isSome_none, Bool.false_eq_true, false_and, if_false]
    split
    · refine Option.map_congr fun l hl => ?_
      rw [hold l hl]
      rfl
    · rfl
  | @abandoned tx hstage =>
    have hold : ∀ l, e.world.held? id = some l → l = [tx] := by
      intro l hl
      rw [h.held hl, hstage]
      rfl
    rw [hw, World.held?_abandon]
    simp only [Request.handsOver?, Option.isSome_none, Bool.false_eq_true, false_and, if_false]
    split
    · refine Option.map_congr fun l hl => ?_
      rw [hold l hl]
      simp [Standing.after, Stage.handle?]
    · rfl
  | stays hbegin habandon hhandle =>
    have habort : ∀ fibers, r ≠ .abort fibers := by
      rintro fibers rfl
      exact hpermits
    have hstays : w.held? k =
        if r.handsOver?.isSome ∧ k = e.world.nextFiber then some [] else e.world.held? k := by
      cases r with
      | begin shard =>
        cases reply with
        | ok tx => exact absurd rfl (hbegin shard tx)
        | error e' =>
          rw [World.held?_begin_error hperform]
          simp [Request.handsOver?]
      | _ =>
        rw [hw]
        exact World.held?_perform Job.work e.world id (fun _ heq => by cases heq) habandon habort k
    rw [hstays]
    by_cases hk : k = id
    · subst hk
      rw [if_neg fun hnew => Nat.ne_of_lt hlt hnew.2, if_pos rfl, hhandle]
      cases hold : e.world.held? k with
      | none => rfl
      | some l =>
        rw [h.held hold]
        rfl
    · rw [if_neg hk]

/-- A process that asks is there. -/
theorem exists_held {p : Process (Job α) Unit} (hp : e.world.program? id = some p) :
    ∃ l, e.world.held? id = some l := by
  unfold World.program? at hp
  unfold World.held?
  cases hf : e.world.fibers.get? id with
  | none =>
    rw [hf] at hp
    cases hp
  | some f => exact ⟨f.held, rfl⟩

/-- A transaction that is new is nobody else's. -/
theorem Tidy.not_held_of_new (h : e.Tidy) {shard : ShardId} {tx : Handle}
    (hperform : e.world.perform Job.work id (.begin shard) = (w, .answer (.ok tx)))
    (hthere : e.world.shards.contains shard = true) (k : FiberId) :
    e.world.held? k ≠ some [tx] := by
  intro hk
  obtain ⟨rfl, -⟩ := perform_begin_new hperform
  have hle := h.begun (h.own (h.handle_of_held hk)) hthere
  exact Nat.not_succ_le_self _ hle

/-- The stores after an answer are those that the request leaves. -/
theorem store_answered (hperform : e.world.perform Job.work id r = (w, .answer reply)) (s : ShardId) :
    w.store s = (e.world.perform Job.work id r).1.store s := by
  rw [hperform]

/-- A request that is answered adds no shard. -/
theorem contains_answered (hperform : e.world.perform Job.work id r = (w, .answer reply))
    (s : ShardId) : w.shards.contains s = e.world.shards.contains s := by
  have hcontains := World.contains_perform Job.work e.world id r s
  rwa [hperform] at hcontains

/-- The stores are well formed after an answer. -/
theorem Tidy.wellFormed_answered (h : e.Tidy)
    (hperform : e.world.perform Job.work id r = (w, .answer reply)) (s : ShardId) :
    (w.store s).WellFormed := by
  rw [store_answered hperform, World.store_perform]
  split
  · exact h.wellFormed s
  · exact World.wellFormed_acted h.wellFormed _ _ s

/-- No store forgets how many transactions it has opened. -/
theorem Tidy.opened_le_answered (h : e.Tidy)
    (hperform : e.world.perform Job.work id r = (w, .answer reply)) (s : ShardId) :
    (e.world.store s).opened ≤ (w.store s).opened := by
  rw [store_answered hperform, World.store_perform]
  split
  · exact Nat.le_refl _
  · exact World.opened_le_acted h.wellFormed _ _ s

/-- No transaction of a process is opened again. -/
theorem Tidy.isOpen_of_answered (h : e.Tidy)
    (hperform : e.world.perform Job.work id r = (w, .answer reply)) {k : FiberId} {tx : Handle}
    (hbegan : e.Began k tx) (hopen : (w.store tx.shard).isOpen tx.transaction = true) :
    (e.world.store tx.shard).isOpen tx.transaction = true := by
  rw [store_answered hperform, World.store_perform] at hopen
  split at hopen
  · exact hopen
  · exact World.isOpen_of_acted h.wellFormed (h.begun hbegan) hopen

/-- An answer that tells of a new transaction is one to a request to begin it. -/
theorem perform_of_begins (hperform : e.world.perform Job.work id r = (w, .answer reply))
    {tx : Handle} (hbegins : (⟨r, reply⟩ : Exchange (Job α)) = ⟨.begin tx.shard, .ok tx⟩) :
    e.world.perform Job.work id (.begin tx.shard) = (w, .answer (.ok tx)) := by
  cases hbegins
  exact hperform

/-- After an answer the transactions that have begun are among those opened. -/
theorem Tidy.begun_answered (h : e.Tidy)
    (hperform : e.world.perform Job.work id r = (w, .answer reply)) {left : Process (Job α) Unit}
    {k : FiberId} {tx : Handle} (hbegan : (e.answered w id ⟨r, reply⟩ left).Began k tx)
    (hthere : w.shards.contains tx.shard = true) :
    tx.transaction ≤ (w.store tx.shard).opened := by
  rw [contains_answered hperform] at hthere
  rcases began_answered hbegan with hbegan | ⟨-, hbegins⟩
  · exact Nat.le_trans (h.begun hbegan hthere) (h.opened_le_answered hperform tx.shard)
  · obtain ⟨htx, hopening⟩ := perform_begin_new (perform_of_begins hperform hbegins)
    rw [hopening, if_pos hthere, htx]
    exact Nat.le_refl _

/-- After an answer the transaction of a stage is one that its process has begun. -/
theorem Tidy.own_answered (h : e.Tidy) (hcall : e.world.program? id = some (.call r next))
    (hperform : e.world.perform Job.work id r = (w, .answer reply)) {left : Process (Job α) Unit}
    {k : FiberId} {tx : Handle}
    (hhandle : ((e.answered w id ⟨r, reply⟩ left).standing k).stage.handle? = some tx) :
    (e.answered w id ⟨r, reply⟩ left).Began k tx := by
  obtain ⟨deed, -, hpermits⟩ := h.accounted.permits hcall
  rw [standing_answered] at hhandle
  split at hhandle
  · next hk =>
    subst hk
    cases hpermits.turn reply with
    | @began shard tx' hstage =>
      cases hhandle
      obtain ⟨htx, -⟩ := perform_begin_new hperform
      have hshard : tx.shard = shard := by rw [htx]
      subst hshard
      unfold Began
      rw [said_answered, if_pos rfl]
      exact List.mem_append_right _ List.mem_cons_self
    | abandoned hstage => cases hhandle
    | stays _ _ hsame => exact (h.own (hsame ▸ hhandle)).answered w k _ _
  · exact (h.own hhandle).answered w id _ _

/-- A job that has just been started has said nothing. -/
theorem Tidy.standing_of_new (h : e.Tidy) {k : FiberId} (hk : k = e.world.nextFiber) :
    e.standing k = .initial := by
  unfold standing
  rw [(h.accounted.unborn (Nat.le_of_eq hk.symm)).2]
  rfl

/-- After an answer a process holds just the transaction of its stage. -/
theorem Tidy.held_answered (h : e.Tidy) (hcall : e.world.program? id = some (.call r next))
    (hperform : e.world.perform Job.work id r = (w, .answer reply)) {left : Process (Job α) Unit}
    {k : FiberId} {l : List Handle} (hk : w.held? k = some l) :
    l = ((e.answered w id ⟨r, reply⟩ left).standing k).stage.handle?.toList := by
  rw [h.held_perform hcall hperform] at hk
  rw [standing_answered]
  split at hk
  · next hid =>
    rw [if_pos hid]
    obtain ⟨_, -, heq⟩ := Option.map_eq_some_iff.1 hk
    exact heq.symm
  · next hid =>
    rw [if_neg hid]
    split at hk
    · next hjob =>
      cases hk
      rw [h.standing_of_new hjob.2]
      rfl
    · exact h.held hk

/-- After an answer an open transaction is held by the one who has begun it. -/
theorem Tidy.current_answered (h : e.Tidy) (hcall : e.world.program? id = some (.call r next))
    (hperform : e.world.perform Job.work id r = (w, .answer reply)) {left : Process (Job α) Unit}
    {k : FiberId} {tx : Handle} (hbegan : (e.answered w id ⟨r, reply⟩ left).Began k tx)
    (hopen : (w.store tx.shard).isOpen tx.transaction = true) : w.held? k = some [tx] := by
  obtain ⟨deed, -, hpermits⟩ := h.accounted.permits hcall
  obtain ⟨own, hown⟩ := exists_held hcall
  rw [h.held_perform hcall hperform]
  rcases began_answered hbegan with hbegan | ⟨rfl, hbegins⟩
  · have hk := h.current hbegan (h.isOpen_of_answered hperform hbegan hopen)
    have hhandle := h.handle_of_held hk
    split
    · next hid =>
      subst hid
      rw [hk, Option.map_some]
      cases hpermits.turn reply with
      | began hstage =>
        rw [hstage] at hhandle
        cases hhandle
      | @abandoned tx' hstage =>
        rw [hhandle] at hstage
        cases hstage
        have hstored := World.store_perform Job.work e.world k (.abandon tx) tx.shard
        rw [← store_answered hperform] at hstored
        exact absurd (hstored ▸ hopen) (World.not_isOpen_abandoned tx)
      | stays _ _ hsame =>
        rw [hsame, hhandle]
        rfl
    · rw [if_neg fun hjob => Nat.ne_of_lt (h.accounted.lt_of_began hbegan) hjob.2]
      exact hk
  · rw [if_pos rfl, hown, hbegins]
    rfl

/-- Who holds a transaction after an answer has held it before, or has just opened it. -/
theorem Tidy.held_before (h : e.Tidy) (hcall : e.world.program? id = some (.call r next))
    (hperform : e.world.perform Job.work id r = (w, .answer reply)) {k : FiberId} {tx : Handle}
    (hk : w.held? k = some [tx]) :
    e.world.held? k = some [tx] ∨
      k = id ∧ (⟨r, reply⟩ : Exchange (Job α)) = ⟨.begin tx.shard, .ok tx⟩ := by
  obtain ⟨deed, -, hpermits⟩ := h.accounted.permits hcall
  obtain ⟨own, hown⟩ := exists_held hcall
  rw [h.held_perform hcall hperform] at hk
  split at hk
  · next hid =>
    subst hid
    obtain ⟨_, -, heq⟩ := Option.map_eq_some_iff.1 hk
    cases hpermits.turn reply with
    | @began shard tx' hstage =>
      cases heq
      obtain ⟨htx, -⟩ := perform_begin_new hperform
      have hshard : tx.shard = shard := by rw [htx]
      exact .inr ⟨rfl, by rw [hshard]⟩
    | abandoned hstage => cases heq
    | stays _ _ hsame =>
      rw [hsame] at heq
      exact .inl (hown.trans (by rw [h.held hown, heq]))
  · split at hk
    · cases hk
    · exact .inl hk

/-- After an answer no two processes hold the same transaction. -/
theorem Tidy.apart_answered (h : e.Tidy) (hcall : e.world.program? id = some (.call r next))
    (hperform : e.world.perform Job.work id r = (w, .answer reply)) {i k : FiberId} {tx : Handle}
    (hi : w.held? i = some [tx]) (hk : w.held? k = some [tx])
    (hthere : w.shards.contains tx.shard = true) : i = k := by
  rw [contains_answered hperform] at hthere
  rcases h.held_before hcall hperform hi with hold | ⟨hid, hbegins⟩
  · rcases h.held_before hcall hperform hk with hold' | ⟨-, hbegins⟩
    · exact h.apart hold hold' hthere
    · exact absurd hold (h.not_held_of_new (perform_of_begins hperform hbegins) hthere i)
  · rcases h.held_before hcall hperform hk with hold' | ⟨hid', -⟩
    · exact absurd hold' (h.not_held_of_new (perform_of_begins hperform hbegins) hthere k)
    · exact hid.trans hid'.symm

/-- After an answer every stage says of its store what is so. -/
theorem Tidy.stage_answered (h : e.Tidy) (hcall : e.world.program? id = some (.call r next))
    (hperform : e.world.perform Job.work id r = (w, .answer reply)) {left : Process (Job α) Unit}
    {k : FiberId} {l : List Handle} (hk : w.held? k = some l) :
    ((e.answered w id ⟨r, reply⟩ left).standing k).stage.Holds w.store := by
  obtain ⟨deed, -, hpermits⟩ := h.accounted.permits hcall
  obtain ⟨own, hown⟩ := exists_held hcall
  rw [h.held_perform hcall hperform] at hk
  rw [standing_answered]
  split at hk
  · next hid =>
    rw [if_pos hid]
    exact Standing.holds_after h.wellFormed hpermits (h.stage hown)
      (fun tx htx hthere => h.begun (h.own htx) hthere) hperform
  · next hid =>
    rw [if_neg hid]
    split at hk
    · next hjob =>
      rw [h.standing_of_new hjob.2]
      trivial
    · -- what another process does is not done in this one's transaction
      have hother : ∀ tx a, (e.standing k).stage.handle? = some tx →
          r.action? e.world.clock = some (tx.shard, a) →
          e.world.shards.contains tx.shard = true → a.transaction? ≠ some tx.transaction := by
        intro tx a htx haction hthere ha
        have hmine := hpermits.own haction ha
        exact hid (h.apart (h.held_of_handle hk htx) (h.held_of_handle hown hmine) hthere)
      have hstage := (h.stage hk).perform Job.work id h.wellFormed
        (fun tx htx hthere => h.begun (h.own htx) hthere) hother
      rwa [hperform] at hstage

/-- An engine stays tidy when a request is answered. -/
theorem Tidy.answered (h : e.Tidy) (hcall : e.world.program? id = some (.call r next))
    (hperform : e.world.perform Job.work id r = (w, .answer reply)) :
    (e.answered w id ⟨r, reply⟩ (next reply)).Tidy := by
  have hheld : ∀ k, (e.answered w id ⟨r, reply⟩ (next reply)).world.held? k = w.held? k :=
    held?_answered _ _
  constructor
  case accounted => exact h.accounted.answered hcall hperform
  case wellFormed => exact h.wellFormed_answered (w := w) hperform
  case begun => exact fun hbegan hthere => h.begun_answered hperform hbegan hthere
  case own => exact fun hhandle => h.own_answered hcall hperform hhandle
  case held => exact fun hk => h.held_answered hcall hperform ((hheld _).symm.trans hk)
  case current =>
    exact fun hbegan hopen => (hheld _).trans (h.current_answered hcall hperform hbegan hopen)
  case apart =>
    exact fun hi hk hthere => h.apart_answered hcall hperform ((hheld _).symm.trans hi)
      ((hheld _).symm.trans hk) hthere
  case stage => exact fun hk => h.stage_answered hcall hperform ((hheld _).symm.trans hk)

end Answers

/-! ## Every event -/

/-- A process that goes holds nothing any more. -/
theorem held?_dismiss (w : World (Job α) Unit) (id k : FiberId) :
    (w.dismiss id).held? k = if k = id then none else w.held? k := by
  unfold World.held? World.dismiss World.wake
  simp only [OrderedMap.get?_erase]
  split <;> rfl

/-- An engine stays tidy when something begins. -/
theorem Tidy.begin {e : Engine α} (h : e.Tidy) (deed : Deed α) : (e.begin deed).Tidy := by
  have hheld : ∀ k, (e.begin deed).world.held? k =
      if k = e.world.nextFiber then some [] else e.world.held? k := by
    intro k
    show Option.map Fiber.held ((e.world.fibers.insert e.world.nextFiber _).get? k) = _
    rw [OrderedMap.get?_insert]
    split <;> rfl
  have hold : ∀ {k l}, (e.begin deed).world.held? k = some l →
      (k = e.world.nextFiber ∧ l = []) ∨ e.world.held? k = some l := by
    intro k l hk
    rw [hheld] at hk
    split at hk
    · next hnew => exact .inl ⟨hnew, (Option.some.inj hk).symm⟩
    · exact .inr hk
  have hnew : (e.begin deed).standing e.world.nextFiber = .initial := by
    show (e.said e.world.nextFiber).foldl Standing.after .initial = _
    rw [(h.accounted.unborn (Nat.le_refl _)).2]
    rfl
  refine ⟨h.accounted.begin deed, h.wellFormed, h.begun, h.own, ?_, ?_, ?_, ?_⟩
  · intro k l hk
    rcases hold hk with ⟨rfl, rfl⟩ | hk
    · rw [hnew]
      rfl
    · exact h.held hk
  · intro k tx hbegan hopen
    have hlt := h.accounted.lt_of_began hbegan
    rw [hheld, if_neg (Nat.ne_of_lt hlt)]
    exact h.current hbegan hopen
  · intro i k tx hi hk hthere
    rcases hold hi with ⟨-, hnil⟩ | hi
    · cases hnil
    · rcases hold hk with ⟨-, hnil⟩ | hk
      · cases hnil
      · exact h.apart hi hk hthere
  · intro k l hk
    rcases hold hk with ⟨rfl, -⟩ | hk
    · rw [hnew]
      trivial
    · exact h.stage hk

/-- A process whose program has come to its end has no open transaction, so it may go. -/
theorem Tidy.finish {e : Engine α} (h : e.Tidy) {id : FiberId} (f : Fiber (Job α) Unit)
    (hstage : (e.standing id).stage = .outside) : (e.finish id f).Tidy := by
  have haccounted := h.accounted.finish id f
  have hgone : ∀ {w : World (Job α) Unit} {k : FiberId} {tx : Handle},
      (∀ k, w.held? k = if k = id then none else e.world.held? k) →
      e.world.held? k = some [tx] → w.held? k = some [tx] := by
    intro w k tx hheld hk
    have hne : k ≠ id := by
      rintro rfl
      have hhandle := h.handle_of_held hk
      rw [hstage] at hhandle
      cases hhandle
    rw [hheld, if_neg hne]
    exact hk
  have hleft : ∀ {w : World (Job α) Unit} {k : FiberId} {l : List Handle},
      (∀ k, w.held? k = if k = id then none else e.world.held? k) →
      w.held? k = some l → e.world.held? k = some l := by
    intro w k l hheld hk
    rw [hheld] at hk
    split at hk
    · cases hk
    · exact hk
  unfold Engine.finish at haccounted ⊢
  split
  · next executor _ hbody =>
    simp only [hbody] at haccounted
    have hheld : ∀ k, ((e.world.setExecutor executor (e.world.executor executor).finish).dismiss
        id).held? k = if k = id then none else e.world.held? k := held?_dismiss _ id
    exact h.of_store haccounted (fun _ => rfl) (fun _ => rfl) (hleft hheld)
      fun hk _ => hgone hheld hk
  · have hheld : ∀ k, (e.world.dismiss id).held? k = if k = id then none else e.world.held? k :=
      held?_dismiss _ id
    have haccounted : Accounted { e with world := e.world.dismiss id } :=
      h.accounted.of_program? (fun {k p} hp => by
        rw [World.program?_dismiss] at hp
        split at hp
        · cases hp
        · exact hp) rfl
    exact h.of_store haccounted (fun _ => rfl) (fun _ => rfl) (hleft hheld)
      fun hk _ => hgone hheld hk

/-- An engine stays tidy when a process asks, also if it has to wait. -/
theorem Tidy.ask {e : Engine α} (h : e.Tidy) {id : FiberId} {r : Request (Job α)}
    {next : r.Reply → Process (Job α) Unit}
    (hcall : e.world.program? id = some (.call r next)) : (e.ask id r next).Tidy := by
  have haccounted := h.accounted.ask hcall
  rcases e.ask_cases id r next with ⟨w, condition, hperform, hask⟩ | ⟨w, reply, hperform, hask⟩
  · rw [hask] at haccounted ⊢
    obtain ⟨hshards, hfibers⟩ := World.perform_wait hperform
    have hheld : ∀ k, w.held? k = e.world.held? k := fun k => by
      unfold World.held?
      rw [hfibers]
    refine h.of_store haccounted (fun s => ?_) (fun s => ?_) (fun {k l} hk => ?_)
      fun {k tx} hk _ => ?_
    · unfold World.store
      rw [hshards]
    · rw [hshards]
    · exact hheld k ▸ hk
    · exact (hheld k).trans hk
  · rw [hask]
    exact h.answered hcall hperform

/-- An engine stays tidy when a process goes on. -/
theorem Tidy.go {e : Engine α} (h : e.Tidy) (id : FiberId) : (e.go id).Tidy := by
  rcases e.go_cases id with ⟨-, hgo⟩ | ⟨f, p, hp, hover, hgo⟩ | ⟨r, next, hcall, hgo⟩
  · rw [hgo]
    exact h
  · rw [hgo]
    obtain ⟨deed, -, hfollows⟩ := h.accounted.follows hp
    cases p with
    | done result => exact h.finish f hfollows
    | panic cause => exact h.finish f hfollows
    | call r next => exact absurd rfl (hover r next)
  · rw [hgo]
    exact h.ask hcall

/-- A process that is dropped takes no shard with it. -/
theorem contains_bury (w : World (Job α) Unit) (id : FiberId) (f : Fiber (Job α) Unit)
    (s : ShardId) : (w.bury id f).shards.contains s = w.shards.contains s := by
  have habandon : ∀ handles : List Handle,
      (handles.foldl World.abandon w).shards.contains s = w.shards.contains s := by
    intro handles
    induction handles generalizing w with
    | nil => rfl
    | cons tx rest ih =>
      rw [List.foldl_cons, ih]
      exact World.contains_setStore w tx.shard s _
  rw [← habandon f.held]
  unfold World.bury
  simp only
  split <;> rfl

/-- A process that is dropped holds nothing any more. -/
theorem held?_bury (w : World (Job α) Unit) (id : FiberId) (f : Fiber (Job α) Unit) (k : FiberId) :
    (w.bury id f).held? k = if k = id then none else w.held? k := by
  have habandon : ∀ handles : List Handle, (handles.foldl World.abandon w).fibers = w.fibers := by
    intro handles
    induction handles generalizing w with
    | nil => rfl
    | cons tx rest ih => exact ih (w.abandon tx)
  unfold World.bury
  rw [held?_dismiss]
  split
  · rfl
  · unfold World.held?
    rw [← habandon f.held]
    split <;> rfl

/-- When a process is dropped, its open transaction is abandoned. -/
theorem Tidy.store_bury {e : Engine α} (h : e.Tidy) {id : FiberId} {f : Fiber (Job α) Unit}
    (hf : e.world.fibers.get? id = some f) (s : ShardId) :
    (e.world.bury id f).store s =
      match (e.standing id).stage.handle? with
      | none => e.world.store s
      | some tx => e.world.acted tx.shard (.abandon tx.transaction) s := by
  have hheld : e.world.held? id = some f.held := by
    unfold World.held?
    rw [hf]
    rfl
  rw [Engine.store_bury, h.held hheld]
  cases (e.standing id).stage.handle? with
  | none => rfl
  | some tx => exact e.world.store_setStore tx.shard s _

/-- An engine stays tidy when a process is dropped. -/
theorem Tidy.drop {e : Engine α} (h : e.Tidy) (id : FiberId) : (e.drop id).Tidy := by
  have haccounted := h.accounted.drop id
  unfold Engine.drop at haccounted ⊢
  cases hf : e.world.fibers.get? id with
  | none => exact h
  | some f =>
    rw [hf] at haccounted
    have hstore := h.store_bury hf
    have hheld := held?_bury e.world id f
    have hleft : ∀ {k l}, (e.world.bury id f).held? k = some l →
        k ≠ id ∧ e.world.held? k = some l := by
      intro k l hk
      rw [hheld] at hk
      split at hk
      · cases hk
      · next hne => exact ⟨hne, hk⟩
    have hothers : ∀ {k tx}, k ≠ id → e.world.held? k = some [tx] →
        (e.world.bury id f).held? k = some [tx] := by
      intro k tx hne hk
      rw [hheld, if_neg hne]
      exact hk
    cases hhandle : (e.standing id).stage.handle? with
    | none =>
      simp only [hhandle] at hstore
      refine h.of_store haccounted hstore (contains_bury e.world id f) (fun hk => (hleft hk).2)
        fun {k tx} hk _ => hothers ?_ hk
      rintro rfl
      rw [h.handle_of_held hk] at hhandle
      cases hhandle
    | some own =>
      simp only [hhandle] at hstore
      have hown : e.world.held? id = some [own] := by
        refine h.held_of_handle (l := f.held) ?_ hhandle
        unfold World.held?
        rw [hf]
        rfl
      refine h.acted haccounted hstore (contains_bury e.world id f) (fun hk => (hleft hk).2)
        (fun {k tx} hk hopen => hothers ?_ hk) fun {k tx} hk hshard hthere hsame => ?_
      · -- what the dropped process had is not open any more
        rintro rfl
        rw [hown] at hk
        cases hk
        rw [hstore] at hopen
        exact World.not_isOpen_abandoned own hopen
      · obtain ⟨hne, hk⟩ := hleft hk
        have htx : own = tx := by
          obtain ⟨shard, t⟩ := tx
          cases hshard
          cases hsame
          rfl
        subst htx
        exact hne (h.apart hk hown hthere)

/-- Every move keeps everything tidy. -/
theorem Tidy.step {e : Engine α} (h : e.Tidy) (m : Move α) : (e.step m).Tidy := by
  have haccounted := h.accounted.step m
  cases m with
  | produce producer task => exact h.begin _
  | poll runner => exact h.begin _
  | go id => exact h.go id
  | drop id => exact h.drop id
  | outage shard on =>
    have hstore : ∀ s, (e.step (.outage shard on)).world.store s =
        e.world.acted shard (.outage on) s := fun s => e.world.store_setStore shard s _
    refine h.acted haccounted hstore (fun s => World.contains_setStore e.world shard s _)
      (fun hk => hk) (fun hk _ => hk) ?_
    intro k tx _ _ _ hsame
    cases hsame
  | fail shard point times =>
    exact h.of_store haccounted (fun s => e.world.store_setFaults shard s point times)
      (fun s => World.contains_setFaults e.world shard s point times) (fun hk => hk) fun hk _ => hk
  | meanwhile surroundings =>
    exact h.of_store haccounted (fun _ => rfl) (fun _ => rfl) (fun hk => hk) fun hk _ => hk

/-- What somebody else does is not done in the transaction of a process. -/
theorem isOwn_of_held {e : Engine α} {k : FiberId} {tx : Handle} {a : Store.Action}
    (hk : e.world.held? k = some [tx]) (ha : a.transaction? = some tx.transaction) :
    e.isOwn tx.shard a = true := by
  obtain ⟨f, hf, hheld⟩ := Option.map_eq_some_iff.1 hk
  unfold isOwn
  refine List.any_eq_true.2 ⟨f, OrderedMap.mem_values.2 ⟨k, hf⟩, ?_⟩
  rw [hheld]
  simp [ha]

/-- An engine stays tidy whatever happens. -/
theorem Tidy.react {e : Engine α} (h : e.Tidy) (event : Event α) : (e.react event).Tidy := by
  cases event with
  | move m => exact h.step m
  | outside shard a =>
    unfold Engine.react
    simp only
    split
    · exact h
    · next hforeign =>
      refine h.acted (h.accounted.of_program? (fun hp => hp) rfl)
        (fun s => e.world.store_setStore shard s _)
        (fun s => World.contains_setStore e.world shard s _) (fun hk => hk) (fun hk _ => hk) ?_
      rintro k tx hk rfl - hsame
      exact hforeign (isOwn_of_held hk hsame)

/-- An engine stays tidy however much happens. -/
theorem Tidy.happen {e : Engine α} (h : e.Tidy) (events : List (Event α)) :
    (e.happen events).Tidy := by
  induction events generalizing e with
  | nil => exact h
  | cons event rest ih => exact ih (h.react event)

/-- Where no process has been started everything is tidy. -/
theorem tidy_ofWorld {w : World (Job α) Unit} (h : w.Unattended) : (ofWorld w).Tidy := by
  have hnone : ∀ k, w.held? k = none := by
    intro k
    unfold World.held?
    rw [h.fibers]
    rfl
  constructor
  case accounted =>
    refine ⟨fun _ => ⟨rfl, rfl⟩, fun {k p} hp => ?_, fun hmem => by cases hmem⟩
    have hempty : w.program? k = none := by
      unfold World.program?
      rw [h.fibers]
      rfl
    rw [show (ofWorld w).world.program? k = none from hempty] at hp
    cases hp
  case wellFormed => exact fun s => (h.reachable s).wellFormed
  case begun => exact fun hbegan => by cases hbegan
  case own => exact fun hhandle => by cases hhandle
  case current => exact fun hbegan => by cases hbegan
  case held =>
    intro k l hk
    rw [show (ofWorld w).world.held? k = none from hnone k] at hk
    cases hk
  case apart =>
    intro i k tx hi
    rw [show (ofWorld w).world.held? i = none from hnone i] at hi
    cases hi
  case stage =>
    intro k l hk
    rw [show (ofWorld w).world.held? k = none from hnone k] at hk
    cases hk

/-- Whatever happens, everything stays tidy. -/
theorem tidy_happen {w : World (Job α) Unit} (h : w.Unattended) (events : List (Event α)) :
    ((ofWorld w).happen events).Tidy :=
  (tidy_ofWorld h).happen events

end Engine

end LeaseQueue
