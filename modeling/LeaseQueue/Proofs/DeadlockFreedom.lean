import Mathlib.Data.List.Induction
import Mathlib.Logic.Relation
import LeaseQueue.Proofs.EngineTransactions
import LeaseQueue.Proofs.NoTaskLost
import LeaseQueue.Proofs.WaitingCalls

/-!
# No deadlock on rows

A store lets a transaction wait for a row as long as another one holds it, and does not see when two
wait for each other.  The engine never gets there: whoever records an outcome in a transaction of
its own has nothing in it yet, and whoever records it in the transaction of the pick finds the row
that this transaction holds.  So no transaction of the engine waits while it holds a row, and nobody
waits for one that waits.
-/

set_option autoImplicit false

namespace LeaseQueue

variable {α : Type}

/-- The row that a request is about to change, in its transaction. -/
def Request.write? {ω : Type} : Request ω → Option (Handle × Location × TaskId)
  | .delete tx location id => some (tx, location, id)
  | .reenqueue tx _ location id _ _ => some (tx, location, id)
  | _ => none

/-- A change that has to wait has found the row held by another transaction. -/
theorem World.held_of_write_waits {ω β : Type} {w : World ω β} {jobProgram : ω → Process ω Unit}
    {fiber : FiberId} {r : Request ω} {tx : Handle} {location : Location} {id : TaskId}
    {condition : Wait} (hwrite : r.write? = some (tx, location, id))
    (h : (w.perform jobProgram fiber r).2 = .wait condition) :
    (w.store tx.shard).access tx.transaction location id = .heldElsewhere ∧
      condition = .release tx.shard (w.store tx.shard).releases := by
  have hwaiting : ∀ (act : Store → TransactionId → Store × Option (Except StoreError Bool)),
      (w.inStoreWaiting tx act).2 = .wait condition →
      (act (w.store tx.shard) tx.transaction).2 = none ∧
        condition = .release tx.shard (act (w.store tx.shard) tx.transaction).1.releases := by
    intro act hact
    unfold inStoreWaiting at hact
    generalize act (w.store tx.shard) tx.transaction = outcome at hact
    obtain ⟨store, answer⟩ := outcome
    cases answer with
    | some answer => cases hact
    | none =>
      cases hact
      exact ⟨rfl, rfl⟩
  cases r with
  | delete tx' location' id' =>
    cases hwrite
    obtain ⟨hnone, hcondition⟩ := hwaiting (fun s t => s.delete t location id) h
    rw [Store.delete_waits hnone] at hcondition
    refine ⟨?_, hcondition⟩
    unfold Store.delete at hnone
    split at hnone
    · split at hnone
      · cases hnone
      · next haccess => exact haccess
      · cases hnone
    · cases hnone
  | reenqueue tx' asOf location' id' delay fresh =>
    cases hwrite
    obtain ⟨hnone, hcondition⟩ := hwaiting (fun s t => s.reenqueue t asOf location id delay fresh) h
    rw [Store.reenqueue_waits hnone] at hcondition
    refine ⟨?_, hcondition⟩
    unfold Store.reenqueue at hnone
    split at hnone
    · split at hnone
      · cases hnone
      · split at hnone
        · cases hnone
        · next haccess => exact haccess
        · cases hnone
    · cases hnone
  | _ => cases hwrite

/-- A row that the transaction holds itself is not one that it has to wait for. -/
theorem Store.access_of_own {s : Store} {tx : TransactionId} {location : Location} {id : TaskId}
    {record : TaskRecord} (h : s.rows.get? id = some ⟨location, record, some tx⟩) :
    s.access tx location id = .granted ⟨location, record, some tx⟩ := by
  unfold Store.access
  simp [h]

namespace Engine

/-- A process wants to change a row and has to wait for it. -/
def BlockedOn (e : Engine α) (id : FiberId) (tx : Handle) (row : TaskId) : Prop :=
  ∃ r next location condition, e.world.program? id = some (.call r next) ∧
    r.write? = some (tx, location, row) ∧
    (e.world.perform Job.work id r).2 = .wait condition

/-- A transaction waits for one that holds the row that it wants to change. -/
def WaitsFor (e : Engine α) (tx other : Handle) : Prop :=
  other.shard = tx.shard ∧ ∃ id row, e.BlockedOn id tx row ∧
    (e.world.store tx.shard).Holds other.transaction row

/-- Nobody waits for a row in vain. -/
structure DeadlockFree (e : Engine α) : Prop where
  /-- Who waits for a row holds none. -/
  empty_handed : ∀ {id tx row}, e.BlockedOn id tx row →
    ∀ other, ¬ (e.world.store tx.shard).Holds tx.transaction other
  /-- A poll in one transaction records the outcome of the task that it has picked there, finds the
  row as it was picked and locked by its own transaction, and does not wait. -/
  shared_finds_row : ∀ {id runner r next tx location row}, e.deed id = some (.poll runner) →
    runner.boundary = .shared → e.world.program? id = some (.call r next) →
    r.write? = some (tx, location, row) →
    ∃ record lease, ⟨.pick tx location lease, .ok (some record)⟩ ∈ e.said id ∧ record.id = row ∧
      (e.world.store tx.shard).rows.get? row = some ⟨location, record, some tx.transaction⟩ ∧
      ∀ condition, (e.world.perform Job.work id r).2 ≠ .wait condition
  /-- No transaction waits for itself, directly or through others. -/
  acyclic : ∀ tx, ¬ Relation.TransGen e.WaitsFor tx tx

/-- What a process stands with as its pick is what it has been told. -/
theorem said_pick (e : Engine α) {id : FiberId} {c : Catch} (h : (e.standing id).pick = some c) :
    ∃ lease, ⟨.pick c.tx c.location lease, .ok (some c.record)⟩ ∈ e.said id := by
  unfold standing at h
  generalize e.said id = said at h
  induction said using List.reverseRecOn with
  | nil => cases h
  | append_singleton rest x ih =>
    rw [List.foldl_append] at h
    have hold : (rest.foldl Standing.after Standing.initial).pick = some c →
        ∃ lease, (⟨.pick c.tx c.location lease, .ok (some c.record)⟩ : Exchange (Job α)) ∈
          rest ++ [x] := by
      intro hrest
      obtain ⟨lease, hmem⟩ := ih hrest
      exact ⟨lease, List.mem_append_left _ hmem⟩
    obtain ⟨r, reply⟩ := x
    cases r with
    | pick tx location lease =>
      rcases reply with e' | _ | record
      · exact hold h
      · exact hold h
      · cases h
        exact ⟨lease, List.mem_append_right _ List.mem_cons_self⟩
    | begin shard =>
      cases reply <;> exact hold h
    | commit tx =>
      cases reply <;> exact hold h
    | _ => exact hold h

/-- What the request to change a row says of its process. -/
theorem Tidy.mayWrite {e : Engine α} (h : e.Tidy) {id : FiberId} {r : Request (Job α)}
    {next : r.Reply → Process (Job α) Unit} {tx : Handle} {location : Location} {row : TaskId}
    (hcall : e.world.program? id = some (.call r next))
    (hwrite : r.write? = some (tx, location, row)) :
    ∃ deed, e.deed id = some deed ∧ (e.standing id).MayWrite tx location row ∧
      deed.Waits (e.standing id) := by
  obtain ⟨deed, hdeed, hpermits⟩ := h.accounted.permits hcall
  refine ⟨deed, hdeed, ?_⟩
  cases r with
  | delete tx' location' row' =>
    cases hwrite
    exact hpermits
  | reenqueue tx' asOf location' row' delay fresh =>
    cases hwrite
    exact hpermits
  | _ => cases hwrite

/-- A process that waits for a row has not done anything in its transaction. -/
theorem Tidy.opened_of_blocked {e : Engine α} (h : e.Tidy) {id : FiberId} {tx : Handle}
    {row : TaskId} (hblocked : e.BlockedOn id tx row) :
    (e.standing id).stage = .opened tx := by
  obtain ⟨r, next, location, condition, hcall, hwrite, hwait⟩ := hblocked
  obtain ⟨deed, -, hmay, -⟩ := h.mayWrite hcall hwrite
  obtain ⟨l, hheld⟩ := exists_held hcall
  rcases hmay with hstage | ⟨record, hstage, rfl⟩
  · exact hstage
  · -- the row that the transaction has picked is its own
    have hholds := h.stage hheld
    rw [hstage] at hholds
    have haccess := (World.held_of_write_waits hwrite hwait).1
    rw [Store.access_of_own hholds.2.1] at haccess
    cases haccess

/-- Who waits for a row holds no other row of that store. -/
theorem Tidy.empty_handed {e : Engine α} (h : e.Tidy) {id : FiberId} {tx : Handle} {row : TaskId}
    (hblocked : e.BlockedOn id tx row) (other : TaskId) :
    ¬ (e.world.store tx.shard).Holds tx.transaction other := by
  have hstage := h.opened_of_blocked hblocked
  obtain ⟨r, next, -, -, hcall, -⟩ := hblocked
  obtain ⟨l, hheld⟩ := exists_held hcall
  have hholds := h.stage hheld
  rw [hstage] at hholds
  rintro ⟨found, hfound, hholder⟩
  exact hholds.2 other found hfound hholder

/-- Nobody waits for a transaction that waits. -/
theorem Tidy.not_waitsFor {e : Engine α} (h : e.Tidy) {tx other third : Handle}
    (hwaits : e.WaitsFor tx other) : ¬ e.WaitsFor other third := by
  obtain ⟨hshard, -, row, -, hholds⟩ := hwaits
  rintro ⟨-, id, row', hblocked, -⟩
  exact h.empty_handed hblocked row (hshard ▸ hholds)

/-- A tidy engine is free of deadlocks. -/
theorem Tidy.deadlockFree {e : Engine α} (h : e.Tidy) : e.DeadlockFree where
  empty_handed hblocked other := h.empty_handed hblocked other
  shared_finds_row {id runner r next tx location row} hdeed hboundary hcall hwrite := by
    obtain ⟨deed, hdeed', hmay, hwaits⟩ := h.mayWrite hcall hwrite
    rw [hdeed] at hdeed'
    cases hdeed'
    obtain ⟨c, hpick, -, -, hstage⟩ := hwaits
    rw [hboundary] at hstage
    have hstage : (e.standing id).stage = .picked c.tx c.location c.record := hstage
    obtain ⟨l, hheld⟩ := exists_held hcall
    have hholds := h.stage hheld
    obtain ⟨lease, hsaid⟩ := e.said_pick hpick
    rcases hmay with hopened | ⟨record, hpicked, rfl⟩
    · rw [hstage] at hopened
      cases hopened
    · rw [hstage] at hholds hpicked
      cases hpicked
      refine ⟨c.record, lease, hsaid, rfl, hholds.2.1, fun condition hwait => ?_⟩
      have haccess := (World.held_of_write_waits hwrite hwait).1
      rw [Store.access_of_own hholds.2.1] at haccess
      cases haccess
  acyclic tx hcycle := by
    obtain ⟨other, hfirst, hrest⟩ := Relation.TransGen.head'_iff.1 hcycle
    rcases Relation.ReflTransGen.cases_head_iff.1 hrest with rfl | ⟨third, hnext, -⟩
    · exact h.not_waitsFor hfirst hfirst
    · exact h.not_waitsFor hfirst hnext

/-- Whatever producers, polls and jobs do at the same time, in whatever order, and whatever others
do to the stores: nobody waits for a row in vain. -/
theorem no_row_deadlock {w : World (Job α) Unit} (h : w.Unattended) (events : List (Event α)) :
    ((ofWorld w).happen events).DeadlockFree :=
  (tidy_happen h events).deadlockFree

/-! ## A poll that waits for another one -/

/-- A runner whose leases are over at once, so that its tasks can be picked again while it works. -/
def hastyRunner (boundary : Boundary) : Runner String :=
  { finishingRunner with
    lease := .fixed .zero
    boundary := boundary }

/-- A poll has committed its pick when another one picks the task again, in one transaction; then
the first one has finished the task and is about to delete it. -/
def contestedPoll : List (Event String) :=
  .move (.produce plainProducer ⟨none, .zero, none, none⟩) :: List.replicate 8 (.move (.go 0)) ++
    .move (.poll (hastyRunner .separate)) :: List.replicate 9 (.move (.go 1)) ++
    .move (.poll (hastyRunner .shared)) :: List.replicate 6 (.move (.go 2)) ++
    List.replicate 6 (.move (.go 1))

set_option maxRecDepth 4000 in
/-- What `no_row_deadlock` says of this run: the first poll waits for the second one, and nobody
waits for the first. -/
theorem contested_poll_deadlock_free :
    ((ofWorld (.initial .epoch [default] [])).happen contestedPoll).WaitsFor ⟨default, 4⟩
        ⟨default, 3⟩ ∧
      ((ofWorld (.initial .epoch [default] [])).happen contestedPoll).DeadlockFree := by
  have hblocked : ((ofWorld (.initial .epoch [default] [])).happen contestedPoll).BlockedOn 1
      ⟨default, 4⟩ 1 := ⟨.delete ⟨default, 4⟩ Store.someQueue 1, _, _, _, rfl, rfl, rfl⟩
  refine ⟨⟨rfl, 1, 1, hblocked, _, rfl, rfl⟩, ?_⟩
  exact no_row_deadlock (World.unattended_initial .epoch [default] []) contestedPoll

end Engine

end LeaseQueue
