import LeaseQueue.Proofs.CommittedView
import LeaseQueue.Proofs.TransactionStages

/-!
# What a transaction keeps while others act

An action of one transaction leaves every other one as it is: open or not, with its journal and with
the rows that it holds (`Undisturbed`).  So what a stage says of a transaction holds until its own
process goes on (`Stage.Holds`): a transaction that has just been opened holds no row, and the row
that a transaction has picked stays where it is, as it was picked and locked.
-/

set_option autoImplicit false

namespace LeaseQueue

namespace Store

/-- What one transaction has is the same in two stores. -/
structure Undisturbed (s s' : Store) (tx : TransactionId) : Prop where
  isOpen : s'.isOpen tx = s.isOpen tx
  journal : s'.journal tx = s.journal tx
  rows : ∀ {id row}, row.holder = some tx →
    (s'.rows.get? id = some row ↔ s.rows.get? id = some row)

/-- What a transaction has is the same in one store. -/
theorem Undisturbed.refl (s : Store) (tx : TransactionId) : Undisturbed s s tx :=
  ⟨rfl, rfl, fun _ => .rfl⟩

/-- A change inside one transaction does not disturb another. -/
theorem Touch.undisturbed {s s' : Store} {tx other : TransactionId} {id : TaskId}
    {noted : Option Undo} (h : Touch s tx id noted s') (hne : other ≠ tx) :
    Undisturbed s s' other where
  isOpen := h.isOpen_eq other
  journal := (h.journal other).trans (if_neg hne)
  rows {k row} hholder := by
    by_cases hk : k = id
    · subst hk
      constructor
      · intro hrow
        have hheld := (h.held hrow).2
        rw [hholder, Option.some.injEq] at hheld
        exact absurd hheld hne
      · intro hrow
        have hfree := h.free hrow
        rw [hholder] at hfree
        exact absurd (by simpa using hfree) hne
    · rw [h.others hk]

/-- The end of one transaction does not disturb another. -/
theorem Ended.undisturbed {s s' : Store} {tx other : TransactionId} (hs : s.WellFormed)
    (h : Ended s tx s') (hne : other ≠ tx) : Undisturbed s s' other where
  isOpen := by simp [h.isOpen_eq, hne]
  journal := (h.journal other).trans (if_neg hne)
  rows {k row} hholder := by
    -- a row that the other transaction holds is not one of those that have been changed
    have hsame : ∀ {before : Row}, s.rows.get? k = some before → before.holder = some other →
        s'.rows.get? k = some before := by
      intro before hbefore hother
      have hnot : k ∉ s.touched tx := by
        intro hid
        have howned := hs.owned hid hbefore
        rw [hother, Option.some.injEq] at howned
        exact hne howned
      rw [h.others hnot, hbefore, Option.map_some, hother, if_neg (by simpa using hne)]
    constructor
    · intro hrow
      obtain ⟨-, before, hbefore, hother⟩ := h.holder hrow hholder
      rw [hsame hbefore hother, Option.some.injEq] at hrow
      exact hrow ▸ hbefore
    · intro hrow
      exact hsame hrow hholder

/-- An action of somebody else leaves a transaction as it is. -/
theorem Change.undisturbed {s s' : Store} {a : Action} {answer : Answer} {tx : TransactionId}
    (hs : s.WellFormed) (h : Change s a answer s') (hother : a.transaction? ≠ some tx)
    (hbegun : tx ≤ s.opened) : Undisturbed s s' tx := by
  cases h with
  | idle => exact .refl s tx
  | outage on => exact ⟨rfl, rfl, fun _ => .rfl⟩
  | begun =>
    refine ⟨?_, hs.journal_opening tx, fun _ => .rfl⟩
    have hne : tx ≠ s.opened + 1 := Nat.ne_of_lt (Nat.lt_succ_of_le hbegun)
    rw [isOpen_opening]
    simp [hne]
  | @touched _ _ actor _ _ _ ha h =>
    refine h.undisturbed ?_
    rintro rfl
    exact hother ha
  | @kept actor _ h =>
    refine h.undisturbed hs ?_
    rintro rfl
    exact hother rfl
  | @takenBack _ _ actor _ ha h =>
    refine h.undisturbed hs ?_
    rintro rfl
    rcases ha with ⟨rfl, -⟩ | ⟨rfl, -⟩
    · exact hother rfl
    · exact hother rfl

/-- What is committed of a row that a transaction has changed and holds stays the same. -/
theorem Undisturbed.committed_eq {s s' : Store} {tx : TransactionId} {id : TaskId} {row : Row}
    (h : Undisturbed s s' tx) (hs : s.WellFormed) (hs' : s'.WellFormed)
    (hrow : s.rows.get? id = some row) (hholder : row.holder = some tx)
    (hid : id ∈ s.touched tx) : s'.committed id = s.committed id := by
  have hid' : id ∈ s'.touched tx := by
    unfold touched at hid ⊢
    rwa [h.journal]
  have hcontent : s'.content id = s.content id := by
    unfold content
    rw [(h.rows hholder).2 hrow, hrow]
  rw [hs'.committed_of_touched hid', hs.committed_of_touched hid]
  unfold restored entries
  rw [h.journal, hcontent]

end Store

/-! ## What a stage says of its store -/

/-- What is known of the rows of a transaction, by its stage. -/
def Stage.Holds (store : ShardId → Store) : Stage → Prop
  | outside => True
  | opened tx => (store tx.shard).journal tx.transaction = [] ∧
    ∀ id row, (store tx.shard).rows.get? id = some row → row.holder ≠ some tx.transaction
  | picked tx location record => (store tx.shard).isOpen tx.transaction = true ∧
    (store tx.shard).rows.get? record.id = some ⟨location, record, some tx.transaction⟩ ∧
    record.id ∈ (store tx.shard).touched tx.transaction
  | spent _ => True

/-- A stage goes on to hold if its transaction is left as it is. -/
theorem Stage.Holds.undisturbed {store store' : ShardId → Store} {stage : Stage}
    (h : stage.Holds store) (hsame : ∀ tx, stage.handle? = some tx →
      Store.Undisturbed (store tx.shard) (store' tx.shard) tx.transaction) :
    stage.Holds store' := by
  cases stage with
  | outside => trivial
  | opened tx =>
    have hsame := hsame tx rfl
    refine ⟨hsame.journal.trans h.1, fun id row hrow hholder => ?_⟩
    exact h.2 id row ((hsame.rows hholder).1 hrow) hholder
  | picked tx location record =>
    have hsame := hsame tx rfl
    obtain ⟨hopen, hrow, hid⟩ := h
    refine ⟨hsame.isOpen.trans hopen, (hsame.rows rfl).2 hrow, ?_⟩
    unfold Store.touched at hid ⊢
    rwa [hsame.journal]
  | spent tx => trivial

namespace World

variable {ω β : Type} {w : World ω β}

/-- An open transaction is one of a shard that is there. -/
theorem contains_of_isOpen {shard : ShardId} {tx : TransactionId}
    (h : (w.store shard).isOpen tx = true) : w.shards.contains shard = true := by
  by_contra hnot
  rw [store_of_not_contains hnot] at h
  cases h

/-- Every store after an action on one of them has come from the same store by the action, or is the
same. -/
theorem wellFormed_acted (hs : ∀ s, (w.store s).WellFormed) (shard : ShardId) (a : Store.Action)
    (s : ShardId) : (w.acted shard a s).WellFormed := by
  unfold acted
  split
  · exact (hs shard).step (Store.perform_step _ a)
  · exact hs s

/-- No action makes a store forget how many transactions it has opened. -/
theorem opened_le_acted (hs : ∀ s, (w.store s).WellFormed) (shard : ShardId) (a : Store.Action)
    (s : ShardId) : (w.store s).opened ≤ (w.acted shard a s).opened := by
  unfold acted
  split
  · next h =>
    rw [h.1]
    exact (Store.step_change (hs shard) (Store.perform_step _ a)).opened_le
  · exact Nat.le_refl _

/-- A transaction that has begun and is open was open before. -/
theorem isOpen_of_acted (hs : ∀ s, (w.store s).WellFormed) {shard s : ShardId} {a : Store.Action}
    {tx : TransactionId} (hbegun : w.shards.contains s = true → tx ≤ (w.store s).opened)
    (hopen : (w.acted shard a s).isOpen tx = true) : (w.store s).isOpen tx = true := by
  unfold acted at hopen
  split at hopen
  · next h =>
    obtain ⟨rfl, hthere⟩ := h
    by_contra hended
    exact (Store.step_change (hs s) (Store.perform_step _ a)).not_isOpen (hbegun hthere) hended hopen
  · exact hopen

/-- An action of somebody else leaves a transaction as it is. -/
theorem undisturbed_acted (hs : ∀ s, (w.store s).WellFormed) {shard : ShardId} {a : Store.Action}
    {tx : Handle} (hbegun : w.shards.contains tx.shard = true →
      tx.transaction ≤ (w.store tx.shard).opened)
    (hother : tx.shard = shard → w.shards.contains shard = true →
      a.transaction? ≠ some tx.transaction) :
    Store.Undisturbed (w.store tx.shard) (w.acted shard a tx.shard) tx.transaction := by
  unfold acted
  split
  · next h =>
    obtain ⟨rfl, hthere⟩ := h
    exact (Store.step_change (hs _) (Store.perform_step _ a)).undisturbed (hs _) (hother rfl hthere)
      (hbegun hthere)
  · exact .refl _ _

/-- So does a request of somebody else. -/
theorem undisturbed_perform (hs : ∀ s, (w.store s).WellFormed) {jobProgram : ω → Process ω Unit}
    {id : FiberId} {r : Request ω} {tx : Handle} (hbegun : w.shards.contains tx.shard = true →
      tx.transaction ≤ (w.store tx.shard).opened)
    (hother : ∀ a, r.action? w.clock = some (tx.shard, a) → w.shards.contains tx.shard = true →
      a.transaction? ≠ some tx.transaction) :
    Store.Undisturbed (w.store tx.shard) ((w.perform jobProgram id r).1.store tx.shard)
      tx.transaction := by
  rw [store_perform]
  cases haction : r.action? w.clock with
  | none => exact .refl _ _
  | some action =>
    obtain ⟨shard, a⟩ := action
    refine undisturbed_acted hs hbegun ?_
    rintro rfl hthere
    exact hother a haction hthere

end World

/-! ## What an exchange makes of the stage -/

section Exchanges

variable {ω β : Type} {w w' : World ω β} {jobProgram : ω → Process ω Unit} {id : FiberId}

/-- A transaction that has just been opened is new. -/
theorem perform_begin_new {shard : ShardId} {tx : Handle}
    (h : w.perform jobProgram id (.begin shard) = (w', .answer (.ok tx))) :
    tx = ⟨shard, (w.store shard).opened + 1⟩ ∧
      w'.store shard = if w.shards.contains shard = true then (w.store shard).opening
        else w.store shard := by
  have hanswer : (w.begin id shard).2 = .ok tx := Reply.answer.inj (congrArg Prod.snd h)
  have havailable : (w.store shard).unavailable = false := by
    unfold World.begin Store.begin at hanswer
    cases hunavailable : (w.store shard).unavailable with
    | false => rfl
    | true => simp [hunavailable] at hanswer
  have hbegin := Store.begin_of_available havailable
  constructor
  · unfold World.begin at hanswer
    rw [hbegin] at hanswer
    exact (Except.ok.inj hanswer).symm
  · have hstore := w.store_perform jobProgram id (.begin shard) shard
    rw [h] at hstore
    have hstore : w'.store shard = w.acted shard .begin shard := hstore
    rw [hstore]
    simp [World.acted, Store.perform, hbegin]

/-- A transaction that has just been opened holds nothing. -/
theorem holds_begin (hs : ∀ s, (w.store s).WellFormed) {shard : ShardId} {tx : Handle}
    (h : w.perform jobProgram id (.begin shard) = (w', .answer (.ok tx))) :
    (Stage.opened tx).Holds w'.store := by
  obtain ⟨rfl, hstore⟩ := perform_begin_new h
  have hclosed : ¬ (w.store shard).isOpen ((w.store shard).opened + 1) = true := fun hopen =>
    absurd ((hs shard).open_le hopen) (Nat.not_succ_le_self _)
  have hjournal : (w'.store shard).journal ((w.store shard).opened + 1) = [] := by
    rw [hstore]
    split
    · rw [(hs shard).journal_opening]
      exact Store.journal_of_not_isOpen hclosed
    · exact Store.journal_of_not_isOpen hclosed
  have hrows : (w'.store shard).rows = (w.store shard).rows := by
    rw [hstore]
    split <;> rfl
  refine ⟨hjournal, fun k row hrow hholder => ?_⟩
  have hrow : (w.store shard).rows.get? k = some row := hrows ▸ hrow
  exact hclosed ((hs shard).holder_open hrow hholder)

/-- What is known of a pick that has found a task. -/
structure PickStep (s s' : Store) (tx : TransactionId) (location : Location)
    (record : TaskRecord) : Prop where
  isOpen : s.isOpen tx = true
  before : ∃ row, s.rows.get? record.id = some row ∧ row.location = location ∧
    row.holder.all (· == tx) = true
  after : s'.rows.get? record.id = some ⟨location, record, some tx⟩
  touch : ∃ noted, Store.Touch s tx record.id (some noted) s'

/-- A pick that finds a record takes its row for the transaction. -/
theorem pickStep_of_perform {s : Store} (hs : s.WellFormed) {tx : TransactionId} {now : Instant}
    {location : Location} {lease : LeaseSchedule} {record : TaskRecord}
    (h : (s.perform (.pick tx now location lease)).2 = .picked (.ok (some record))) :
    PickStep s (s.perform (.pick tx now location lease)).1 tx location record := by
  have hstep := Store.perform_step s (.pick tx now location lease)
  generalize (s.perform (.pick tx now location lease)).1 = s' at hstep
  rw [h] at hstep
  cases hstep with
  | idle h => cases h
  | @picked _ _ processTime _ _ row isOpen hcandidate hdeadline =>
    obtain ⟨hrow, hlocation, hfree, -⟩ := hs.of_candidate hcandidate
    refine ⟨isOpen, ⟨row, hrow, hlocation, hfree⟩, ?_, _,
      Store.touch_rewritten hs isOpen hrow hfree rfl rfl rfl⟩
    show (s.rows.insert row.record.id (Store.leased tx processTime row)).get? row.record.id = _
    rw [OrderedMap.get?_insert, if_pos rfl]
    unfold Store.leased
    rw [hlocation]

/-- A request to pick that finds a record takes its row for the transaction. -/
theorem perform_pick_step (hs : ∀ s, (w.store s).WellFormed) {tx : Handle} {location : Location}
    {lease : LeaseSchedule} {record : TaskRecord}
    (h : w.perform jobProgram id (.pick tx location lease) = (w', .answer (.ok (some record)))) :
    PickStep (w.store tx.shard) (w'.store tx.shard) tx.transaction location record := by
  have hanswer : ((w.store tx.shard).pick tx.transaction w.clock location lease).2 =
      .ok (some record) := Reply.answer.inj (congrArg Prod.snd h)
  have hpicked : ((w.store tx.shard).perform
      (.pick tx.transaction w.clock location lease)).2 = .picked (.ok (some record)) := by
    simp only [Store.perform, Prod.map_snd, hanswer]
  have hstep := pickStep_of_perform (hs tx.shard) hpicked
  have hthere := World.contains_of_isOpen hstep.isOpen
  have hstore := w.store_perform jobProgram id (.pick tx location lease) tx.shard
  rw [h] at hstore
  have hstore : w'.store tx.shard = w.acted tx.shard _ tx.shard := hstore
  rw [hstore, World.acted, if_pos ⟨rfl, hthere⟩]
  exact hstep

/-- A pick that has found nothing leaves the stores alone. -/
theorem store_of_pick_none {tx : Handle} {location : Location} {lease : LeaseSchedule}
    (h : w.perform jobProgram id (.pick tx location lease) = (w', .answer (.ok none)))
    (s : ShardId) : w'.store s = w.store s := by
  have hanswer : ((w.store tx.shard).pick tx.transaction w.clock location lease).2 = .ok none :=
    Reply.answer.inj (congrArg Prod.snd h)
  have hstore := w.store_perform jobProgram id (.pick tx location lease) s
  rw [h] at hstore
  have hstore : w'.store s = w.acted tx.shard _ s := hstore
  rw [hstore, World.acted]
  split
  · next hand =>
    obtain ⟨rfl, -⟩ := hand
    have hstep := Store.perform_step (w.store tx.shard) (.pick tx.transaction w.clock location lease)
    generalize ((w.store tx.shard).perform (.pick tx.transaction w.clock location lease)).1 = s' at *
    simp only [Store.perform, Prod.map_snd, hanswer] at hstep
    cases hstep with
    | idle => rfl
  · rfl

/-- A stage that is not about to change goes on to hold. -/
theorem Stage.Holds.perform {stage : Stage} (h : stage.Holds w.store)
    (jobProgram : ω → Process ω Unit) (id : FiberId) (hs : ∀ s, (w.store s).WellFormed)
    {r : Request ω}
    (hbegun : ∀ tx, stage.handle? = some tx → w.shards.contains tx.shard = true →
      tx.transaction ≤ (w.store tx.shard).opened)
    (hother : ∀ tx a, stage.handle? = some tx → r.action? w.clock = some (tx.shard, a) →
      w.shards.contains tx.shard = true → a.transaction? ≠ some tx.transaction) :
    stage.Holds (w.perform jobProgram id r).1.store :=
  h.undisturbed fun tx htx => w.undisturbed_perform hs (hbegun tx htx) fun a => hother tx a htx

/-- What an exchange makes of the stage holds. -/
theorem Standing.holds_after {s : Standing} {home : ShardId} {waits : Standing → Prop}
    (hs : ∀ s, (w.store s).WellFormed) {r : Request ω} {reply : r.Reply}
    (hpermits : s.Permits home waits r) (h : s.stage.Holds w.store)
    (hbegun : ∀ tx, s.stage.handle? = some tx → w.shards.contains tx.shard = true →
      tx.transaction ≤ (w.store tx.shard).opened)
    (hperform : w.perform jobProgram id r = (w', .answer reply)) :
    (s.after ⟨r, reply⟩).stage.Holds w'.store := by
  have hw : w' = (w.perform jobProgram id r).1 := by rw [hperform]
  -- a request that is nobody's action leaves the stage as it is
  have hkept : (∀ shard a, r.action? w.clock = some (shard, a) → a.transaction? = none) →
      s.stage.Holds w'.store := by
    intro hnobody
    rw [hw]
    refine h.perform jobProgram id hs hbegun fun tx a _ ha _ => ?_
    rw [hnobody _ a ha]
    simp
  cases r with
  | begin shard =>
    cases reply with
    | error e =>
      refine hkept fun shard' a ha => ?_
      cases ha
      rfl
    | ok tx => exact holds_begin hs hperform
  | pick tx location lease =>
    cases reply with
    | error e => trivial
    | ok picked =>
      cases picked with
      | none =>
        have hsame := store_of_pick_none hperform
        rw [funext hsame]
        exact h
      | some record =>
        obtain ⟨hopen, -, hafter, noted, htouch⟩ := perform_pick_step hs hperform
        refine ⟨(htouch.isOpen_eq _).trans hopen, hafter, ?_⟩
        unfold Store.touched
        rw [htouch.journal, if_pos rfl, Option.toList_some, List.singleton_append, List.map_cons,
          htouch.noted_id rfl]
        exact List.mem_cons_self
  | enqueue tx location task => trivial
  | delete tx location id => trivial
  | reenqueue tx asOf location id delay fresh => trivial
  | commit tx =>
    cases reply <;> trivial
  | rollback tx => trivial
  | abandon tx => trivial
  | outage shard on =>
    refine hkept fun shard' a ha => ?_
    cases ha
    rfl
  | _ => exact hkept fun _ _ ha => by cases ha

end Exchanges

end LeaseQueue
