import Mathlib.Data.List.Induction
import LeaseQueue.Proofs.OutcomeWrites
import LeaseQueue.Proofs.WaitingCalls

/-!
# No lost wake-up

A call that has found its row held by another transaction waits for that transaction's signal.
Until the signal is given the other transaction is pending, and it holds the row, or has deleted it,
or is about to end; the signal itself wakes the call, because the call began to listen before it
looked.  So nobody waits for a signal that has been given already (`Orderly`), whatever the others
do between the steps of the call.

Main statement: whoever waits and has not been woken waits for a transaction that has held its row
and has still to give its signal; and when all other transactions have given theirs, the call has
been woken, and finds the row free or gone when it looks again.
-/

set_option autoImplicit false

namespace LeaseQueue

open Store (Write Touch Ended)

namespace Store

/-- What one transaction has is the same in two stores. -/
structure Spares (s s' : Store) (tx : TransactionId) : Prop where
  isOpen : s.isOpen tx = true → s'.isOpen tx = true
  holds : ∀ {id}, s.Holds tx id → s'.Holds tx id
  entries : ∀ id, s'.entries tx id = s.entries tx id

/-- What changes nothing spares every transaction. -/
theorem Spares.refl (s : Store) (tx : TransactionId) : Spares s s tx := ⟨id, id, fun _ => rfl⟩

/-- A touch spares the other transactions. -/
theorem Touch.spares {s s' : Store} {tx other : TransactionId} {id : TaskId} {noted : Option Undo}
    (h : Touch s tx id noted s') (hne : other ≠ tx) : Spares s s' other where
  isOpen hopen := (h.isOpen_eq other).trans hopen
  holds := by
    rintro k ⟨row, hrow, hholder⟩
    have hk : k ≠ id := by
      rintro rfl
      have hfree := h.free hrow
      rw [hholder] at hfree
      exact hne (by simpa using hfree)
    exact ⟨row, (h.others hk).trans hrow, hholder⟩
  entries _ := h.entries_of_ne (.inl hne)

/-- A row that one transaction holds is in nobody else's journal. -/
theorem WellFormed.not_touched_of_holder {s : Store} (hs : s.WellFormed)
    {tx other : TransactionId} {id : TaskId} {row : Row} (hrow : s.rows.get? id = some row)
    (hholder : row.holder = some other) (hne : other ≠ tx) : id ∉ s.touched tx := by
  intro hid
  have howned := hs.owned hid hrow
  rw [hholder, Option.some.injEq] at howned
  exact hne howned

/-- The end of a transaction spares the others. -/
theorem Ended.spares {s s' : Store} {tx other : TransactionId} (hs : s.WellFormed)
    (h : Ended s tx s') (hne : other ≠ tx) : Spares s s' other where
  isOpen hopen := by
    rw [h.isOpen_eq, hopen]
    simpa using hne
  holds := by
    rintro k ⟨row, hrow, hholder⟩
    have hk := hs.not_touched_of_holder hrow hholder hne
    refine ⟨row, ?_, hholder⟩
    rw [h.others hk, hrow, Option.map_some, hholder, if_neg (by simpa using hne)]
  entries := h.entries_of_ne hne

/-- Opening a transaction spares the ones that are open. -/
theorem WellFormed.spares_opening {s : Store} (hs : s.WellFormed) (tx : TransactionId) :
    Spares s s.opening tx where
  isOpen hopen := by rw [isOpen_opening, hopen, Bool.or_true]
  holds h := h
  entries id := by
    unfold entries
    rw [hs.journal_opening]

/-- A direct change of a process time spares every transaction. -/
theorem spares_setProcessTime (s : Store) (tx : TransactionId) (id : TaskId) (t : Instant) :
    Spares s (s.setProcessTime id t).1 tx where
  isOpen hopen := hopen
  holds := by
    rintro k ⟨row, hrow, hholder⟩
    unfold Holds
    simp only [Store.setProcessTime, OrderedMap.get?_modify, hrow]
    split
    · exact ⟨_, rfl, hholder⟩
    · exact ⟨row, rfl, hholder⟩
  entries _ := rfl

/-! ## The steps of a call and of a rollback -/

/-- To take hold of a row is to touch it. -/
theorem touch_hold {s : Store} (hs : s.WellFormed) {tx : TransactionId}
    (isOpen : s.isOpen tx = true) {id : TaskId} {row : Row} (hrow : s.rows.get? id = some row)
    (hfree : row.holder.all (· == tx) = true) : Touch s tx id none (s.hold tx id) where
  isOpen := isOpen
  free h := by
    rw [hrow] at h
    cases h
    exact hfree
  new h := by
    rw [hrow] at h
    cases h
  held h := by
    simp only [hold, OrderedMap.get?_modify, if_pos, hrow, Option.map_some,
      Option.some.injEq] at h
    subst h
    exact ⟨(hs.record_id hrow : row.record.id = id), rfl⟩
  others hk := (OrderedMap.get?_modify _ _ _ _).trans (if_neg hk)
  id_lt := hs.row_lt hrow
  nextId_le := Int.le_refl _
  opened := rfl
  isOpen_eq _ := rfl
  journal t := by
    split <;> rfl
  noted_id h := by cases h
  explains h := by cases h
  stays _ := by
    simp only [content, hold, OrderedMap.get?_modify, if_pos, hrow, Option.map_some]
    rfl

/-- A transaction that has locked a row holds it. -/
theorem holds_hold {s : Store} {tx : TransactionId} {id : TaskId} {row : Row}
    (hrow : s.rows.get? id = some row) : (s.hold tx id).Holds tx id := by
  refine ⟨{ row with holder := some tx }, ?_, rfl⟩
  simp only [hold, OrderedMap.get?_modify, if_pos, hrow, Option.map_some]

/-- To change a row of one's own is to touch it. -/
theorem touch_apply {s : Store} (hs : s.WellFormed) {tx : TransactionId}
    (isOpen : s.isOpen tx = true) {w : Write} (hholds : s.Holds tx w.id) :
    ∃ noted, Touch s tx w.id noted (s.apply tx w) := by
  obtain ⟨row, hrow, hholder⟩ := hholds
  have hfree : row.holder.all (· == tx) = true := by simp [hholder]
  unfold apply
  rw [hrow]
  cases w.change with
  | delete => exact ⟨_, touch_deleted hs isOpen hrow hfree⟩
  | reschedule processTime fresh =>
    exact ⟨_, touch_rewritten hs isOpen hrow hfree rfl rfl hholder⟩

section Drained

variable {s : Store} {tx : TransactionId}

/-- Undoing a journal leaves the transactions open that are. -/
theorem isOpen_drained (hopen : s.isOpen tx = true) (t : TransactionId) :
    (s.drained tx).isOpen t = s.isOpen t := by
  simp only [isOpen, OrderedMap.contains, drained, OrderedMap.get?_insert] at hopen ⊢
  split
  · next heq => rw [heq, hopen]; rfl
  · rfl

/-- An undone journal is empty, and the other journals are as before. -/
theorem journal_drained (t : TransactionId) :
    (s.drained tx).journal t = if t = tx then [] else s.journal t := by
  simp only [journal, drained, OrderedMap.get?_insert]
  split <;> rfl

/-- A row that is there after a journal was undone was there before or was brought back, and its
lock is not new. -/
theorem row_of_drained {id : TaskId} {row : Row} (h : (s.drained tx).rows.get? id = some row) :
    (s.rows.get? id = some row ∨ row.record.id = id) ∧
      ∀ t, row.holder = some t → ∃ before, s.rows.get? id = some before ∧ before.holder = some t :=
  row_of_foldl_undo (s.journal tx) h

/-- Undoing a journal leaves the rows as they are that it does not touch. -/
theorem get?_drained {id : TaskId} (h : id ∉ s.touched tx) :
    (s.drained tx).rows.get? id = s.rows.get? id :=
  get?_foldl_undo_of_not_mem s.rows h

/-- Undoing a journal lets go of its rows and of no others. -/
theorem mem_touched_drained {t : TransactionId} {id : TaskId} :
    id ∈ (s.drained tx).touched t ↔ t ≠ tx ∧ id ∈ s.touched t := by
  unfold touched
  rw [journal_drained]
  split <;> simp_all

/-- Undoing a journal leaves the store well formed. -/
theorem WellFormed.drained (hs : s.WellFormed) (hopen : s.isOpen tx = true) :
    (s.drained tx).WellFormed where
  record_id h := by
    rcases (row_of_drained h).1 with hrow | hid
    · exact hs.record_id hrow
    · exact hid
  row_lt {id row} h := by
    by_cases htouched : id ∈ s.touched tx
    · exact hs.touched_lt htouched
    · exact hs.row_lt ((get?_drained htouched).symm.trans h)
  touched_lt h := hs.touched_lt (mem_touched_drained.1 h).2
  open_le h := hs.open_le ((isOpen_drained hopen _).symm.trans h)
  holder_open h hholder := by
    obtain ⟨before, hbefore, hholder⟩ := (row_of_drained h).2 _ hholder
    exact (isOpen_drained hopen _).trans (hs.holder_open hbefore hholder)
  owned {t id row} htouched h := by
    obtain ⟨hne, htouched⟩ := mem_touched_drained.1 htouched
    have hother : id ∉ s.touched tx := fun hid => hne (hs.disjoint htouched hid)
    exact hs.owned htouched ((get?_drained hother).symm.trans h)
  disjoint h h' := hs.disjoint (mem_touched_drained.1 h).2 (mem_touched_drained.1 h').2
  rewinds t id := by
    by_cases hid : id ∈ (s.drained tx).touched t
    · obtain ⟨hne, htouched⟩ := mem_touched_drained.1 hid
      have hother : id ∉ s.touched tx := fun hid => hne (hs.disjoint htouched hid)
      have h := hs.rewinds t id
      unfold content entries at h ⊢
      rw [get?_drained hother, journal_drained, if_neg hne]
      exact h
    · rw [entries_eq_nil hid]
      exact .nil

/-- Undoing a journal spares the other transactions. -/
theorem WellFormed.spares_drained (hs : s.WellFormed) (hopen : s.isOpen tx = true)
    {other : TransactionId} (hne : other ≠ tx) : Spares s (s.drained tx) other where
  isOpen h := (isOpen_drained hopen other).trans h
  holds := by
    rintro k ⟨row, hrow, hholder⟩
    have hk := hs.not_touched_of_holder hrow hholder hne
    exact ⟨row, (get?_drained hk).trans hrow, hholder⟩
  entries id := by
    unfold entries
    rw [journal_drained, if_neg hne]

end Drained

end Store

/-! ## Who is waited for -/

namespace Traffic

/-- What a transaction that somebody waits for has to do with the row. -/
inductive Involved (t : Traffic) (tx : TransactionId) (id : TaskId) : Prop
  | holds (h : t.store.Holds tx id)
  | deleted {location : Location} {before : TaskRecord}
    (h : Undo.deleted location before ∈ t.store.entries tx id)
  | ending (h : (t.phase tx).ending)

/-- Every call that waits and has not been woken waits for a pending transaction that has held its
row. -/
structure Orderly (held : TransactionId → TaskId → Prop) (t : Traffic) : Prop where
  wellFormed : t.store.WellFormed
  isOpen : ∀ {tx}, (t.phase tx).call?.isSome ∨ t.phase tx = .undone → t.store.isOpen tx = true
  heard_le : ∀ {tx w heard}, (t.phase tx).call? = some (w, heard) → heard ≤ t.signals
  granted : ∀ {tx w}, t.phase tx = .granted w → t.store.isOpen tx = true ∧ t.store.Holds tx w.id
  awaits : ∀ {tx w heard}, (t.phase tx).waits? = some (w, heard) → heard = t.signals →
    ∃ other, other ≠ tx ∧ t.Pending other ∧ t.Involved other w.id ∧ held other w.id

section Steps

variable {held : TransactionId → TaskId → Prop} {t : Traffic} {tx : TransactionId}

/-- A touched row stays with the transaction, unless it has been deleted. -/
theorem Involved.touch {s' : Store} {phase : Phase} {k id : TaskId} {noted : Option Undo}
    (h : t.Involved tx id) (hphase : ¬ (t.phase tx).ending) (htouch : Touch t.store tx k noted s') :
    (t.become tx s' phase).Involved tx id := by
  cases h with
  | holds h =>
    obtain ⟨row, hrow, hholder⟩ := h
    by_cases hk : id = k
    · subst hk
      cases hrow' : s'.rows.get? id with
      | some row' => exact .holds ⟨row', hrow', (htouch.held hrow').2⟩
      | none =>
        -- the row is gone, so the change was a deletion
        cases hnoted : noted with
        | none =>
          have hstays := htouch.stays hnoted
          simp [Store.content, hrow, hrow'] at hstays
        | some u =>
          have hexplains := htouch.explains hnoted
          have hentries := htouch.entries_self
          have hgone : s'.content id = none := by simp [Store.content, hrow']
          rw [hnoted] at hentries
          rw [hgone] at hexplains
          generalize t.store.content id = before at hexplains
          cases hexplains with
          | @deleted location before =>
            have hmem : Undo.deleted location before ∈ s'.entries tx id := by
              rw [hentries]
              exact List.mem_cons_self
            exact .deleted hmem
    · exact .holds ⟨row, (htouch.others hk).trans hrow, hholder⟩
  | @deleted location before h =>
    have hmem : Undo.deleted location before ∈ s'.entries tx id := by
      by_cases hk : id = k
      · subst hk
        exact htouch.entries_self ▸ List.mem_append_right _ h
      · exact htouch.entries_of_ne (.inr hk) ▸ h
    exact .deleted hmem
  | ending h => exact absurd h hphase

/-- One transaction goes on, and the others are spared. -/
theorem Orderly.become (h : Orderly held t) {s' : Store} {phase : Phase}
    (wellFormed : s'.WellFormed) (hspares : ∀ other, other ≠ tx → Store.Spares t.store s' other)
    (hself : t.Pending tx → s'.isOpen tx = true ∨ phase = .freed)
    (hinvolved : ∀ id, t.Involved tx id → (t.become tx s' phase).Involved tx id)
    (hopen : phase.call?.isSome ∨ phase = .undone → s'.isOpen tx = true)
    (hheard : ∀ {w heard}, phase.call? = some (w, heard) → heard ≤ t.signals)
    (hgranted : ∀ {w}, phase = .granted w → s'.isOpen tx = true ∧ s'.Holds tx w.id)
    (hawaits : ∀ {w heard}, phase.waits? = some (w, heard) → heard = t.signals →
      ∃ other, other ≠ tx ∧ t.Pending other ∧ t.Involved other w.id ∧ held other w.id) :
    Orderly held (t.become tx s' phase) := by
  have hpending : ∀ other, t.Pending other → (t.become tx s' phase).Pending other := by
    intro other hother
    unfold Pending
    by_cases hne : other = tx
    · subst hne
      rw [store_become, phase_become, if_pos rfl]
      exact hself hother
    · rw [store_become, phase_become, if_neg hne]
      exact hother.imp_left (hspares other hne).isOpen
  have hall : ∀ other id, t.Involved other id → (t.become tx s' phase).Involved other id := by
    intro other id hother
    by_cases hne : other = tx
    · subst hne
      exact hinvolved id hother
    · have hsame : (t.become tx s' phase).phase other = t.phase other := by
        rw [phase_become, if_neg hne]
      cases hother with
      | holds h => exact .holds ((hspares other hne).holds h)
      | deleted h => exact .deleted ((hspares other hne).entries id ▸ h)
      | ending h => exact .ending (hsame ▸ h)
  refine ⟨wellFormed, ?_, ?_, ?_, ?_⟩
  · intro other hother
    rw [phase_become] at hother
    split at hother
    · next heq => exact heq ▸ hopen hother
    · next hne => exact (hspares other hne).isOpen (h.isOpen hother)
  · intro other w heard hother
    rw [phase_become] at hother
    split at hother
    · exact hheard hother
    · exact h.heard_le hother
  · intro other w hother
    rw [phase_become] at hother
    split at hother
    · next heq => exact heq ▸ hgranted hother
    · next hne =>
      obtain ⟨hisOpen, hholds⟩ := h.granted hother
      exact ⟨(hspares other hne).isOpen hisOpen, (hspares other hne).holds hholds⟩
  · intro other w heard hother hheard
    have hwaits : ∃ third, third ≠ other ∧ t.Pending third ∧ t.Involved third w.id ∧
        held third w.id := by
      rw [phase_become] at hother
      split at hother
      · next heq => exact heq ▸ hawaits hother hheard
      · exact h.awaits hother hheard
    obtain ⟨third, hne, hthird, hrow, hheld⟩ := hwaits
    exact ⟨third, hne, hpending third hthird, hall third _ hrow, hheld⟩

/-- A change of the store that spares all transactions keeps the order. -/
theorem Orderly.store (h : Orderly held t) {s' : Store} (wellFormed : s'.WellFormed)
    (hspares : ∀ tx, Store.Spares t.store s' tx) : Orderly held { t with store := s' } where
  wellFormed := wellFormed
  isOpen hphase := (hspares _).isOpen (h.isOpen hphase)
  heard_le := h.heard_le
  granted hphase := by
    obtain ⟨hopen, hholds⟩ := h.granted hphase
    exact ⟨(hspares _).isOpen hopen, (hspares _).holds hholds⟩
  awaits hphase hheard := by
    obtain ⟨other, hne, hpending, hinvolved, hheld⟩ := h.awaits hphase hheard
    refine ⟨other, hne, hpending.imp_left (hspares other).isOpen, ?_, hheld⟩
    cases hinvolved with
    | holds h => exact .holds ((hspares other).holds h)
    | deleted h => exact .deleted ((hspares other).entries _ ▸ h)
    | ending h => exact .ending h

/-- A transaction that is not about to end touches a row. -/
theorem Orderly.touch (h : Orderly held t) {s' : Store} {phase : Phase} {id : TaskId}
    {noted : Option Undo} (htouch : Touch t.store tx id noted s')
    (hphase : ¬ (t.phase tx).ending) (hcall : phase.call? = none)
    (hgranted : ∀ {w}, phase = .granted w → s'.Holds tx w.id) :
    Orderly held (t.become tx s' phase) := by
  have hopen : s'.isOpen tx = true := (htouch.isOpen_eq tx).trans htouch.isOpen
  refine h.become (h.wellFormed.touch htouch) (fun other hne => htouch.spares hne)
    (fun _ => .inl hopen) (fun id hid => hid.touch hphase htouch) (fun _ => hopen) ?_
    (fun hphase => ⟨hopen, hgranted hphase⟩) ?_
  · intro w heard hw
    rw [hcall] at hw
    cases hw
  · intro w heard hw _
    rw [Phase.call?_of_waits? hw] at hcall
    cases hcall

/-- A transaction that is not about to end goes on and leaves the store alone. -/
theorem Orderly.phase (h : Orderly held t) {phase : Phase} (hphase : ¬ (t.phase tx).ending)
    (hopen : phase.call?.isSome → t.store.isOpen tx = true)
    (hheard : ∀ {w heard}, phase.call? = some (w, heard) → heard ≤ t.signals)
    (hplain : phase ≠ .undone ∧ ∀ w, phase ≠ .granted w)
    (hawaits : ∀ {w heard}, phase.waits? = some (w, heard) → heard = t.signals →
      ∃ other, other ≠ tx ∧ t.Pending other ∧ t.Involved other w.id ∧ held other w.id) :
    Orderly held (t.become tx t.store phase) := by
  refine h.become h.wellFormed (fun other _ => .refl _ other) ?_ ?_ ?_ hheard ?_ hawaits
  · rintro (hopen | hfreed)
    · exact .inl hopen
    · rw [hfreed] at hphase
      exact absurd trivial hphase
  · intro id hid
    cases hid with
    | holds h => exact .holds h
    | deleted h => exact .deleted h
    | ending h => exact absurd h hphase
  · rintro (hcall | hundone)
    · exact hopen hcall
    · exact absurd hundone hplain.1
  · intro w hw
    exact absurd hw (hplain.2 w)

/-- A call begins to listen. -/
theorem Orderly.listen (h : Orderly held t) (hphase : ¬ (t.phase tx).ending)
    (hopen : t.store.isOpen tx = true) (w : Write) :
    Orderly held (t.become tx t.store (.listening w t.signals)) := by
  refine h.phase hphase (fun _ => hopen) ?_ (by simp) ?_
  · intro w' heard hw
    cases hw
    exact Nat.le_refl _
  · intro w' heard hw
    cases hw

/-- A call is over and has changed nothing. -/
theorem Orderly.rest (h : Orderly held t) (hphase : ¬ (t.phase tx).ending) :
    Orderly held (t.become tx t.store .resting) :=
  h.phase hphase (by simp [Phase.call?]) (by simp [Phase.call?]) (by simp) (by simp [Phase.waits?])

/-- A transaction takes its next step towards its end. -/
theorem Orderly.ending (h : Orderly held t) {s' : Store} {phase : Phase}
    (wellFormed : s'.WellFormed) (hspares : ∀ other, other ≠ tx → Store.Spares t.store s' other)
    (hnext : phase = .undone ∧ s'.isOpen tx = true ∨ phase = .freed) :
    Orderly held (t.become tx s' phase) := by
  refine h.become wellFormed hspares (fun _ => hnext.imp_left And.right) ?_ ?_ ?_ ?_ ?_
  · intro id _
    refine .ending ?_
    rw [phase_become, if_pos rfl]
    rcases hnext with ⟨rfl, -⟩ | rfl <;> trivial
  · rintro hphase
    rcases hnext with ⟨rfl, hopen⟩ | rfl
    · exact hopen
    · rcases hphase with hphase | hphase <;> cases hphase
  · intro w heard hw
    rcases hnext with ⟨rfl, -⟩ | rfl <;> cases hw
  · intro w hw
    rcases hnext with ⟨rfl, -⟩ | rfl <;> cases hw
  · intro w heard hw
    rcases hnext with ⟨rfl, -⟩ | rfl <;> cases hw

/-- After a signal no call waits that has not been woken. -/
theorem Orderly.signal (h : Orderly held t) (tx : TransactionId) :
    Orderly held { t.become tx t.store .resting with signals := t.signals + 1 } where
  wellFormed := h.wellFormed
  isOpen {other} hother := by
    simp only [phase_become] at hother
    split at hother
    · rcases hother with hother | hother <;> cases hother
    · exact h.isOpen hother
  heard_le {other w heard} hother := by
    simp only [phase_become] at hother
    split at hother
    · cases hother
    · exact Nat.le_succ_of_le (h.heard_le hother)
  granted {other w} hother := by
    simp only [phase_become] at hother
    split at hother
    · cases hother
    · exact h.granted hother
  awaits {other w heard} hother hheard := by
    simp only [phase_become] at hother
    split at hother
    · cases hother
    · -- whoever waits began to listen before this signal, and is woken by it
      have hle := h.heard_le (Phase.call?_of_waits? hother)
      rw [hheard] at hle
      exact absurd hle (Nat.not_succ_le_self _)

/-- A move of a transaction happens when it rests and is open, and else nothing does. -/
theorem whenResting_cases (t next : Traffic) (tx : TransactionId) :
    t.whenResting tx next = t ∨
      (t.phase tx = .resting ∧ t.store.isOpen tx = true ∧ t.whenResting tx next = next) := by
  unfold whenResting
  split
  · next hresting =>
    split
    · next hopen => exact .inr ⟨hresting, hopen, rfl⟩
    · exact .inl rfl
  · exact .inl rfl

/-- An operation of a resting transaction that does not end it touches at most one row. -/
theorem Orderly.operation (h : Orderly held t) (a : Store.Action)
    (ha : a.transaction? = some tx)
    (hgoesOn : a ≠ .commit tx ∧ a ≠ .rollback tx ∧ a ≠ .abandon tx) :
    Orderly held (t.whenResting tx { t with store := (t.store.perform a).1 }) := by
  rcases whenResting_cases t { t with store := (t.store.perform a).1 } tx with
    hsame | ⟨hresting, -, hnext⟩
  · rw [hsame]
    exact h
  · rw [hnext]
    have hchange := Store.step_change h.wellFormed (Store.perform_step t.store a)
    rcases hchange.touch_or_same ha hgoesOn with hsame | ⟨id, noted, htouch⟩
    · rw [hsame]
      exact h
    · have hphase : Function.update t.phase tx .resting = t.phase :=
        Function.update_eq_self_iff.2 hresting.symm
      have hnot : ¬ (t.phase tx).ending := by
        rw [hresting]
        exact not_false
      have hbecome : Orderly held (t.become tx (t.store.perform a).1 .resting) :=
        h.touch htouch hnot rfl (fun hgranted => by cases hgranted)
      rw [Traffic.become, hphase] at hbecome
      exact hbecome

/-- Every step keeps the order. -/
theorem Orderly.step (h : Orderly held t)
    (hheld : ∀ {tx id}, t.store.Holds tx id → held tx id) (m : Move) :
    Orderly held (t.step m) := by
  cases m with
  | begin =>
    simp only [Traffic.step]
    cases havailable : t.store.unavailable with
    | true =>
      simp only [Store.begin, havailable, if_true]
      exact h
    | false =>
      have hbegin : t.store.begin.1 = t.store.opening := by
        unfold Store.begin
        rw [if_neg (by rw [havailable]; exact Bool.false_ne_true)]
        rfl
      rw [hbegin]
      exact h.store h.wellFormed.opening h.wellFormed.spares_opening
  | outage on => exact h.store (h.wellFormed.outage on) fun tx => ⟨id, id, fun _ => rfl⟩
  | setProcessTime id time =>
    exact h.store (h.wellFormed.setProcessTime id time)
      fun tx => Store.spares_setProcessTime t.store tx id time
  | enqueue tx now location task =>
    exact h.operation (.enqueue tx now location task) rfl (by simp)
  | pick tx now location lease => exact h.operation (.pick tx now location lease) rfl (by simp)
  | call tx w =>
    simp only [Traffic.step]
    rcases whenResting_cases t (t.become tx t.store (.listening w t.signals)) tx with
      hsame | ⟨hresting, hopen, hnext⟩
    · rw [hsame]
      exact h
    · rw [hnext]
      exact h.listen (by rw [hresting]; exact not_false) hopen w
  | look tx =>
    simp only [Traffic.step]
    split
    · next w heard hphase =>
      have hopen : t.store.isOpen tx = true := h.isOpen (.inl (by rw [hphase]; rfl))
      have hnot : ¬ (t.phase tx).ending := by rw [hphase]; exact not_false
      split
      · next row haccess =>
        obtain ⟨hrow, -, hfree⟩ := Store.of_access_granted haccess
        refine h.touch (Store.touch_hold h.wellFormed hopen hrow hfree) hnot rfl ?_
        intro w' hw
        cases hw
        exact Store.holds_hold hrow
      · exact h.rest hnot
      · next haccess =>
        refine h.phase hnot (fun _ => hopen) ?_ (by simp) ?_
        · intro w' heard' hw
          cases hw
          exact h.heard_le (by rw [hphase]; rfl)
        · -- the transaction that holds the row is the one that is waited for
          intro w' heard' hw _
          cases hw
          obtain ⟨row, other, hrow, -, hholder, hne, hother⟩ :=
            h.wellFormed.access_eq_heldElsewhere.1 haccess
          have hholds : t.store.Holds other w.id := ⟨row, hrow, hholder⟩
          exact ⟨other, hne, .inl hother, .holds hholds, hheld hholds⟩
    · exact h
  | park tx =>
    simp only [Traffic.step]
    split
    · next w heard hphase =>
      have hopen : t.store.isOpen tx = true := h.isOpen (.inl (by rw [hphase]; rfl))
      refine h.phase (by rw [hphase]; exact not_false) (fun _ => hopen) ?_ (by simp) ?_
      · intro w' heard' hw
        cases hw
        exact h.heard_le (by rw [hphase]; rfl)
      · intro w' heard' hw hheard
        cases hw
        exact h.awaits (by rw [hphase]; rfl) hheard
    · exact h
  | wake tx =>
    simp only [Traffic.step]
    split
    · next w heard hphase =>
      have hopen : t.store.isOpen tx = true := h.isOpen (.inl (by rw [hphase]; rfl))
      exact h.listen (by rw [hphase]; exact not_false) hopen w
    · exact h
  | write tx =>
    simp only [Traffic.step]
    split
    · next w hphase =>
      obtain ⟨hopen, hholds⟩ := h.granted hphase
      obtain ⟨noted, htouch⟩ := Store.touch_apply h.wellFormed hopen hholds
      exact h.touch htouch (by rw [hphase]; exact not_false) rfl (fun hw => by cases hw)
    · exact h
  | giveUp tx =>
    simp only [Traffic.step]
    split
    · next w heard hphase => exact h.rest (by rw [hphase]; exact not_false)
    · exact h
  | commit tx =>
    simp only [Traffic.step]
    rcases whenResting_cases t (t.become tx (t.store.release tx) .freed) tx with
      hsame | ⟨-, hopen, hnext⟩
    · rw [hsame]
      exact h
    · rw [hnext]
      have hended := Store.ended_release h.wellFormed hopen
      exact h.ending (h.wellFormed.ended hended)
        (fun other hne => hended.spares h.wellFormed hne) (.inr rfl)
  | takeBack tx =>
    simp only [Traffic.step]
    rcases whenResting_cases t (t.become tx (t.store.drained tx) .undone) tx with
      hsame | ⟨-, hopen, hnext⟩
    · rw [hsame]
      exact h
    · rw [hnext]
      exact h.ending (h.wellFormed.drained hopen)
        (fun other hne => h.wellFormed.spares_drained hopen hne)
        (.inl ⟨rfl, (Store.isOpen_drained hopen tx).trans hopen⟩)
  | free tx =>
    simp only [Traffic.step]
    split
    · next hphase =>
      have hopen : t.store.isOpen tx = true := h.isOpen (.inr hphase)
      have hended := Store.ended_release h.wellFormed hopen
      exact h.ending (h.wellFormed.ended hended)
        (fun other hne => hended.spares h.wellFormed hne) (.inr rfl)
    · exact h
  | signal tx =>
    simp only [Traffic.step]
    split
    · exact h.signal tx
    · exact h

end Steps

/-! ## Runs -/

/-- A transaction holds a row at some time of a run. -/
def HeldDuring (moves : List Move) (tx : TransactionId) (id : TaskId) : Prop :=
  ∃ earlier, earlier <+: moves ∧ (start.run earlier).store.Holds tx id

/-- The traffic begins in order. -/
theorem orderly_start (held : TransactionId → TaskId → Prop) : Orderly held start where
  wellFormed := Store.wellFormed_empty
  isOpen h := by rcases h with h | h <;> cases h
  heard_le h := by cases h
  granted h := by cases h
  awaits h := by cases h

/-- Traffic in order stays so when more rows count as held. -/
theorem Orderly.mono {held held' : TransactionId → TaskId → Prop} {t : Traffic}
    (h : Orderly held t) (hheld : ∀ {tx id}, held tx id → held' tx id) : Orderly held' t where
  wellFormed := h.wellFormed
  isOpen := h.isOpen
  heard_le := h.heard_le
  granted := h.granted
  awaits hphase hheard := by
    obtain ⟨other, hne, hpending, hinvolved, hother⟩ := h.awaits hphase hheard
    exact ⟨other, hne, hpending, hinvolved, hheld hother⟩

/-- Any moves leave the traffic in order. -/
theorem orderly_run (moves : List Move) : Orderly (HeldDuring moves) (start.run moves) := by
  induction moves using List.reverseRecOn with
  | nil => exact orderly_start _
  | append_singleton moves m ih =>
    rw [run_append]
    refine Orderly.mono (ih.step (fun h => ⟨moves, List.prefix_rfl, h⟩) m) ?_
    rintro tx id ⟨earlier, hprefix, hholds⟩
    exact ⟨earlier, hprefix.trans (List.prefix_append _ _), hholds⟩

/-- A woken call that finds its row free or gone gets to its end. -/
theorem resting_of_woken {t : Traffic} {tx : TransactionId} {w : Write} {heard : Nat}
    (hphase : t.phase tx = .parked w heard)
    (haccess : t.store.access tx w.location w.id ≠ .heldElsewhere) :
    (t.run [.wake tx, .look tx, .write tx]).phase tx = .resting := by
  have hwake : t.step (.wake tx) = t.become tx t.store (.listening w t.signals) := by
    simp only [Traffic.step, hphase]
  simp only [run]
  rw [hwake]
  have hlistening : (t.become tx t.store (.listening w t.signals)).phase tx =
      .listening w t.signals := by simp
  cases hfound : t.store.access tx w.location w.id with
  | granted row =>
    rw [look_granted hlistening hfound, step_write (w := w) (by simp)]
    simp
  | missing =>
    rw [look_missing hlistening hfound, write_idle (by simp)]
    simp
  | heldElsewhere => exact absurd hfound haccess

/-- What is true of the calls that are parked. -/
structure NoLostWakeUp (moves : List Move) (t : Traffic) : Prop where
  /-- A call that has not been woken waits for a transaction that has still to give its signal and
  that holds the row, or has held it and has deleted it or is about to end. -/
  waitsForPending : ∀ {tx w heard}, t.phase tx = .parked w heard → ¬ heard < t.signals →
    ∃ other, other ≠ tx ∧ t.Pending other ∧ t.Involved other w.id ∧ HeldDuring moves other w.id
  /-- When all others have ended the call has been woken, and gets to its end. -/
  comesToEnd : ∀ {tx w heard}, t.phase tx = .parked w heard →
    (∀ other, other ≠ tx → ¬ t.Pending other) →
      heard < t.signals ∧ (t.run [.wake tx, .look tx, .write tx]).phase tx = .resting

/-- Under every interleaving of any number of transactions no wake-up is lost. -/
theorem no_lost_wakeUp (moves : List Move) : NoLostWakeUp moves (start.run moves) := by
  have h := orderly_run moves
  generalize start.run moves = t at h
  constructor
  case waitsForPending =>
    intro tx w heard hphase hheard
    have hle : heard ≤ t.signals := h.heard_le (by rw [hphase]; rfl)
    exact h.awaits (by rw [hphase]; rfl) (Nat.le_antisymm hle (Nat.le_of_not_lt hheard))
  case comesToEnd =>
    intro tx w heard hphase hothers
    have hle : heard ≤ t.signals := h.heard_le (by rw [hphase]; rfl)
    refine ⟨Nat.lt_of_le_of_ne hle fun heq => ?_, resting_of_woken hphase fun haccess => ?_⟩
    · obtain ⟨other, hne, hpending, -⟩ := h.awaits (by rw [hphase]; rfl) heq
      exact hothers other hne hpending
    · obtain ⟨-, other, -, -, -, hne, hopen⟩ := h.wellFormed.access_eq_heldElsewhere.1 haccess
      exact hothers other hne (.inl hopen)

/-- A transaction commits a task; the next one has picked it when a third one wants to delete it and
looks.  The second one commits and gives its signal before the third one parks. -/
def crossing : List Move :=
  [.begin, .enqueue 1 .epoch Store.someQueue ⟨none, .zero, none, none⟩, .commit 1, .signal 1,
    .begin, .pick 2 .epoch Store.someQueue (.fixed (.ofSeconds 60)),
    .begin, .call 3 ⟨Store.someQueue, 1, .delete⟩, .look 3, .commit 2, .signal 2, .park 3]

/-- The signal that crosses the parking is not lost: the call is parked, and has been woken. -/
example : (start.run crossing).phase 3 = .parked ⟨Store.someQueue, 1, .delete⟩ 1 ∧
    (start.run crossing).signals = 2 ∧
    ((start.run crossing).run [.wake 3, .look 3, .write 3]).store.records = [] :=
  ⟨rfl, rfl, rfl⟩

end Traffic

end LeaseQueue
