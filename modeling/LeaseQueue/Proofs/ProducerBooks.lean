import LeaseQueue.Proofs.ProducerCalls

/-!
# The books of the calls

All rows of all stores come from calls of producers, and every row that is committed from one that
has succeeded: these are the `Books` of the calls. They are kept by whatever others do in
transactions of their own, if they put nothing in (`Books.acted`), and by every request of a call
(`Books.answered`). The latter also says what the request does to the rows that everybody sees:
nothing, or it is the commit by which the call succeeds, and exactly the row of this call comes.
-/

set_option autoImplicit false

namespace LeaseQueue

variable {α ω β : Type}

/-! ## The books -/

section Books

/-- A row has been put in by one of these calls in the store of a shard. -/
def Put (calls : List (ProducerCall α)) (shard : ShardId) (i : Insertion) : Prop :=
  ∃ (j : Nat) (c : ProducerCall α), calls[j]? = some c ∧ c.put = some i ∧ i.tx.shard = shard

/-- The call that put a row in has succeeded. -/
def Kept (calls : List (ProducerCall α)) (i : Insertion) : Prop :=
  ∃ (j : Nat) (c : ProducerCall α) (receipt : Receipt),
    calls[j]? = some c ∧ c.put = some i ∧ c.Succeeded receipt

/-- The rows of all stores come from calls, each of which has a transaction of its own. -/
structure Books (w : World ω β) (calls : List (ProducerCall α)) : Prop where
  wellFormed : ∀ s, (w.store s).WellFormed
  sourced : ∀ s, (w.store s).Sourced (Put calls s) (Kept calls)
  sound : ∀ {j : Nat} {c : ProducerCall α}, calls[j]? = some c → c.Sound w.store
  begun : ∀ {j : Nat} {c : ProducerCall α} {tx : Handle}, calls[j]? = some c → c.tx = some tx →
    w.shards.contains tx.shard = true → tx.transaction ≤ (w.store tx.shard).opened
  apart : ∀ {j k : Nat} {c d : ProducerCall α} {tx : Handle}, calls[j]? = some c →
    calls[k]? = some d → c.tx = some tx → d.tx = some tx → w.shards.contains tx.shard = true → j = k
  there : ∀ {j : Nat} {c : ProducerCall α} {i : Insertion}, calls[j]? = some c → c.put = some i →
    w.shards.contains i.tx.shard = true

/-- No call has a transaction of this shard. -/
def Foreign (calls : List (ProducerCall α)) (tx : Handle) : Prop :=
  ∀ (j : Nat) (c : ProducerCall α), calls[j]? = some c → c.tx ≠ some tx

/-- What may be done to a store besides the calls. -/
def Store.Action.Harmless (calls : List (ProducerCall α)) (shard : ShardId) : Store.Action → Prop
  | .enqueue .. => False
  | .pick tx _ _ _ => Foreign calls ⟨shard, tx⟩
  | .delete tx _ _ => Foreign calls ⟨shard, tx⟩
  | .reenqueue tx _ _ _ _ _ => Foreign calls ⟨shard, tx⟩
  | .commit tx => Foreign calls ⟨shard, tx⟩
  | _ => True

variable {w w' : World ω β} {calls : List (ProducerCall α)}

/-- The transactions of rows that have been put in are those of calls. -/
theorem Books.stranger (h : Books w calls) {tx : Handle} (hforeign : Foreign calls tx) :
    Store.Stranger (Put calls tx.shard) tx.transaction := by
  rintro i ⟨j, c, hc, hput, hshard⟩ heq
  refine hforeign j c hc ?_
  rw [((h.sound hc).tx_of_put hput).1]
  obtain ⟨⟨shard, transaction⟩, _⟩ := i
  cases hshard
  cases heq
  rfl

/-- The books do not depend on anything but the stores. -/
theorem Books.of_store (h : Books w calls) (hstore : ∀ s, w'.store s = w.store s)
    (hshards : ∀ s, w'.shards.contains s = w.shards.contains s) : Books w' calls := by
  have hsame : w'.store = w.store := funext hstore
  exact {
    wellFormed := fun s => hsame ▸ h.wellFormed s
    sourced := fun s => hsame ▸ h.sourced s
    sound := fun hc => hsame ▸ h.sound hc
    begun := fun {j c tx} hc htx hthere => hsame ▸ h.begun hc htx (hshards tx.shard ▸ hthere)
    apart := fun {j k c d tx} hc hd htx htx' hthere =>
      h.apart hc hd htx htx' (hshards tx.shard ▸ hthere)
    there := fun {j c i} hc hput => (hshards i.tx.shard).trans (h.there hc hput) }

/-- Nobody but the calls can do harm. -/
theorem Books.acted (h : Books w calls) {shard : ShardId} {a : Store.Action}
    (hstore : ∀ s, w'.store s = w.acted shard a s)
    (hshards : ∀ s, w'.shards.contains s = w.shards.contains s)
    (ha : w.shards.contains shard = true → a.Harmless calls shard) : Books w' calls := by
  have hsame : w'.store = w.acted shard a := funext hstore
  exact {
    wellFormed := fun s => hsame ▸ World.wellFormed_acted h.wellFormed shard a s
    sourced := by
      intro s
      rw [hsame]
      unfold World.acted
      split
      · next hthere =>
        obtain ⟨rfl, hthere⟩ := hthere
        have ha := ha hthere
        refine (h.sourced s).step (h.wellFormed s) (Store.perform_step _ a) ?_
        cases a with
        | enqueue => exact ha
        | pick tx => exact h.stranger ha
        | delete tx => exact h.stranger ha
        | reenqueue tx => exact h.stranger ha
        | commit tx => exact h.stranger ha
        | _ => trivial
      · exact h.sourced s
    sound := by
      intro j c hc
      rw [hsame]
      refine (h.sound hc).acted h.wellFormed (fun tx => h.begun hc) ?_
      rintro ⟨_, tx⟩ htx rfl hthere ht
      have ha := ha hthere
      cases a with
      | enqueue => exact ha.elim
      | pick =>
        cases ht
        exact absurd htx (ha j c hc)
      | delete =>
        cases ht
        exact absurd htx (ha j c hc)
      | reenqueue =>
        cases ht
        exact absurd htx (ha j c hc)
      | commit =>
        cases ht
        exact absurd htx (ha j c hc)
      | rollback =>
        cases ht
        exact .inr rfl
      | abandon =>
        cases ht
        exact .inl rfl
      | begin => cases ht
      | outage => cases ht
    begun := by
      intro j c tx hc htx hthere
      rw [hsame]
      exact Nat.le_trans (h.begun hc htx (hshards tx.shard ▸ hthere))
        (World.opened_le_acted h.wellFormed shard a tx.shard)
    apart := fun {j k c d tx} hc hd htx htx' hthere =>
      h.apart hc hd htx htx' (hshards tx.shard ▸ hthere)
    there := fun {j c i} hc hput => (hshards i.tx.shard).trans (h.there hc hput) }

/-! ## Moves of a call -/

variable {n : Nat} {c c' : ProducerCall α}

/-- Replacing one call leaves the other calls as they are. -/
theorem getElem?_replaced (hc : calls[n]? = some c) (j : Nat) :
    (calls.set n c')[j]? = if j = n then some c' else calls[j]? := by
  rw [List.getElem?_set]
  by_cases hj : n = j
  · subst hj
    rw [if_pos rfl, if_pos rfl, if_pos (List.getElem?_eq_some_iff.1 hc).1]
  · rw [if_neg hj, if_neg fun heq => hj heq.symm]

/-- What holds of the call that was replaced and of the others holds of all calls. -/
theorem forall_replaced {P : Nat → ProducerCall α → Prop} (hc : calls[n]? = some c) (hnew : P n c')
    (hold : ∀ {j d}, j ≠ n → calls[j]? = some d → P j d) {j : Nat} {d : ProducerCall α}
    (hd : (calls.set n c')[j]? = some d) : P j d := by
  rw [getElem?_replaced hc] at hd
  split at hd
  · next heq =>
    cases hd
    exact heq ▸ hnew
  · next hne => exact hold hne hd

/-- Rows that were put in before stay put in, those of the call that goes on too. -/
theorem put_replaced (hc : calls[n]? = some c) {shard : ShardId} {i : Insertion} :
    Put (calls.set n c') shard i ↔ (c'.put = some i ∧ i.tx.shard = shard) ∨
      ∃ j d, j ≠ n ∧ calls[j]? = some d ∧ d.put = some i ∧ i.tx.shard = shard := by
  constructor
  · rintro ⟨j, d, hd, hput, hshard⟩
    rw [getElem?_replaced hc] at hd
    split at hd
    · cases hd
      exact .inl ⟨hput, hshard⟩
    · next hne => exact .inr ⟨j, d, hne, hd, hput, hshard⟩
  · rintro (⟨hput, hshard⟩ | ⟨j, d, hne, hd, hput, hshard⟩)
    · exact ⟨n, c', (getElem?_replaced hc n).trans (if_pos rfl), hput, hshard⟩
    · exact ⟨j, d, (getElem?_replaced hc j).trans ((if_neg hne).trans hd), hput, hshard⟩

/-- When a call is replaced, its own row is the only one that is kept or given up by it. -/
theorem kept_replaced (hc : calls[n]? = some c) {i : Insertion} :
    Kept (calls.set n c') i ↔ (c'.put = some i ∧ ∃ receipt, c'.Succeeded receipt) ∨
      ∃ j d receipt, j ≠ n ∧ calls[j]? = some d ∧ d.put = some i ∧ d.Succeeded receipt := by
  constructor
  · rintro ⟨j, d, receipt, hd, hput, hsucceeded⟩
    rw [getElem?_replaced hc] at hd
    split at hd
    · cases hd
      exact .inl ⟨hput, receipt, hsucceeded⟩
    · next hne => exact .inr ⟨j, d, receipt, hne, hd, hput, hsucceeded⟩
  · rintro (⟨hput, receipt, hsucceeded⟩ | ⟨j, d, receipt, hne, hd, hput, hsucceeded⟩)
    · exact ⟨n, c', receipt, (getElem?_replaced hc n).trans (if_pos rfl), hput, hsucceeded⟩
    · exact ⟨j, d, receipt, (getElem?_replaced hc j).trans ((if_neg hne).trans hd), hput, hsucceeded⟩

/-- A call replaced by itself changes nothing. -/
theorem set_self (hc : calls[n]? = some c) : calls.set n c = calls := by
  refine List.ext_getElem? fun j => ?_
  rw [getElem?_replaced hc]
  split
  · next hj => rw [hj, hc]
  · rfl

/-- A call that goes on has put in what it had put in. -/
theorem put_same (hc : calls[n]? = some c) (hput : c'.put = c.put) (shard : ShardId) :
    Put (calls.set n c') shard = Put calls shard := by
  funext i
  have hold : Put (calls.set n c) shard i ↔ _ := put_replaced hc
  rw [set_self hc] at hold
  exact propext ((put_replaced hc).trans (hput ▸ hold.symm))

/-- A call that has put the same row and succeeded as before keeps the same rows. -/
theorem kept_same (hc : calls[n]? = some c) (hput : c'.put = c.put)
    (hsucceeded : (∃ receipt, c'.Succeeded receipt) ↔ ∃ receipt, c.Succeeded receipt) :
    Kept (calls.set n c') = Kept calls := by
  funext i
  have hold : Kept (calls.set n c) i ↔ _ := kept_replaced hc
  rw [set_self hc] at hold
  exact propext ((kept_replaced hc).trans (by rw [hold, hput, hsucceeded]))

/-- A call that has just been made knows nothing. -/
theorem ProducerCall.sound_make (store : ShardId → Store) (producer : Producer α)
    (task : Submission α) : (make producer task).Sound store := by
  have hleft : (make producer task).left = (producer.enqueue task).run := rfl
  have htx : (make producer task).tx = none := rfl
  have hput : (make producer task).put = none := rfl
  rw [Producer.enqueue_eq] at hleft
  split at hleft
  · split at hleft
    · exact .refused hleft htx hput
    · next payload hwrite =>
      have hstands : (make producer task).Stands store payload .starting :=
        ⟨hwrite, hleft, fun tx h => (nomatch htx.symm.trans h),
          fun i h => (nomatch hput.symm.trans h), htx⟩
      exact .underway hstands
  · exact .refused hleft htx hput

/-- A call that has just been made has no transaction. -/
theorem ProducerCall.tx_make (producer : Producer α) (task : Submission α) (tx : Handle) :
    (make producer task).tx ≠ some tx := fun h => nomatch (show none = some tx from h)

/-- A call that has just been made has put no row. -/
theorem ProducerCall.put_make (producer : Producer α) (task : Submission α) (i : Insertion) :
    (make producer task).put ≠ some i := fun h => nomatch (show none = some i from h)

/-- A call that has just been made has not succeeded. -/
theorem ProducerCall.not_succeeded_make (producer : Producer α) (task : Submission α)
    (receipt : Receipt) : ¬ (make producer task).Succeeded receipt := by
  intro hsucceeded
  obtain ⟨i, -, hput, -⟩ :=
    (sound_make (fun _ => .empty) producer task).put_of_succeeded hsucceeded
  exact put_make producer task i hput

/-- What holds of a new call and of the others holds of all calls. -/
theorem forall_made {P : Nat → ProducerCall α → Prop} (hnew : P calls.length c)
    (hold : ∀ {j d}, calls[j]? = some d → P j d) {j : Nat} {d : ProducerCall α}
    (hd : (calls ++ [c])[j]? = some d) : P j d := by
  rw [List.getElem?_append] at hd
  split at hd
  · exact hold hd
  · next hj =>
    rw [List.getElem?_singleton] at hd
    split at hd
    · next hlast =>
      cases hd
      have heq : j = calls.length :=
        Nat.le_antisymm (Nat.sub_eq_zero_iff_le.1 hlast) (Nat.le_of_not_lt hj)
      exact heq ▸ hnew
    · cases hd

/-- A new call leaves the earlier calls as they are. -/
theorem getElem?_made {j : Nat} {d : ProducerCall α} (hd : calls[j]? = some d)
    (c : ProducerCall α) : (calls ++ [c])[j]? = some d :=
  (List.getElem?_append_left (List.getElem?_eq_some_iff.1 hd).1).trans hd

/-- A call may always be made. -/
theorem Books.made (h : Books w calls) (producer : Producer α) (task : Submission α) :
    Books w (calls ++ [.make producer task]) := by
  have hput : ∀ s, Put (calls ++ [.make producer task]) s = Put calls s := by
    intro s
    refine funext fun i => propext ⟨?_, ?_⟩
    · rintro ⟨j, d, hd, hrest⟩
      exact forall_made (P := fun _ d => d.put = some i ∧ i.tx.shard = s → Put calls s i)
        (fun hrest => absurd hrest.1 (ProducerCall.put_make producer task i))
        (fun hd hrest => ⟨_, _, hd, hrest⟩) hd hrest
    · rintro ⟨j, d, hd, hrest⟩
      exact ⟨j, d, getElem?_made hd _, hrest⟩
  have hkept : Kept (calls ++ [.make producer task]) = Kept calls := by
    refine funext fun i => propext ⟨?_, ?_⟩
    · rintro ⟨j, d, receipt, hd, hrest⟩
      exact forall_made (P := fun _ d => d.put = some i ∧ d.Succeeded receipt → Kept calls i)
        (fun hrest => absurd hrest.1 (ProducerCall.put_make producer task i))
        (fun hd hrest => ⟨_, _, _, hd, hrest⟩) hd hrest
    · rintro ⟨j, d, receipt, hd, hrest⟩
      exact ⟨j, d, receipt, getElem?_made hd _, hrest⟩
  have hown : ∀ {j : Nat} {d : ProducerCall α} {tx : Handle},
      (calls ++ [ProducerCall.make producer task])[j]? = some d → d.tx = some tx →
        calls[j]? = some d := by
    intro j d tx hd
    exact forall_made (P := fun j d => d.tx = some tx → calls[j]? = some d)
      (fun htx => absurd htx (ProducerCall.tx_make producer task tx)) (fun hd _ => hd) hd
  exact {
    wellFormed := h.wellFormed
    sourced := fun s => by
      rw [hput, hkept]
      exact h.sourced s
    sound := forall_made (P := fun _ d => d.Sound w.store)
      (ProducerCall.sound_make w.store producer task) h.sound
    begun := fun hd htx => h.begun (hown hd htx) htx
    apart := fun hd hd' htx htx' => h.apart (hown hd htx) (hown hd' htx') htx htx'
    there := fun {j d i} hd hdput => forall_made
      (P := fun _ d => d.put = some i → w.shards.contains i.tx.shard = true)
      (fun hnew => absurd hnew (ProducerCall.put_make producer task i))
      (fun hd hdput => h.there hd hdput) hd hdput }

/-- A call goes on without putting anything in and without success; it may have got a transaction
that nobody has. -/
theorem Books.replaced (h : Books w calls) (hc : calls[n]? = some c) (hput : c'.put = c.put)
    (hsucceeded : (∃ receipt, c'.Succeeded receipt) ↔ ∃ receipt, c.Succeeded receipt)
    (hsound : c'.Sound w.store)
    (htx : ∀ tx, c'.tx = some tx → c.tx = some tx ∨ (w.shards.contains tx.shard = true →
      tx.transaction ≤ (w.store tx.shard).opened ∧ Foreign calls tx)) :
    Books w (calls.set n c') where
  wellFormed := h.wellFormed
  sourced s := by
    rw [put_same hc hput, kept_same hc hput hsucceeded]
    exact h.sourced s
  sound := forall_replaced (P := fun _ d => d.Sound w.store) hc hsound fun _ hd => h.sound hd
  begun {j d tx} hd htx' hthere := by
    refine forall_replaced (P := fun _ d => d.tx = some tx → _) hc (fun hown => ?_)
      (fun _ hd htx' => h.begun hd htx' hthere) hd htx'
    exact (htx tx hown).elim (fun hold => h.begun hc hold hthere) fun hnew => (hnew hthere).1
  apart {j k d d' tx} hd hd' htx' htx'' hthere := by
    have hown : ∀ {m d}, m ≠ n → calls[m]? = some d → d.tx = some tx → c'.tx ≠ some tx := by
      intro m d hne hd hdtx hown
      rcases htx tx hown with hold | hnew
      · exact hne (h.apart hd hc hdtx hold hthere)
      · exact (hnew hthere).2 m d hd hdtx
    rw [getElem?_replaced hc] at hd hd'
    split at hd <;> split at hd'
    · next hj hk => exact hj.trans hk.symm
    · next hj hk =>
      cases hd
      exact absurd htx' (hown hk hd' htx'')
    · next hj hk =>
      cases hd'
      exact absurd htx'' (hown hj hd htx')
    · exact h.apart hd hd' htx' htx'' hthere
  there {j d i} hd hdput :=
    forall_replaced (P := fun _ d => d.put = some i → _) hc (fun hown => h.there hc (hput ▸ hown))
      (fun _ hd hdput => h.there hd hdput) hd hdput

/-- A call goes on with an action in its transaction. -/
theorem Books.owned (h : Books w calls) (hc : calls[n]? = some c) {tx : Handle}
    (hown : c.tx = some tx) {a : Store.Action}
    (hstore : ∀ s, w'.store s = w.acted tx.shard a s)
    (hshards : ∀ s, w'.shards.contains s = w.shards.contains s)
    (ha : a.transaction? = some tx.transaction) (htx : c'.tx = c.tx)
    (hsound : c'.Sound w'.store)
    (hthere : ∀ i, c'.put = some i → w.shards.contains i.tx.shard = true)
    (hsourced : ∀ s, (w'.store s).Sourced (Put (calls.set n c') s) (Kept (calls.set n c'))) :
    Books w' (calls.set n c') := by
  have hsame : w'.store = w.acted tx.shard a := funext hstore
  have hbegun : ∀ {j : Nat} {d : ProducerCall α} {tx' : Handle}, calls[j]? = some d →
      d.tx = some tx' →
      w'.shards.contains tx'.shard = true → tx'.transaction ≤ (w'.store tx'.shard).opened := by
    intro j d tx' hd hdtx hin
    rw [hsame]
    exact Nat.le_trans (h.begun hd hdtx (hshards tx'.shard ▸ hin))
      (World.opened_le_acted h.wellFormed tx.shard a tx'.shard)
  exact {
    wellFormed := fun s => hsame ▸ World.wellFormed_acted h.wellFormed tx.shard a s
    sourced := hsourced
    sound := by
      refine forall_replaced (P := fun _ d => d.Sound w'.store) hc hsound fun {j d} hne hd => ?_
      rw [hsame]
      refine (h.sound hd).acted h.wellFormed (fun _ => h.begun hd) ?_
      intro tx' hdtx hshard hin ht
      rw [ha, Option.some.injEq] at ht
      have heq : tx' = tx := by
        obtain ⟨shard, transaction⟩ := tx'
        cases hshard
        cases ht
        rfl
      subst heq
      exact absurd (h.apart hd hc hdtx hown hin) hne
    begun := fun {j d tx'} hd hdtx hin => forall_replaced
      (P := fun _ d => d.tx = some tx' → tx'.transaction ≤ (w'.store tx'.shard).opened) hc
      (fun hctx => hbegun hc (htx ▸ hctx) hin) (fun _ hd hdtx => hbegun hd hdtx hin) hd hdtx
    apart := by
      intro j k d d' tx' hd hd' hdtx hdtx' hin
      -- the transaction of the call is the one that it had
      have hold : ∀ {m : Nat} {e : ProducerCall α}, (calls.set n c')[m]? = some e →
          e.tx = some tx' → ∃ e', calls[m]? = some e' ∧ e'.tx = some tx' := by
        intro m e he
        exact forall_replaced (P := fun m e => e.tx = some tx' →
          ∃ e', calls[m]? = some e' ∧ e'.tx = some tx') hc (fun hctx => ⟨c, hc, htx ▸ hctx⟩)
          (fun _ he hetx => ⟨_, he, hetx⟩) he
      obtain ⟨e, he, hetx⟩ := hold hd hdtx
      obtain ⟨e', he', hetx'⟩ := hold hd' hdtx'
      exact h.apart he he' hetx hetx' (hshards tx'.shard ▸ hin)
    there := fun {j d i} hd hdput => (hshards i.tx.shard).trans (forall_replaced
      (P := fun _ d => d.put = some i → w.shards.contains i.tx.shard = true) hc (hthere i)
      (fun _ hd hdput => h.there hd hdput) hd hdput) }

/-- A row has been put in by one call. -/
theorem Books.eq_of_same_put (h : Books w calls) {j : Nat} {d : ProducerCall α} {i : Insertion}
    (hc : calls[n]? = some c) (hd : calls[j]? = some d) (hput : c.put = some i)
    (hdput : d.put = some i) : j = n :=
  h.apart hd hc ((h.sound hd).tx_of_put hdput).1 ((h.sound hc).tx_of_put hput).1 (h.there hd hdput)

/-- No other row has been put in in the transaction of a call. -/
theorem Books.eq_of_put (h : Books w calls) (hc : calls[n]? = some c) {tx : Handle}
    (hown : c.tx = some tx) {i : Insertion} (hput : Put calls tx.shard i)
    (heq : i.tx.transaction = tx.transaction) : c.put = some i := by
  obtain ⟨j, d, hd, hdput, hshard⟩ := hput
  have htx : i.tx = tx := by
    obtain ⟨⟨shard, transaction⟩, _⟩ := i
    cases hshard
    cases heq
    rfl
  have hdtx := ((h.sound hd).tx_of_put hdput).1
  obtain rfl := h.apart hd hc hdtx (htx ▸ hown) (h.there hd hdput)
  cases hd.symm.trans hc
  exact hdput

/-- A call puts its row in. -/
theorem Books.inserted (h : Books w calls) (hc : calls[n]? = some c) {tx : Handle}
    (hown : c.tx = some tx) (hnone : c.put = none)
    (hjournal : (w.store tx.shard).journal tx.transaction = []) {location : Location}
    {task : NewTask} {id : TaskId}
    (hanswer : ((w.store tx.shard).perform
      (.enqueue tx.transaction w.clock location task)).2 = .enqueued (.ok id))
    (hstore : ∀ s, w'.store s =
      w.acted tx.shard (.enqueue tx.transaction w.clock location task) s)
    (hshards : ∀ s, w'.shards.contains s = w.shards.contains s) (htx : c'.tx = c.tx)
    (hput : c'.put = some ⟨tx, location, task, id, w.clock⟩)
    (hfresh : ∀ receipt, ¬ c'.Succeeded receipt) (hsound : c'.Sound w'.store) :
    Books w' (calls.set n c') := by
  have hstep := Store.perform_step (w.store tx.shard)
    (.enqueue tx.transaction w.clock location task)
  rw [hanswer] at hstep
  have hthere : w.shards.contains tx.shard = true :=
    World.contains_of_isOpen (Store.isOpen_of_enqueued hanswer)
  have hstranger : Store.Stranger (Put calls tx.shard) tx.transaction := by
    intro i hi heq
    cases hnone.symm.trans (h.eq_of_put hc hown hi heq)
  have hkept : Kept (calls.set n c') = Kept calls := by
    funext i
    have hold : Kept (calls.set n c) i ↔ _ := kept_replaced hc
    rw [set_self hc, hnone] at hold
    refine propext ((kept_replaced hc).trans (Iff.trans ?_ hold.symm))
    refine or_congr ⟨fun hnew => ?_, fun hold => ?_⟩ .rfl
    · obtain ⟨receipt, hsucceeded⟩ := hnew.2
      exact absurd hsucceeded (hfresh receipt)
    · cases hold.1
  have hputs : ∀ s, Put (calls.set n c') s = fun i => Put calls s i ∨
      (i = ⟨tx, location, task, id, w.clock⟩ ∧ tx.shard = s) := by
    intro s
    funext i
    have hold : Put (calls.set n c) s i ↔ _ := put_replaced hc
    rw [set_self hc, hnone] at hold
    rw [put_replaced hc, hold, hput]
    simp only [Option.some.injEq, reduceCtorEq, false_and, false_or, eq_iff_iff]
    constructor
    · rintro (⟨rfl, hshard⟩ | hold)
      · exact .inr ⟨rfl, hshard⟩
      · exact .inl hold
    · rintro (hold | ⟨rfl, hshard⟩)
      · exact .inr hold
      · exact .inl ⟨rfl, hshard⟩
  refine h.owned hc hown hstore hshards rfl htx hsound (fun i hi => ?_) fun s => ?_
  · rw [hput, Option.some.injEq] at hi
    exact hi ▸ hthere
  · rw [hstore, hkept, hputs]
    unfold World.acted
    split
    · next hs =>
      obtain ⟨rfl, -⟩ := hs
      simp only [and_true]
      exact (h.sourced _).inserted (h.wellFormed _) hstranger hjournal tx.shard hstep
    · next hs =>
      have hne : tx.shard ≠ s := fun heq => hs ⟨heq.symm, hthere⟩
      simp only [hne, and_false, or_false]
      exact h.sourced s

/-- A call commits its row. -/
theorem Books.committed (h : Books w calls) (hc : calls[n]? = some c) {i : Insertion}
    (hput : c.put = some i)
    (hanswer : ((w.store i.tx.shard).perform (.commit i.tx.transaction)).2 = .ended (.ok ()))
    (hstore : ∀ s, w'.store s = w.acted i.tx.shard (.commit i.tx.transaction) s)
    (hshards : ∀ s, w'.shards.contains s = w.shards.contains s) (htx : c'.tx = c.tx)
    (hsame : c'.put = c.put) (hsucceeded : ∃ receipt, c'.Succeeded receipt)
    (hsound : c'.Sound w'.store) : Books w' (calls.set n c') := by
  have hown := ((h.sound hc).tx_of_put hput).1
  have hopen := Store.isOpen_of_ended hanswer
  have hkept : ∀ i', Kept calls i' ∨ i' = i → Kept (calls.set n c') i' := by
    rintro i' (⟨j, d, receipt, hd, hdput, hdsucceeded⟩ | rfl)
    · by_cases hj : j = n
      · subst hj
        cases hd.symm.trans hc
        exact (kept_replaced hc).2 (.inl ⟨hsame.trans hdput, hsucceeded⟩)
      · exact (kept_replaced hc).2 (.inr ⟨j, d, receipt, hj, hd, hdput, hdsucceeded⟩)
    · exact (kept_replaced hc).2 (.inl ⟨hsame.trans hput, hsucceeded⟩)
  refine h.owned hc hown hstore hshards rfl htx hsound
    (fun i' hi' => h.there hc (hsame ▸ hi')) fun s => ?_
  rw [hstore, put_same hc hsame]
  unfold World.acted
  split
  · next hs =>
    obtain ⟨rfl, -⟩ := hs
    rw [Store.perform_commit hopen]
    refine ((h.sourced _).committed (h.wellFormed _) (fun i' hi' heq => ?_) hopen).keep hkept
    exact Option.some.inj ((h.eq_of_put hc hown hi' heq).symm.trans hput)
  · exact (h.sourced s).keep fun i' hi' => hkept i' (.inl hi')

end Books

/-! ## One request of a call -/

/-- What is committed is the same in all stores. -/
def World.RowsAlike (w w' : World ω β) : Prop :=
  ∀ s id, (w'.store s).committed id = (w.store s).committed id

/-- The row of an insertion comes, and no other row of any store changes. -/
structure World.Gains (w w' : World ω β) (i : Insertion) : Prop where
  before : (w.store i.tx.shard).committed i.id = none
  after : ∃ record, (w'.store i.tx.shard).committed i.id = some (i.location, record) ∧
    i.Describes i.location record
  others : ∀ s id, ¬ (s = i.tx.shard ∧ id = i.id) →
    (w'.store s).committed id = (w.store s).committed id

/-- What one request of a call comes to: no row changes and the call has not succeeded by it, or its
row comes and it has. -/
inductive ProducerCall.Goes (w w' : World ω β) (c c' : ProducerCall α) : Prop
  | quiet (hrows : w.RowsAlike w')
    (hsucceeded : ∀ receipt, c'.Succeeded receipt ↔ c.Succeeded receipt)
  | lands {i : Insertion} (hbefore : ∀ receipt, ¬ c.Succeeded receipt) (hput : c'.put = some i)
    (hsucceeded : c'.Succeeded ⟨c.shard, i.id⟩) (hgains : w.Gains w' i)

section Request

variable {w w' : World (Job α) β} {calls : List (ProducerCall α)} {n : Nat} {c : ProducerCall α}
  {jobProgram : Job α → Process (Job α) Unit} {fiber : FiberId} {r : Request (Job α)}
  {next : r.Reply → Process (Job α) (Except QueueError Receipt)} {reply : r.Reply}

/-- A call that commits gains its row. -/
theorem Books.gains (h : Books w calls) (hc : calls[n]? = some c) {i : Insertion}
    (hput : c.put = some i) (hnot : ∀ receipt, ¬ c.Succeeded receipt)
    (hanswer : ((w.store i.tx.shard).perform (.commit i.tx.transaction)).2 = .ended (.ok ()))
    (hstore : ∀ s, w'.store s = w.acted i.tx.shard (.commit i.tx.transaction) s) :
    w.Gains w' i := by
  have hopen := Store.isOpen_of_ended hanswer
  have hthere := World.contains_of_isOpen hopen
  have hmine : Put calls i.tx.shard i := ⟨n, c, hc, hput, rfl⟩
  have hkept : ¬ Kept calls i := by
    rintro ⟨j, d, receipt, hd, hdput, hsucceeded⟩
    obtain rfl := h.eq_of_same_put hc hd hput hdput
    cases hd.symm.trans hc
    exact hnot receipt hsucceeded
  obtain ⟨hbefore, hafter, hothers⟩ :=
    (h.sourced i.tx.shard).committed_release (h.wellFormed _) hmine hkept hopen
  have hnow : w'.store i.tx.shard = (w.store i.tx.shard).release i.tx.transaction := by
    rw [hstore, World.acted, if_pos ⟨rfl, hthere⟩, Store.perform_commit hopen]
  refine ⟨hbefore, hnow ▸ hafter, fun s id hother => ?_⟩
  by_cases hs : s = i.tx.shard
  · subst hs
    rw [hnow]
    exact hothers id fun heq => hother ⟨rfl, heq⟩
  · rw [hstore, World.acted, if_neg fun hand => hs hand.1]

section Stages

variable {payload : Option String} {stage stage' : CallStage}

/-- A call goes on without having done anything to the rows. -/
theorem Books.moved (h : Books w' calls) (hc : calls[n]? = some c)
    (hold : c.Stands w.store payload stage) (hrows : w.RowsAlike w')
    (hfits : c.Fits w'.store stage') (hreceipt : stage'.receipt? = stage.receipt?) :
    Books w' (calls.set n (c.moved payload stage')) ∧ c.Goes w w' (c.moved payload stage') := by
  have hnew : (c.moved payload stage').Stands w'.store payload stage' :=
    ⟨hold.wrote, rfl, hold.shard_eq, hold.put_eq, by cases stage' <;> exact hfits⟩
  have hsucceeded : ∀ receipt, (c.moved payload stage').Succeeded receipt ↔ c.Succeeded receipt := by
    intro receipt
    rw [hnew.succeeded_iff, hold.succeeded_iff, hreceipt]
  exact ⟨h.replaced hc rfl (exists_congr hsucceeded) (.underway hnew) fun tx htx => .inl htx,
    .quiet hrows hsucceeded⟩

/-- A call gets a new transaction. -/
theorem Books.begins (h : Books w calls) (hc : calls[n]? = some c)
    (hold : c.Stands w.store payload .beginning) {tx : Handle}
    (hperform : w.perform jobProgram fiber (.begin c.shard) = (w', .answer (.ok tx)))
    (hbooks : Books w' calls) (hrows : w.RowsAlike w')
    (hshards : ∀ s, w'.shards.contains s = w.shards.contains s) :
    Books w' (calls.set n { c.moved payload (.opened tx) with tx := some tx }) ∧
      c.Goes w w' { c.moved payload (.opened tx) with tx := some tx } := by
  have hnone : c.put = none := by
    cases hput : c.put with
    | none => rfl
    | some i => cases (hold.put_eq i hput).1.symm.trans hold.fits
  have hjournal := (holds_begin h.wellFormed hperform).1
  obtain ⟨rfl, hopened⟩ := perform_begin_new hperform
  have hnew : ProducerCall.Stands w'.store
      { c.moved payload (.opened ⟨c.shard, (w.store c.shard).opened + 1⟩) with
        tx := some ⟨c.shard, (w.store c.shard).opened + 1⟩ }
      payload (.opened ⟨c.shard, (w.store c.shard).opened + 1⟩) := by
    refine ⟨hold.wrote, rfl, ?_, fun i hi => ?_, rfl, hnone, hjournal⟩
    · rintro tx heq
      cases heq
      rfl
    · cases hnone.symm.trans hi
  have hsucceeded := fun receipt =>
    (hnew.succeeded_iff receipt).trans (hold.succeeded_iff receipt).symm
  refine ⟨hbooks.replaced hc rfl (exists_congr hsucceeded) (.underway hnew) ?_,
    .quiet hrows hsucceeded⟩
  rintro tx heq
  cases heq
  refine .inr fun hthere => ?_
  rw [hshards] at hthere
  refine ⟨?_, fun j d hd htx => ?_⟩
  · rw [hopened, if_pos hthere]
    exact Nat.le_refl _
  · exact absurd (h.begun hd htx hthere) (Nat.not_succ_le_self _)

/-- A call puts its row in, which nobody sees yet. -/
theorem Books.inserts (h : Books w calls) (hc : calls[n]? = some c) {tx : Handle} {id : TaskId}
    (hold : c.Stands w.store payload (.inserting tx))
    (hanswer : ((w.store tx.shard).perform (.enqueue tx.transaction w.clock c.location
      (c.new payload))).2 = .enqueued (.ok id))
    (hstore : ∀ s, w'.store s = w.acted tx.shard (.enqueue tx.transaction w.clock c.location
      (c.new payload)) s)
    (hshards : ∀ s, w'.shards.contains s = w.shards.contains s) (hrows : w.RowsAlike w') :
    Books w' (calls.set n { c.moved payload (.inserted tx id) with
        put := some ⟨tx, c.location, c.new payload, id, w.clock⟩ }) ∧
      c.Goes w w' { c.moved payload (.inserted tx id) with
        put := some ⟨tx, c.location, c.new payload, id, w.clock⟩ } := by
  obtain ⟨hown, hnone, hjournal⟩ := hold.fits
  have hnew : ProducerCall.Stands w'.store { c.moved payload (.inserted tx id) with
      put := some ⟨tx, c.location, c.new payload, id, w.clock⟩ } payload (.inserted tx id) := by
    refine ⟨hold.wrote, rfl, hold.shard_eq, fun i hi => ?_, hown, _, rfl, rfl⟩
    cases hi
    exact ⟨hown, rfl, rfl⟩
  have hsucceeded := fun receipt =>
    (hnew.succeeded_iff receipt).trans (hold.succeeded_iff receipt).symm
  refine ⟨h.inserted hc hown hnone hjournal hanswer hstore hshards rfl rfl (fun receipt hnow => ?_)
    (.underway hnew), .quiet hrows hsucceeded⟩
  cases (hnew.succeeded_iff receipt).1 hnow

/-- A call commits, and its row is there. -/
theorem Books.commits (h : Books w calls) (hc : calls[n]? = some c) {tx : Handle} {id : TaskId}
    (hold : c.Stands w.store payload (.committing tx id))
    (hanswer : ((w.store tx.shard).perform (.commit tx.transaction)).2 = .ended (.ok ()))
    (hstore : ∀ s, w'.store s = w.acted tx.shard (.commit tx.transaction) s)
    (hshards : ∀ s, w'.shards.contains s = w.shards.contains s) :
    Books w' (calls.set n (c.moved payload (.closing tx (.ok ⟨c.shard, id⟩)))) ∧
      c.Goes w w' (c.moved payload (.closing tx (.ok ⟨c.shard, id⟩))) := by
  obtain ⟨hown, i, hi, rfl⟩ := hold.fits
  obtain ⟨hitx, -, -⟩ := hold.put_eq i hi
  obtain rfl := Option.some.inj (hown.symm.trans hitx)
  have hnew : (c.moved payload (.closing i.tx (.ok ⟨c.shard, i.id⟩))).Stands w'.store payload
      (.closing i.tx (.ok ⟨c.shard, i.id⟩)) :=
    ⟨hold.wrote, rfl, hold.shard_eq, hold.put_eq, hown, i, hi, rfl⟩
  have hfresh : ∀ receipt, ¬ c.Succeeded receipt := by
    intro receipt hbefore
    cases (hold.succeeded_iff receipt).1 hbefore
  have hsucceeded := (hnew.succeeded_iff _).2 rfl
  exact ⟨h.committed hc hi hanswer hstore hshards rfl rfl ⟨_, hsucceeded⟩ (.underway hnew),
    .lands hfresh hi hsucceeded (h.gains hc hi hfresh hanswer hstore)⟩

end Stages

/-- An insertion that fails leaves the stores alone, and so does a commit. -/
theorem store_of_failed {a : Store.Action} {shard : ShardId}
    (hstore : ∀ s, w'.store s = w.acted shard a s)
    (hfailed : (∃ e, ((w.store shard).perform a).2 = .enqueued (.error e)) ∨
      ∃ e, ((w.store shard).perform a).2 = .ended (.error e)) (s : ShardId) :
    w'.store s = w.store s := by
  have hstep := Store.perform_step (w.store shard) a
  have hsame : ((w.store shard).perform a).1 = w.store shard := by
    generalize (w.store shard).perform a = outcome at hstep hfailed
    obtain ⟨s', answer⟩ := outcome
    dsimp only at hstep hfailed ⊢
    rcases hfailed with ⟨e, rfl⟩ | ⟨e, rfl⟩ <;> cases hstep <;> rfl
  rw [hstore, World.acted, hsame]
  split
  · next hand => rw [hand.1]
  · rfl

/-- What a request of a call does to the books and to the rows. -/
theorem Books.answered (h : Books w calls) (hc : calls[n]? = some c)
    (hleft : c.left = .call r next)
    (hperform : w.perform jobProgram fiber r = (w', .answer reply)) :
    Books w' (calls.set n (c.answered w.clock ⟨r, reply⟩ (next reply))) ∧
      c.Goes w w' (c.answered w.clock ⟨r, reply⟩ (next reply)) := by
  have hstore := fun s => w.store_perform jobProgram fiber r s
  have hshards := fun s => w.contains_perform jobProgram fiber r s
  rw [hperform] at hstore hshards
  dsimp only at hstore hshards
  have hrows : (∀ tx l lease, r ≠ .pick tx l lease) → (∀ tx, r ≠ .commit tx) →
      w.RowsAlike w' := by
    intro hpick hcommit s id
    have hcommitted := World.committed_perform jobProgram fiber h.wellFormed hpick hcommit s id
    rwa [hperform] at hcommitted
  have hidle : (∀ s, w'.store s = w.store s) → Books w' calls ∧ w.RowsAlike w' :=
    fun hsame => ⟨h.of_store hsame hshards, fun s id => by rw [hsame]⟩
  cases h.sound hc with
  | refused hrefused => cases hrefused.symm.trans hleft
  | @underway payload stage hold =>
    have hthen : ∀ {r' : Request (Job α)} {after : r'.Reply → CallStage},
        stage.request? c.location c.shard (c.new payload) = some ⟨r', after⟩ →
          (.call r next : Process (Job α) (Except QueueError Receipt)) =
            .call r' fun reply => (after reply).left c.location c.shard (c.new payload) :=
      fun hrequest => hleft.symm.trans (hold.left_eq.trans (CallStage.left_eq hrequest))
    have hfits := hold.fits
    cases stage with
    | returned result => cases hold.left_eq.symm.trans hleft
    | starting =>
      cases hthen rfl
      obtain ⟨hbooks, hrows⟩ := hidle hstore
      cases reply with
      | ok u => exact hbooks.moved hc hold hrows hfits rfl
      | error e =>
        refine hbooks.moved hc hold hrows (?_ : c.Fits w'.store (.returned (.error (.store e)))) rfl
        intro tx hown
        cases hown.symm.trans hfits
    | beginning =>
      cases hthen rfl
      have hbooks : Books w' calls := h.acted hstore hshards fun _ => trivial
      have hrows := hrows (by simp) (by simp)
      cases reply with
      | ok tx => exact h.begins hc hold hperform hbooks hrows hshards
      | error e =>
        refine hbooks.moved hc hold hrows (?_ : c.Fits w'.store (.returned (.error (.store e)))) rfl
        intro tx hown
        cases hown.symm.trans hfits
    | opened tx =>
      cases hthen rfl
      obtain ⟨hbooks, hrows⟩ := hidle hstore
      have hstore : w'.store = w.store := funext hstore
      cases reply with
      | ok u => exact hbooks.moved hc hold hrows (hstore ▸ hfits) rfl
      | error e => exact hbooks.moved hc hold hrows hfits.1 rfl
    | inserting tx =>
      cases hthen rfl
      cases reply with
      | ok id =>
        exact h.inserts hc hold (World.perform_enqueue_answer (congrArg Prod.snd hperform)) hstore
          hshards (hrows (by simp) (by simp))
      | error e =>
        have hanswer : ((w.store tx.shard).enqueue tx.transaction w.clock c.location
            (c.new payload)).2 = .error e := Reply.answer.inj (congrArg Prod.snd hperform)
        obtain ⟨hbooks, hrows⟩ := hidle (store_of_failed hstore (.inl ⟨e, by
          simp only [Store.perform, Prod.map_snd, hanswer]⟩))
        exact hbooks.moved hc hold hrows hfits.1 rfl
    | inserted tx id =>
      cases hthen rfl
      obtain ⟨hbooks, hrows⟩ := hidle hstore
      cases reply with
      | ok u => exact hbooks.moved hc hold hrows hfits rfl
      | error e => exact hbooks.moved hc hold hrows hfits.1 rfl
    | committing tx id =>
      cases hthen rfl
      cases reply with
      | ok u =>
        exact h.commits hc hold (World.perform_commit_answer (congrArg Prod.snd hperform)) hstore
          hshards
      | error e =>
        have hanswer : ((w.store tx.shard).commit tx.transaction).2 = .error e :=
          Reply.answer.inj (congrArg Prod.snd hperform)
        obtain ⟨hbooks, hrows⟩ := hidle (store_of_failed hstore (.inr ⟨e, by
          simp only [Store.perform, Prod.map_snd, hanswer]⟩))
        exact hbooks.moved hc hold hrows hfits.1 rfl
    | closing tx result =>
      cases hthen rfl
      have hbooks : Books w' calls := h.acted hstore hshards fun _ => trivial
      cases result with
      | ok receipt => exact hbooks.moved hc hold (hrows (by simp) (by simp)) hfits.2 rfl
      | error e =>
        refine hbooks.moved hc hold (hrows (by simp) (by simp)) (fun tx' hown hopen => ?_) rfl
        obtain rfl := Option.some.inj (hfits.symm.trans hown)
        rw [hstore] at hopen
        exact World.not_isOpen_abandoned tx hopen

/-- What a call has put in it has put in for good. -/
theorem ProducerCall.Sound.put_answered {store : ShardId → Store} (h : c.Sound store)
    (hleft : c.left = .call r next) (clock : Instant) (reply : r.Reply)
    (left : Process (Job α) (Except QueueError Receipt)) {i : Insertion} (hput : c.put = some i) :
    (c.answered clock ⟨r, reply⟩ left).put = some i := by
  cases r with
  | enqueue tx location task =>
    have hnone : c.put = none := by
      cases h with
      | refused _ _ hnone => exact hnone
      | @underway payload stage h =>
        have hcall := h.left_eq.symm.trans hleft
        cases stage with
        | inserting => exact h.fits.2.1
        | returned => cases hcall
        | _ =>
          rw [CallStage.left_eq rfl] at hcall
          cases hcall
    cases hnone.symm.trans hput
  | begin shard => cases reply <;> exact hput
  | _ => exact hput

/-- A call stays the call of its producer with its task. -/
theorem ProducerCall.answered_fixed (c : ProducerCall α) (clock : Instant) (x : Exchange (Job α))
    (left : Process (Job α) (Except QueueError Receipt)) :
    (c.answered clock x left).producer = c.producer ∧ (c.answered clock x left).task = c.task := by
  obtain ⟨r, reply⟩ := x
  cases r with
  | begin => cases reply <;> exact ⟨rfl, rfl⟩
  | enqueue => cases reply <;> exact ⟨rfl, rfl⟩
  | _ => exact ⟨rfl, rfl⟩

/-- A call gets a transaction by opening it. -/
theorem ProducerCall.tx_answered {clock : Instant} {x : Exchange (Job α)}
    {left : Process (Job α) (Except QueueError Receipt)} {tx : Handle}
    (htx : (c.answered clock x left).tx = some tx) :
    c.tx = some tx ∨ ∃ shard, x = ⟨.begin shard, .ok tx⟩ := by
  obtain ⟨r, reply⟩ := x
  cases r with
  | begin shard =>
    cases reply with
    | ok tx' =>
      cases htx
      exact .inr ⟨shard, rfl⟩
    | error e => exact .inl htx
  | enqueue => cases reply <;> exact .inl htx
  | _ => exact .inl htx

/-- A call stays where it is when it is given up. -/
theorem ProducerCall.Sound.giveUp {store : ShardId → Store} (h : c.Sound store) :
    ({ c with givenUp := true } : ProducerCall α).Sound store := by
  cases h with
  | refused hleft htx hput => exact .refused hleft htx hput
  | @underway payload stage h =>
    exact .underway ⟨h.wrote, h.left_eq, h.shard_eq, h.put_eq, by cases stage <;> exact h.fits⟩

end Request

end LeaseQueue
