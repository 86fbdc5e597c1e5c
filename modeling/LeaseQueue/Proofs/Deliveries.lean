import LeaseQueue.Proofs.Markets

/-!
# What is enqueued is what is delivered

`Registry.Lawful` is what an application has to see to: its routers name only shards that they list,
and what its codecs write they can read again.  Then every call that succeeds has added exactly one
row to what everybody sees, in the shard that its router names, and a call that fails has changed
nothing (`Market.Landed`).  And every consumer that is called gets the task of exactly one call that
has succeeded before on the same queue (`ProducerCall.Sent`), whatever picks, retries, fresh starts
and rollbacks the row has been through.

Main statement: `Market.enqueued_is_delivered`.
-/

set_option autoImplicit false

namespace LeaseQueue

variable {α ω β : Type}

open Process

/-- The routers and the codecs do what they are for, and two that count as the same do the same. -/
structure Registry.Lawful (rs : List (Registration α)) : Prop where
  routes : ∀ {c p}, .queue c p ∈ rs → ∀ task, p.router.route task ∈ p.router.shards
  reads : ∀ {c p}, .queue c p ∈ rs → ∀ {payload stored},
    p.codec.write payload = .ok stored → p.codec.read stored = .value payload
  routers : ∀ {c p}, .queue c p ∈ rs → c.router.identity = p.router.identity →
    c.router.shards = p.router.shards
  codecs : ∀ {c p}, .queue c p ∈ rs → c.codec.identity = p.codec.identity →
    c.codec.read = p.codec.read

/-- A call has put a task in at a queue, under this number in its shard. -/
structure ProducerCall.Sent (c : ProducerCall α) (location : Location) (id : TaskId)
    (task : Task α) : Prop where
  succeeded : c.Succeeded ⟨task.shard, id⟩
  location_eq : c.location = location
  payload_eq : task.payload = c.task.payload
  correlationId_eq : task.correlationId = c.task.correlationId
  actor_eq : task.actor = c.task.actor
  created_eq : ∃ i, c.put = some i ∧ task.created = i.created

/-- A call that has failed has not succeeded. -/
theorem ProducerCall.Failed.not_succeeded {c : ProducerCall α} (h : c.Failed) (receipt : Receipt) :
    ¬ c.Succeeded receipt := by
  obtain ⟨e, hleft⟩ := h
  rintro (hdone | ⟨tx, hdone⟩) <;> cases hleft.symm.trans hdone

namespace Market

variable {p : Pool α} {rs : List (Registration α)} {m : Market α}
  {past : List (Market α × Move α)}

/-! ## What a call does to the rows -/

/-- The move is one of this call. -/
def Move.Concerns (m : Market α) (n : Nat) : Move α → Prop
  | .service _ => False
  | .call .. => m.calls.length = n
  | .ask k => k = n
  | .giveUp k => k = n

/-- This was no move of the call, or no row that everybody sees has changed by it. -/
def Silent (p : Pool α) (n : Nat) (e : Market α × Move α) : Prop :=
  e.2.Concerns e.1 n → e.1.world.RowsAlike (e.1.step p e.2).world

/-- All that a call has done to the rows: nothing, and it has not succeeded; or there was one moment
at which its row came, and it has succeeded. -/
inductive Landed (p : Pool α) (n : Nat) (c : ProducerCall α) (past : List (Market α × Move α)) : Prop
  | nothing (hnot : ∀ receipt, ¬ c.Succeeded receipt) (hsilent : ∀ e ∈ past, Silent p n e)
  | row {before after : List (Market α × Move α)} {m : Market α} {i : Insertion}
    (hpast : past = before ++ (m, .ask n) :: after) (hput : c.put = some i)
    (hsucceeded : c.Succeeded ⟨c.shard, i.id⟩)
    (hgains : m.world.Gains (m.step p (.ask n)).world i)
    (hsilent : ∀ e ∈ before ++ after, Silent p n e)

/-- What a move makes of a call: it keeps what it has put in, and it has succeeded if it had. -/
structure Continues (c c' : ProducerCall α) : Prop where
  shard_eq : c'.shard = c.shard
  put : ∀ i, c.put = some i → c'.put = some i
  succeeded : ∀ receipt, c'.Succeeded receipt ↔ c.Succeeded receipt

/-- A call continues itself. -/
theorem Continues.refl (c : ProducerCall α) : Continues c c := ⟨rfl, fun _ h => h, fun _ => .rfl⟩

/-- What a move does to a call and to the rows. -/
inductive Progress (p : Pool α) (m : Market α) (move : Move α) (n : Nat) : Prop
  | silent (hsilent : Silent p n (m, move))
    (hcall : ∀ c', (m.step p move).calls[n]? = some c' →
      (∃ c, m.calls[n]? = some c ∧ Continues c c') ∨
        m.calls[n]? = none ∧ ∀ receipt, ¬ c'.Succeeded receipt)
    (hnone : (m.step p move).calls[n]? = none → m.calls[n]? = none)
  | lands {c c' : ProducerCall α} {i : Insertion} (hmove : move = .ask n)
    (hc : m.calls[n]? = some c) (hc' : (m.step p move).calls[n]? = some c')
    (hnot : ∀ receipt, ¬ c.Succeeded receipt) (hput : c'.put = some i)
    (hsucceeded : c'.Succeeded ⟨c'.shard, i.id⟩)
    (hgains : m.world.Gains (m.step p (.ask n)).world i)

/-- Worlds with the same stores have the same rows. -/
theorem rowsAlike_of_store {w w' : World ω β} (h : ∀ s, w'.store s = w.store s) : w.RowsAlike w' :=
  fun s id => by rw [h s]

/-- Nothing happens to a call that a move does not change. -/
theorem progress_of_same {move : Move α} {n : Nat} (hsilent : Silent p n (m, move))
    (hsame : (m.step p move).calls[n]? = m.calls[n]?) : Progress p m move n :=
  .silent hsilent (fun c' hc' => .inl ⟨c', hsame.symm.trans hc', .refl c'⟩) fun hnone =>
    hsame.symm.trans hnone

/-- A turn of a call brings its row, or no row that others see. -/
theorem Orderly.progress_ask (h : m.Orderly p rs) (n : Nat) : Progress p m (.ask n) n := by
  have hasked := m.asked_ask (p := p) n
  change Asked p m n (m.step p (.ask n)) at hasked
  generalize hm' : m.step p (.ask n) = m' at hasked
  cases hasked with
  | idle =>
    refine progress_of_same (fun _ => ?_) ?_
    · exact rowsAlike_of_store fun s => by rw [hm']
    · rw [hm']
  | @moved c r next reply w hc hleft hperform =>
    obtain ⟨-, hgoes⟩ := h.books.answered hc hleft hperform
    have hcall : (m.step p (.ask n)).calls[n]? =
        some (c.answered m.world.clock ⟨r, reply⟩ (next reply)) := by
      rw [hm']
      exact (getElem?_replaced hc n).trans (if_pos rfl)
    have hstore : ∀ s, (m.step p (.ask n)).world.store s = w.store s := fun s => by
      rw [hm']
      rfl
    have hfixed := c.answered_fixed m.world.clock ⟨r, reply⟩ (next reply)
    have hshard : (c.answered m.world.clock ⟨r, reply⟩ (next reply)).shard = c.shard := by
      unfold ProducerCall.shard
      rw [hfixed.1, hfixed.2]
    cases hgoes with
    | quiet hrows hsucceeded =>
      refine .silent (fun _ s id => by rw [hstore]; exact hrows s id) (fun c' hc' => ?_)
        fun hnone => nomatch hcall.symm.trans hnone
      cases hcall.symm.trans hc'
      exact .inl ⟨c, hc, hshard, fun i => (h.books.sound hc).put_answered hleft _ _ _, hsucceeded⟩
    | lands hbefore hput hsucceeded hgains =>
      refine .lands rfl hc hcall hbefore hput (hshard ▸ hsucceeded) ⟨hgains.before, ?_, ?_⟩
      · rw [hstore]
        exact hgains.after
      · intro s id hother
        rw [hstore]
        exact hgains.others s id hother

/-- No row that everybody sees changes when a transaction is abandoned. -/
theorem rowsAlike_abandon {w : World (Job α) β} (hs : ∀ s, (w.store s).WellFormed) (tx : Handle) :
    w.RowsAlike (w.abandon tx) :=
  fun s id => World.committed_perform Job.work 0 hs (r := .abandon tx) nofun nofun s id

/-- A call that is given up brings no row. -/
theorem Orderly.progress_giveUp (h : m.Orderly p rs) (n : Nat) : Progress p m (.giveUp n) n := by
  cases hc : m.calls[n]? with
  | none =>
    have hstep := giveUp_of_none (p := p) hc
    exact progress_of_same (fun _ => rowsAlike_of_store fun s => by rw [hstep]) (by rw [hstep])
  | some c =>
    have hstep := giveUp_of_some (p := p) hc
    have hcall : (m.step p (.giveUp n)).calls[n]? = some { c with givenUp := true } := by
      rw [hstep]
      exact (getElem?_replaced hc n).trans (if_pos rfl)
    refine .silent (fun _ s id => ?_) (fun c' hc' => ?_) fun hnone => nomatch hcall.symm.trans hnone
    · rw [hstep]
      show ((c.tx.toList.foldl World.abandon m.world).store s).committed id = _
      cases c.tx with
      | none => rfl
      | some tx => exact rowsAlike_abandon h.books.wellFormed tx s id
    · cases hcall.symm.trans hc'
      exact .inl ⟨c, hc, rfl, fun _ hput => hput, fun _ => .rfl⟩

/-- Every move does to every call and to the rows one of these things. -/
theorem Orderly.progress (h : m.Orderly p rs) (move : Move α) (n : Nat) : Progress p m move n := by
  cases move with
  | service move => exact progress_of_same (fun hmine => hmine.elim) rfl
  | call producer task =>
    by_cases hn : m.calls.length = n
    · have hnone : m.calls[n]? = none := List.getElem?_eq_none (Nat.le_of_eq hn)
      refine .silent (fun _ => rowsAlike_of_store fun s => rfl) (fun c' hc' => .inr ⟨hnone, ?_⟩)
        fun _ => hnone
      have hmade : (m.calls ++ [ProducerCall.make producer task])[n]? = some c' := hc'
      subst hn
      rw [List.getElem?_concat_length] at hmade
      cases hmade
      exact ProducerCall.not_succeeded_make producer task
    · refine progress_of_same (fun hmine => absurd hmine hn) ?_
      show (m.calls ++ [ProducerCall.make producer task])[n]? = _
      rw [List.getElem?_append]
      split
      · rfl
      · next hlast =>
        rw [List.getElem?_singleton, if_neg fun heq => hn ?_, List.getElem?_eq_none_iff.2]
        · exact Nat.le_of_not_lt hlast
        · exact Nat.le_antisymm (Nat.le_of_not_lt hlast) (Nat.sub_eq_zero_iff_le.1 heq)
  | ask k =>
    by_cases hk : k = n
    · exact hk ▸ h.progress_ask k
    · refine progress_of_same (fun hmine => absurd hmine hk) ?_
      have hasked := m.asked_ask (p := p) k
      change Asked p m k (m.step p (.ask k)) at hasked
      generalize m.step p (.ask k) = m' at hasked
      cases hasked with
      | idle => rfl
      | moved hc => exact (getElem?_replaced hc n).trans (if_neg fun heq => hk heq.symm)
  | giveUp k =>
    by_cases hk : k = n
    · exact hk ▸ h.progress_giveUp k
    · refine progress_of_same (fun hmine => absurd hmine hk) ?_
      cases hc : m.calls[k]? with
      | none => rw [giveUp_of_none hc]
      | some c =>
        rw [giveUp_of_some hc]
        exact (getElem?_replaced hc n).trans (if_neg fun heq => hk heq.symm)

/-- One more move that changes no row. -/
theorem forall_silent {n : Nat} {e : Market α × Move α} (hpast : ∀ e ∈ past, Silent p n e)
    (he : Silent p n e) : ∀ e' ∈ past ++ [e], Silent p n e' := by
  intro e' he'
  rcases List.mem_append.1 he' with hold | hnew
  · exact hpast e' hold
  · cases List.mem_singleton.1 hnew
    exact he

/-- What a call has done to the rows is the same after a move that does nothing to them. -/
theorem Landed.continues {n : Nat} {c c' : ProducerCall α} {e : Market α × Move α}
    (h : Landed p n c past) (hcall : Continues c c') (he : Silent p n e) :
    Landed p n c' (past ++ [e]) := by
  cases h with
  | nothing hnot hsilent =>
    exact .nothing (fun receipt hdone => hnot receipt ((hcall.succeeded receipt).1 hdone))
      (forall_silent hsilent he)
  | @row before after m i hpast hput hsucceeded hgains hsilent =>
    have hmore : past ++ [e] = before ++ (m, .ask n) :: (after ++ [e]) := by simp [hpast]
    refine .row hmore (hcall.put i hput) ?_ hgains ?_
    · rw [hcall.shard_eq]
      exact (hcall.succeeded _).2 hsucceeded
    · rw [← List.append_assoc]
      exact forall_silent hsilent he

/-- Whatever has happened, a call that has succeeded has added one row, and any other one
nothing. -/
theorem Course.landed (h : Course p rs past m) (n : Nat) :
    (∀ c, m.calls[n]? = some c → Landed p n c past) ∧
      (m.calls[n]? = none → ∀ e ∈ past, Silent p n e) := by
  induction h with
  | initial clock shards limits =>
    exact ⟨fun c hc => (nomatch (show none = some c from hc)),
      fun _ e he => absurd he List.not_mem_nil⟩
  | @step past m move h hallows ih =>
    cases h.orderly.progress move n with
    | silent hsilent hcall hnone =>
      refine ⟨fun c' hc' => ?_, fun hgone => forall_silent (ih.2 (hnone hgone)) hsilent⟩
      rcases hcall c' hc' with ⟨c, hc, hcontinues⟩ | ⟨hgone, hnot⟩
      · exact (ih.1 c hc).continues hcontinues hsilent
      · exact .nothing hnot (forall_silent (ih.2 hgone) hsilent)
    | lands hmove hc hc' hnot hput hsucceeded hgains =>
      subst hmove
      refine ⟨fun c'' hc'' => ?_, fun hgone => nomatch hc'.symm.trans hgone⟩
      cases hc'.symm.trans hc''
      cases ih.1 _ hc with
      | nothing _ hsilent =>
        exact .row rfl hput hsucceeded hgains (by rwa [List.append_nil])
      | row _ _ hbefore => exact absurd hbefore (hnot _)

/-! ## What a failed call leaves behind -/

/-- A call that has failed has changed no row at any moment. -/
theorem Landed.silent_of_failed {n : Nat} {c : ProducerCall α} (h : Landed p n c past)
    (hfailed : c.Failed) : ∀ e ∈ past, Silent p n e := by
  cases h with
  | nothing _ hsilent => exact hsilent
  | row _ _ hsucceeded => exact absurd hsucceeded (hfailed.not_succeeded _)

/-- The row of a call that has failed is gone, also for those who look at what is not committed. -/
theorem Orderly.row_of_failed (h : m.Orderly p rs) {n : Nat} {c : ProducerCall α}
    (hc : m.calls[n]? = some c) (hfailed : c.Failed) {i : Insertion} (hput : c.put = some i) :
    (m.world.store i.tx.shard).rows.get? i.id = none := by
  cases hrow : (m.world.store i.tx.shard).rows.get? i.id with
  | none => rfl
  | some row =>
    exfalso
    have hsourced := h.books.sourced i.tx.shard
    obtain ⟨i', hput', hid, -, hown⟩ := hsourced.row hrow
    obtain rfl := hsourced.unique hput' ⟨n, c, hc, hput, rfl⟩ hid
    rcases hown with ⟨j, d, receipt, hd, hdput, hsucceeded⟩ | hholder
    · obtain rfl := h.books.eq_of_same_put hc hd hput hdput
      cases hd.symm.trans hc
      exact hfailed.not_succeeded receipt hsucceeded
    · have hsound := h.books.sound hc
      exact hsound.not_isOpen_of_failed hfailed (hsound.tx_of_put hput).1
        ((h.books.wellFormed _).holder_open hrow hholder)

/-! ## Where a call puts its row -/

/-- A registered producer puts its tasks where the pool has a place for its queue. -/
theorem mem_places_of_registered (haccepted : p.Accepted rs) (hlawful : Registry.Lawful rs)
    {consumer : Consumer α} {producer : Producer α} (hmem : .queue consumer producer ∈ rs)
    (task : Submission α) : (producer.config.location, producer.router.route task) ∈ p.places := by
  have hconsistent := haccepted.consistent
  have hlocation : consumer.config.location = producer.config.location :=
    congrArg QueueConfig.location (hconsistent.config_eq hmem)
  refine haccepted.mem_places.2 ⟨consumer, ?_, ?_⟩
  · exact (haccepted.has.queues _ _).2 ⟨producer, hmem, hlocation⟩
  · rw [hlawful.routers hmem (hconsistent.router_eq hmem)]
    exact hlawful.routes hmem task

/-- The queue at a location reads what the producer of this queue has written. -/
theorem read_of_registered (haccepted : p.Accepted rs) (hlawful : Registry.Lawful rs)
    {consumer queue : Consumer α} {producer : Producer α} (hmem : .queue consumer producer ∈ rs)
    (hqueue : p.wiring.queues.get? producer.config.location = some queue) {payload : Option α}
    {stored : Option String} (hwrite : producer.codec.write payload = .ok stored) :
    queue.codec.read stored = .value payload := by
  have hconsistent := haccepted.consistent
  have hmine : p.wiring.queues.get? producer.config.location = some consumer :=
    (haccepted.has.queues _ _).2
      ⟨producer, hmem, congrArg QueueConfig.location (hconsistent.config_eq hmem)⟩
  cases hqueue.symm.trans hmine
  rw [hlawful.codecs hmem (hconsistent.codec_eq hmem)]
  exact hlawful.reads hmem hwrite

/-! ## Which call a consumer is called for -/

/-- The task of a row that was put in by a call is the one that the call has sent, and no other call
has sent it. -/
theorem Orderly.sent (h : m.Orderly p rs) (haccepted : p.Accepted rs)
    (hlawful : Registry.Lawful rs) {q : Processor α}
    (hqueue : p.wiring.queues.get? q.location = some q.consumer) {record : TaskRecord}
    (htraced : q.Traced m.calls record) {payload : Option α}
    (hread : q.consumer.codec.read record.payload = .value payload) :
    ∃! n : Nat, ∃ c : ProducerCall α, m.calls[n]? = some c ∧
      c.Sent q.location record.id (.ofRecord q.shard payload record) := by
  obtain ⟨-, i, ⟨n', c', hc', hput', hshard⟩, ⟨n, c, receipt, hc, hput, hsucceeded⟩, hlocation, hid,
    hpayload, hcreated, hcorrelation, hactor⟩ := htraced
  obtain rfl := h.books.eq_of_same_put hc hc' hput hput'
  obtain rfl := Option.some.inj (hc.symm.trans hc')
  obtain ⟨i', stored, hput'', rfl, hown, hwrite, hat, htask⟩ :=
    (h.books.sound hc).put_of_succeeded hsucceeded
  cases hput.symm.trans hput''
  obtain ⟨consumer, hmem⟩ := h.registered hc
  have hplace : c.location = q.location := hat.symm.trans hlocation.symm
  have hwritten : q.consumer.codec.read stored = .value c.task.payload :=
    read_of_registered haccepted hlawful hmem (by rw [← hqueue, ← hplace]; rfl) hwrite
  rw [hpayload, htask] at hread
  have hsame : payload = c.task.payload := Reading.value.inj (hread.symm.trans hwritten)
  refine ⟨n', ⟨c, hc, ⟨?_, hplace, hsame, ?_, ?_, i, hput, hcreated⟩⟩, ?_⟩
  · have hreceipt : (⟨c.shard, i.id⟩ : Receipt) = ⟨q.shard, record.id⟩ := by
      rw [← hown, hshard, hid]
    exact hreceipt ▸ hsucceeded
  · exact hcorrelation.trans (congrArg NewTask.correlationId htask)
  · exact hactor.trans (congrArg NewTask.actor htask)
  · -- two calls with one receipt have put one row in
    rintro k ⟨d, hd, hsent⟩
    obtain ⟨i', -, hdput, hreceipt, hdown, -⟩ :=
      (h.books.sound hd).put_of_succeeded hsent.succeeded
    obtain ⟨hdshard, hdid⟩ := Receipt.mk.inj hreceipt
    have hrow : i'.tx.shard = q.shard := hdown.trans hdshard.symm
    obtain rfl := (h.books.sourced q.shard).unique ⟨n', c, hc, hput, hshard⟩
      ⟨k, d, hd, hdput, hrow⟩ (hid.symm.trans hdid)
    exact h.books.eq_of_same_put hc hd hput hdput

/-! ## Markets -/

/-- What has been put in is what is delivered. -/
structure Faithful (p : Pool α) (past : List (Market α × Move α)) (m : Market α) : Prop where
  /-- A call that has succeeded has put its task in on the shard that its router names, where its
  queue has a loop as soon as the pool has been started. -/
  placed : ∀ {n : Nat} {c : ProducerCall α} {receipt : Receipt}, m.calls[n]? = some c →
    c.Succeeded receipt → ∃ i stored, c.put = some i ∧ receipt = ⟨i.tx.shard, i.id⟩ ∧
      i.tx.shard = c.producer.router.route c.task ∧ i.location = c.location ∧
      c.producer.codec.write c.task.payload = .ok stored ∧ i.task = c.new stored ∧
      (m.service.starts ≠ 0 →
        (c.location, i.tx.shard) ∈ (Pool.loopStates m.world).map LoopEntry.place)
  /-- It has added exactly this row, at one moment. -/
  landed : ∀ {n : Nat} {c : ProducerCall α}, m.calls[n]? = some c → Landed p n c past
  /-- A call that has failed has never changed a row, and not even in a transaction is there
  anything left of it. -/
  cleared : ∀ {n : Nat} {c : ProducerCall α}, m.calls[n]? = some c → c.Failed →
    (∀ e ∈ past, Silent p n e) ∧
      ∀ i, c.put = some i → (m.world.store i.tx.shard).rows.get? i.id = none
  /-- A consumer is called with the task of exactly one call on its queue that has succeeded. -/
  delivered : ∀ {k : FiberId} {f : Fiber (Job α) (Except PoolError Unit)} {number : Nat}
    {next : Nat → Body (Job α) (Except PoolError Unit)},
    m.world.fibers.get? k = some f → f.body.request? = some ⟨.invocation number, next⟩ →
      ∃ duty q record payload, m.service.duty k = some duty ∧ duty.processor? = some q ∧
        f.body.Hands q.consumer (.ofRecord q.shard payload record) ∧ 1 ≤ record.attempts ∧
        ∃! n : Nat, ∃ c : ProducerCall α, m.calls[n]? = some c ∧
          c.Sent q.location record.id (.ofRecord q.shard payload record)

/-- However a pool of an accepted wiring and the calls of its producers are interleaved, what has
been put in is what is delivered. -/
theorem enqueued_is_delivered (haccepted : p.Accepted rs) (hlawful : Registry.Lawful rs)
    (h : Course p rs past m) : m.Faithful p past := by
  have horderly := h.orderly
  refine ⟨fun {n c receipt} hc hsucceeded => ?_, fun {n c} hc => (h.landed n).1 c hc,
    fun {n c} hc hfailed => ⟨((h.landed n).1 c hc).silent_of_failed hfailed,
      fun i => horderly.row_of_failed hc hfailed⟩, fun {k f number next} hf hbody => ?_⟩
  · obtain ⟨i, stored, hput, rfl, hshard, hwrite, hlocation, htask⟩ :=
      (horderly.books.sound hc).put_of_succeeded hsucceeded
    refine ⟨i, stored, hput, by rw [hshard], hshard, hlocation, hwrite, htask, fun hstarted => ?_⟩
    obtain ⟨consumer, hmem⟩ := horderly.registered hc
    have hloops : (Pool.loopStates m.world).map LoopEntry.place = p.places :=
      Pool.map_place_loopStates horderly.reached hstarted
    rw [hloops, hshard]
    exact mem_places_of_registered haccepted hlawful hmem c.task
  · obtain ⟨duty, hduty, hleft⟩ :=
      horderly.reached.accounted.left (Service.standing_of_fiber hf)
    have hinformed := horderly.informed hduty
    obtain ⟨q, record, payload, hq, hrecord, hread, hhands⟩ :=
      hleft.delivers hinformed.trusts hbody
    have htraced := hinformed.sound.traced q hq record hrecord
    have hqueue := haccepted.queue_of_source (horderly.reached.placed.source hduty) hq
    exact ⟨duty, q, record, payload, hduty, hq, hhands, htraced.1,
      horderly.sent haccepted hlawful hqueue htraced hread⟩

/-- The producer of the queue with the gate. -/
def gatedProducer : Producer String :=
  ⟨(Pool.gatedConsumer [default]).config, .plain, (Pool.gatedConsumer [default]).router, [default]⟩

/-- A task is put in, and the loop goes on until it is about to call its consumer. -/
def errandMoves : List (Move String) :=
  .call gatedProducer ⟨some "parcel", .zero, some "c", none⟩ :: List.replicate 7 (.ask 0) ++
    .service .start :: List.replicate 13 (.service (.go 0))

/-- What this comes to. -/
def errand : Market String := (initial .epoch [default] []).run (Pool.gated [default]) errandMoves

set_option maxRecDepth 2000 in
/-- The market of the errand is faithful: its call has succeeded, and a consumer is called. -/
theorem faithful_errand : (Pool.gated [default]).Accepted (Pool.gatedRegistrations [default]) ∧
    Registry.Lawful (Pool.gatedRegistrations [default]) ∧
    (∃ c, errand.calls[0]? = some c ∧ c.left = .done (.ok ⟨default, 1⟩)) ∧
    (∃ f next, errand.world.fibers.get? 0 = some f ∧
      f.body.request? = some ⟨.invocation 0, next⟩) ∧
    ∃ past, Course (Pool.gated [default]) (Pool.gatedRegistrations [default]) past errand ∧
      errand.Faithful (Pool.gated [default]) past := by
  have hone : ∀ {c p}, .queue c p ∈ Pool.gatedRegistrations [default] →
      c = Pool.gatedConsumer [default] ∧ p = gatedProducer := by
    intro c p hmem
    simpa [Pool.gatedRegistrations, gatedProducer] using hmem
  have hlawful : Registry.Lawful (Pool.gatedRegistrations [default]) := by
    refine ⟨fun hmem task => ?_, fun hmem _ _ hwrite => ?_, fun hmem _ => ?_, fun hmem _ => ?_⟩
    · obtain ⟨rfl, rfl⟩ := hone hmem
      exact List.mem_singleton_self _
    · obtain ⟨rfl, rfl⟩ := hone hmem
      cases hwrite
      rfl
    · obtain ⟨rfl, rfl⟩ := hone hmem
      rfl
    · obtain ⟨rfl, rfl⟩ := hone hmem
      rfl
  have hmoves : ∀ move ∈ errandMoves, ∀ m : Market String,
      m.Allows (Pool.gatedRegistrations [default]) move := by
    intro move hmove m
    simp only [errandMoves, List.cons_append, List.mem_cons, List.mem_append,
      List.mem_replicate] at hmove
    rcases hmove with rfl | ⟨-, rfl⟩ | rfl | ⟨-, rfl⟩
    · exact ⟨_, List.mem_cons_of_mem _ List.mem_cons_self⟩
    · trivial
    · trivial
    · trivial
  obtain ⟨past, hcourse⟩ := Course.run (.initial .epoch [default] []) hmoves
  exact ⟨Pool.accepted_gated, hlawful, ⟨_, rfl, rfl⟩, ⟨_, _, rfl, rfl⟩, past, hcourse,
    enqueued_is_delivered Pool.accepted_gated hlawful hcourse⟩

end Market

end LeaseQueue
