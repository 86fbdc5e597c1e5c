import LeaseQueue.Proofs.ConsumerCalls
import LeaseQueue.Proofs.LoopPlacement
import LeaseQueue.Proofs.ProducerBooks

/-!
# Producers beside a pool

A market is a pool in service together with the calls of producers, all of them interleaved in any
way: every call asks one request at a time and may be given up at any moment, and so may whatever
the pool does.  Somebody else may work on the stores too, in transactions of their own, as long as
they put nothing in.

What a process has been told is true (`Knowledge.Sound`): the transactions that were opened for it
are not those of calls, and the rows that it may work on were put in by calls that have succeeded.
Since a process uses its own transactions only and puts nothing in, it leaves the books of the calls
in order; and since nobody else picks for it, its rows go on to be such rows.

Main statement: `Market.Course.orderly`.
-/

set_option autoImplicit false

namespace LeaseQueue

variable {α ω β : Type}

open Process

/-! ## Worlds that have gone on -/

/-- The shards are the same, and no transaction is forgotten. -/
structure World.Later (w w' : World ω β) : Prop where
  contains : ∀ s, w'.shards.contains s = w.shards.contains s
  opened : ∀ s, (w.store s).opened ≤ (w'.store s).opened

namespace World

variable {w w' : World ω β}

/-- A world with the same stores may be a later one. -/
theorem Later.of_store (hcontains : ∀ s, w'.shards.contains s = w.shards.contains s)
    (hstore : ∀ s, w'.store s = w.store s) : w.Later w' :=
  ⟨hcontains, fun s => Nat.le_of_eq (congrArg Store.opened (hstore s)).symm⟩

/-- A world may be later than itself. -/
theorem Later.refl (w : World ω β) : w.Later w := .of_store (fun _ => rfl) fun _ => rfl

/-- What is later than something later is later. -/
theorem Later.trans {w'' : World ω β} (h : w.Later w') (h' : w'.Later w'') : w.Later w'' :=
  ⟨fun s => (h'.contains s).trans (h.contains s),
    fun s => Nat.le_trans (h.opened s) (h'.opened s)⟩

/-- A world is a later one after an action on one of its stores. -/
theorem Later.acted (hs : ∀ s, (w.store s).WellFormed)
    (hcontains : ∀ s, w'.shards.contains s = w.shards.contains s) {shard : ShardId}
    {a : Store.Action} (hstore : ∀ s, w'.store s = w.acted shard a s) : w.Later w' :=
  ⟨hcontains, fun s => hstore s ▸ opened_le_acted hs shard a s⟩

/-- A world is a later one after any request. -/
theorem later_perform (hs : ∀ s, (w.store s).WellFormed) (jobProgram : ω → Process ω Unit)
    (id : FiberId) (r : Request ω) : w.Later (w.perform jobProgram id r).1 := by
  have hcontains := fun s => w.contains_perform jobProgram id r s
  have hstore := fun s => w.store_perform jobProgram id r s
  cases haction : r.action? w.clock with
  | none =>
    simp only [haction] at hstore
    exact .of_store hcontains hstore
  | some action =>
    simp only [haction] at hstore
    exact .acted hs hcontains hstore

/-- Only the stores of the abandoned transactions change when a process is taken away. -/
theorem shards_bury (w : World ω β) (id : FiberId) (f : Fiber ω β) :
    (w.bury id f).shards = (f.held.foldl abandon w).shards := by
  unfold bury
  simp only
  split <;> rfl

/-- Worlds with the same shards have the same stores. -/
theorem store_of_shards (h : w'.shards = w.shards) (s : ShardId) : w'.store s = w.store s := by
  unfold store
  rw [h]

/-- A start leaves the shards alone. -/
theorem shards_start (p : Pool α) (w : World (Job α) β) : (p.start w).1.shards = w.shards := by
  have hspec := p.start_spec w
  generalize p.start w = result at hspec
  cases hspec with
  | succeed =>
    have hloops : ∀ (planned : List (PlannedLoop α)) (w : World (Job α) β),
        (planned.foldl Pool.startLoop w).shards = w.shards := by
      intro planned
      induction planned with
      | nil => exact fun w => rfl
      | cons l rest ih => exact fun w => ih (Pool.startLoop w l)
    exact hloops _ _
  | _ => rfl

end World

namespace Books

variable {w w' : World ω β} {calls : List (ProducerCall α)}

/-- Somebody else may abandon any transactions. -/
theorem abandons (h : Books w calls) (held : List Handle) :
    Books (held.foldl World.abandon w) calls ∧ w.Later (held.foldl World.abandon w) := by
  induction held generalizing w with
  | nil => exact ⟨h, .refl w⟩
  | cons tx rest ih =>
    have hcontains : ∀ s, (w.abandon tx).shards.contains s = w.shards.contains s :=
      fun s => World.contains_setStore w tx.shard s _
    have hstore : ∀ s, (w.abandon tx).store s =
        w.acted tx.shard (.abandon tx.transaction) s :=
      fun s => World.store_setStore w tx.shard s _
    obtain ⟨hbooks, hlater⟩ := ih (h.acted hstore hcontains fun _ => trivial)
    exact ⟨hbooks, (World.Later.acted h.wellFormed hcontains hstore).trans hlater⟩

/-- A request that does no harm leaves the books in order. -/
theorem performed (h : Books w calls) (jobProgram : ω → Process ω Unit) (id : FiberId)
    {r : Request ω} (hr : ∀ {shard a}, r.action? w.clock = some (shard, a) →
      w.shards.contains shard = true → a.Harmless calls shard) :
    Books (w.perform jobProgram id r).1 calls := by
  have hcontains := fun s => w.contains_perform jobProgram id r s
  have hstore := fun s => w.store_perform jobProgram id r s
  cases haction : r.action? w.clock with
  | none =>
    simp only [haction] at hstore
    exact h.of_store hstore hcontains
  | some action =>
    simp only [haction] at hstore
    exact h.acted hstore hcontains (hr haction)

end Books

/-! ## Calls that have gone on -/

/-- No call has got an old transaction, and nothing that was put in is forgotten. -/
structure ProducerCall.Onward (w : World ω β) (calls calls' : List (ProducerCall α)) : Prop where
  foreign : ∀ {tx : Handle}, w.shards.contains tx.shard = true →
    tx.transaction ≤ (w.store tx.shard).opened → Foreign calls tx → Foreign calls' tx
  put : ∀ {s i}, Put calls s i → Put calls' s i
  kept : ∀ {i}, Kept calls i → Kept calls' i

namespace ProducerCall

variable {w w' : World ω β} {calls : List (ProducerCall α)}

/-- Calls go on from themselves. -/
theorem Onward.refl (w : World ω β) (calls : List (ProducerCall α)) : Onward w calls calls :=
  ⟨fun _ _ h => h, fun h => h, fun h => h⟩

/-- A call may always be made. -/
theorem Onward.made (w : World ω β) (calls : List (ProducerCall α)) (producer : Producer α)
    (task : Submission α) : Onward w calls (calls ++ [make producer task]) := by
  refine ⟨fun {tx} _ _ hforeign j c hc => ?_, ?_, ?_⟩
  · exact forall_made (P := fun _ c => c.tx ≠ some tx) (tx_make producer task tx)
      (fun hc => hforeign _ _ hc) hc
  · rintro s i ⟨j, c, hc, hput⟩
    exact ⟨j, c, getElem?_made hc _, hput⟩
  · rintro i ⟨j, c, receipt, hc, hput⟩
    exact ⟨j, c, receipt, getElem?_made hc _, hput⟩

/-- A call may go on in its transaction, or with a new one. -/
theorem Onward.replaced {n : Nat} {c c' : ProducerCall α} (hc : calls[n]? = some c)
    (htx : ∀ tx, c'.tx = some tx → c.tx = some tx ∨
      (w.shards.contains tx.shard = true → (w.store tx.shard).opened < tx.transaction))
    (hput : ∀ i, c.put = some i → c'.put = some i)
    (hsucceeded : ∀ receipt, c.Succeeded receipt → c'.Succeeded receipt) :
    Onward w calls (calls.set n c') where
  foreign {tx} hthere hbegun hforeign j d hd hown := by
    refine forall_replaced (P := fun _ d => d.tx ≠ some tx) hc (fun hown => ?_)
      (fun _ hd => hforeign _ _ hd) hd hown
    rcases htx tx hown with hold | hnew
    · exact hforeign n c hc hold
    · exact absurd (hnew hthere) (Nat.not_lt_of_le hbegun)
  put {s i} := by
    rintro ⟨j, d, hd, hdput, hshard⟩
    by_cases hj : j = n
    · subst hj
      cases hd.symm.trans hc
      exact (put_replaced hc).2 (.inl ⟨hput i hdput, hshard⟩)
    · exact (put_replaced hc).2 (.inr ⟨j, d, hj, hd, hdput, hshard⟩)
  kept {i} := by
    rintro ⟨j, d, receipt, hd, hdput, hdsucceeded⟩
    by_cases hj : j = n
    · subst hj
      cases hd.symm.trans hc
      exact (kept_replaced hc).2 (.inl ⟨hput i hdput, receipt, hsucceeded receipt hdsucceeded⟩)
    · exact (kept_replaced hc).2 (.inr ⟨j, d, receipt, hj, hd, hdput, hdsucceeded⟩)

end ProducerCall

/-! ## What is known -/

/-- What a process may ask that works for a queue on a shard, or for none. -/
def Processor.Allows : Option (Processor α) → Knowledge → Request (Job α) → Prop
  | some q, k, r => q.Permits k r
  | none, _, r => r.Free

/-- What is allowed to a process is free, or a processor permits it. -/
theorem Processor.Allows.free_or_permits {q? : Option (Processor α)} {k : Knowledge}
    {r : Request (Job α)} (h : Processor.Allows q? k r) :
    r.Free ∨ ∃ q : Processor α, q.Permits k r := by
  cases q? with
  | none => exact .inl h
  | some q => exact .inr ⟨q, h⟩

/-- The task of a row is one that a call has put in for the queue, and the row has been picked. -/
def Processor.Traced (q : Processor α) (calls : List (ProducerCall α)) (record : TaskRecord) : Prop :=
  1 ≤ record.attempts ∧ ∃ i, Put calls q.shard i ∧ Kept calls i ∧ i.Describes q.location record

/-- What a process knows is true: its transactions have been opened and are not those of calls, and
its rows were put in by calls that have succeeded. -/
structure Knowledge.Sound (w : World ω β) (calls : List (ProducerCall α))
    (q? : Option (Processor α)) (k : Knowledge) : Prop where
  foreign : ∀ tx ∈ k.opened, w.shards.contains tx.shard = true →
    tx.transaction ≤ (w.store tx.shard).opened ∧ Foreign calls tx
  traced : ∀ q, q? = some q → ∀ record ∈ k.picked, q.Traced calls record

namespace Knowledge

variable {w w' : World ω β} {calls calls' : List (ProducerCall α)} {q? : Option (Processor α)}
  {k : Knowledge}

/-- Whoever knows nothing knows nothing wrong. -/
theorem sound_none (w : World ω β) (calls : List (ProducerCall α)) (q? : Option (Processor α)) :
    Sound w calls q? ⟨[], []⟩ where
  foreign _ htx := absurd htx List.not_mem_nil
  traced _ _ _ hrecord := absurd hrecord List.not_mem_nil

/-- What is known rightly is so in a later world. -/
theorem Sound.later (h : Sound w calls q? k) (hw : w.Later w')
    (hcalls : ProducerCall.Onward w calls calls') : Sound w' calls' q? k where
  foreign tx htx hthere := by
    have hthere := (hw.contains tx.shard).symm.trans hthere
    obtain ⟨hbegun, hforeign⟩ := h.foreign tx htx hthere
    exact ⟨Nat.le_trans hbegun (hw.opened tx.shard), hcalls.foreign hthere hbegun hforeign⟩
  traced q hq record hrecord := by
    obtain ⟨hattempts, i, hput, hkept, hdescribes⟩ := h.traced q hq record hrecord
    exact ⟨hattempts, i, hcalls.put hput, hcalls.kept hkept, hdescribes⟩

/-- A process does no harm with what it is permitted to ask. -/
theorem Sound.harmless {w : World (Job α) β} {r : Request (Job α)} (h : Sound w calls q? k)
    (hr : Processor.Allows q? k r) {shard : ShardId} {a : Store.Action}
    (ha : r.action? w.clock = some (shard, a)) (hthere : w.shards.contains shard = true) :
    a.Harmless calls shard := by
  have hr := hr.free_or_permits
  have hown : ∀ tx : Handle, r.Free ∨ tx ∈ k.opened → ¬ r.Free → w.shards.contains tx.shard = true →
      Foreign calls tx := by
    intro tx htx hnot hthere
    exact (h.foreign tx (htx.resolve_left hnot) hthere).2
  cases r with
  | enqueue tx location task =>
    rcases hr with hfree | ⟨q, hpermits⟩
    · exact hfree.elim
    · exact hpermits.elim
  | pick tx location lease =>
    cases ha
    exact hown tx (hr.imp_right fun ⟨_, hpermits⟩ => hpermits.1) id hthere
  | delete tx location task =>
    cases ha
    exact hown tx (hr.imp_right fun ⟨_, hpermits⟩ => hpermits) id hthere
  | reenqueue tx asOf location task delay fresh =>
    cases ha
    exact hown tx (hr.imp_right fun ⟨_, hpermits⟩ => hpermits) id hthere
  | commit tx =>
    cases ha
    exact hown tx (hr.imp_right fun ⟨_, hpermits⟩ => hpermits) id hthere
  | begin => cases ha; trivial
  | rollback => cases ha; trivial
  | abandon => cases ha; trivial
  | outage => cases ha; trivial
  | _ => cases ha

/-- What a process is told is true. -/
theorem Sound.after {w w' : World (Job α) β} {jobProgram : Job α → Process (Job α) Unit}
    {id : FiberId} {r : Request (Job α)} {reply : r.Reply} (h : Sound w calls q? k)
    (hbooks : Books w calls) (hw : w.Later w')
    (hr : Processor.Allows q? k r)
    (hperform : w.perform jobProgram id r = (w', .answer reply)) :
    Sound w' calls q? (k.after ⟨r, reply⟩) := by
  have hkept : Sound w' calls q? k := h.later hw (.refl w calls)
  cases r with
  | begin shard =>
    cases reply with
    | error e => exact hkept
    | ok tx =>
      refine ⟨fun tx' htx' hthere => ?_, hkept.traced⟩
      rcases List.mem_cons.1 htx' with rfl | hold
      · obtain ⟨rfl, hopened⟩ := perform_begin_new hperform
        have hthere := (hw.contains _).symm.trans hthere
        refine ⟨?_, fun j c hc htx => ?_⟩
        · rw [hopened, if_pos hthere]
          exact Nat.le_refl _
        · exact absurd (hbooks.begun hc htx hthere) (Nat.not_succ_le_self _)
      · exact hkept.foreign tx' hold hthere
  | pick tx location lease =>
    rcases reply with e | _ | record
    · exact hkept
    · exact hkept
    · refine ⟨hkept.foreign, fun q hq record' hrecord => ?_⟩
      rcases List.mem_cons.1 hrecord with rfl | hold
      · subst hq
        obtain ⟨htx, hshard, rfl⟩ := hr
        have hanswer : ((w.store tx.shard).pick tx.transaction w.clock q.location lease).2 =
            .ok (some record') := Reply.answer.inj (congrArg Prod.snd hperform)
        have hstep := Store.perform_step (w.store tx.shard)
          (.pick tx.transaction w.clock q.location lease)
        have hpicked : ((w.store tx.shard).perform
            (.pick tx.transaction w.clock q.location lease)).2 = .picked (.ok (some record')) := by
          simp only [Store.perform, Prod.map_snd, hanswer]
        rw [hpicked] at hstep
        have hthere := World.contains_of_isOpen (perform_pick_step hbooks.wellFormed hperform).isOpen
        have hstranger := hbooks.stranger (h.foreign tx htx hthere).2
        have htraced := (hbooks.sourced tx.shard).picked (hbooks.wellFormed _) hstranger hstep
        rw [hshard] at htraced
        exact htraced
      · exact hkept.traced q hq record' hold
  | _ => exact hkept

end Knowledge

/-- A transaction that is opened for a shard is one of this shard. -/
theorem trusts_perform {w w' : World ω β} {jobProgram : ω → Process ω Unit} {id : FiberId}
    {r : Request ω} {reply : r.Reply} (h : w.perform jobProgram id r = (w', .answer reply)) :
    Standing.Trusts ⟨r, reply⟩ := by
  cases r with
  | begin shard =>
    cases reply with
    | ok tx => exact World.perform_begin_answer (congrArg Prod.snd h)
    | error e => trivial
  | _ => trivial

/-! ## What processes know -/

/-- What a process knows at its beginning. -/
def Duty.knows : Duty α → Knowledge
  | .work _ job => ⟨[], [job.record]⟩
  | _ => ⟨[], []⟩

/-- What a process knows now. -/
def Service.knows (s : Service α) (k : FiberId) (duty : Duty α) : Knowledge :=
  (s.said k).foldl Knowledge.after duty.knows

section Left

variable {p : Pool α} {duty : Duty α} {es : List (Exchange (Job α))}
  {body : Body (Job α) (Except PoolError Unit)} {r : Request (Job α)}
  {next : r.Reply → Body (Job α) (Except PoolError Unit)}

/-- A shutdown asks nothing that takes knowledge, also in its hooks. -/
theorem StopStage.free_of_request {stage : StopStage} (h : stage.request? = some r) : r.Free := by
  cases stage with
  | hooking deadline inTime x step steps rest =>
    cases h
    cases step <;> trivial
  | _ => cases h <;> trivial

/-- A process asks nothing that goes beyond its knowledge. -/
theorem Duty.Left.allows (h : duty.Left p es body) (htrusts : ∀ x ∈ es, Standing.Trusts x)
    (hbody : body.request? = some ⟨r, next⟩) :
    Processor.Allows duty.processor? (es.foldl Knowledge.after duty.knows) r := by
  cases h with
  | @loop start l es left h =>
    have hserves := l.serves_round.runs h htrusts
    cases left <;> cases hbody
    exact hserves.1
  | @work e job es left h =>
    have hserves := job.serves_work.runs h htrusts
    cases left <;> cases hbody
    exact hserves.1
  | @shutdown es left h =>
    cases left <;> cases hbody
    exact StopStage.free_of_request (Pool.request?_of_asks ⟨_, h⟩)

/-- What is left of a process is a call of a consumer with a task. -/
def Body.Hands (c : Consumer α) (task : Task α) : Body ω β → Prop
  | .operation left => left.Hands c task
  | .job _ left => left.Hands c task
  | .loop _ left => left.Hands c task

/-- A process that is about to call a consumer calls that of its queue, with the task of a row that
it knows. -/
theorem Duty.Left.delivers (h : duty.Left p es body) (htrusts : ∀ x ∈ es, Standing.Trusts x)
    {number : Nat} {next : (Request.invocation number : Request (Job α)).Reply →
      Body (Job α) (Except PoolError Unit)} (hbody : body.request? = some ⟨.invocation number, next⟩) :
    ∃ q record payload, duty.processor? = some q ∧
      record ∈ (es.foldl Knowledge.after duty.knows).picked ∧
      q.consumer.codec.read record.payload = .value payload ∧
      body.Hands q.consumer (.ofRecord q.shard payload record) := by
  cases h with
  | @loop start l es left h =>
    have hserves := l.serves_round.runs h htrusts
    cases left <;> cases hbody
    obtain ⟨record, hrecord, payload, hread, hhands⟩ := hserves.2.1 number rfl
    exact ⟨_, record, payload, rfl, hrecord, hread, hhands⟩
  | @work e job es left h =>
    have hserves := job.serves_work.runs h htrusts
    cases left <;> cases hbody
    obtain ⟨record, hrecord, payload, hread, hhands⟩ := hserves.2.1 number rfl
    exact ⟨_, record, payload, rfl, hrecord, hread, hhands⟩
  | @shutdown es left h =>
    cases left <;> cases hbody
    exact (StopStage.free_of_request (Pool.request?_of_asks ⟨_, h⟩)).elim

end Left

/-- What a process has been told is true. -/
structure Service.Informed (s : Service α) (calls : List (ProducerCall α)) (k : FiberId)
    (duty : Duty α) : Prop where
  trusts : ∀ x ∈ s.said k, Standing.Trusts x
  sound : (s.knows k duty).Sound s.world calls duty.processor?

namespace Service

variable {p : Pool α} {s s' : Service α} {calls calls' : List (ProducerCall α)}

/-- Nobody has been told anything: every process knows what it knew, or it is one that knows
nothing. -/
def Hushed (s s' : Service α) : Prop :=
  ∀ (k : FiberId) (duty : Duty α), s'.duty k = some duty →
    (s.duty k = some duty ∧ s'.said k = s.said k) ∨ (s'.said k = [] ∧ duty.knows = ⟨[], []⟩)

/-- Where everybody knows what he knew nobody has been told anything. -/
theorem hushed_of_same (hduty : s'.duty = s.duty) (hsaid : s'.said = s.said) : s.Hushed s' :=
  fun k _ hk => .inl ⟨hduty ▸ hk, congrFun hsaid k⟩

/-- What is known goes on to be true. -/
theorem Informed.later {k : FiberId} {duty : Duty α} (h : s.Informed calls k duty)
    (hsaid : s'.said k = s.said k) (hw : s.world.Later s'.world)
    (hcalls : ProducerCall.Onward s.world calls calls') : s'.Informed calls' k duty := by
  refine ⟨hsaid ▸ h.trusts, ?_⟩
  unfold knows
  rw [hsaid]
  exact h.sound.later hw hcalls

/-- As long as nobody is told anything, what everybody knows goes on to be true. -/
theorem Informed.hushed (h : ∀ {k duty}, s.duty k = some duty → s.Informed calls k duty)
    (hhushed : s.Hushed s') (hw : s.world.Later s'.world)
    (hcalls : ProducerCall.Onward s.world calls calls') {k : FiberId} {duty : Duty α}
    (hduty : s'.duty k = some duty) : s'.Informed calls' k duty := by
  rcases hhushed k duty hduty with ⟨hold, hsaid⟩ | ⟨hsaid, hnothing⟩
  · exact (h hold).later hsaid hw hcalls
  · refine ⟨fun x hx => absurd (hsaid ▸ hx) List.not_mem_nil, ?_⟩
    unfold knows
    rw [hsaid, hnothing]
    exact Knowledge.sound_none _ _ _

/-- A start tells nobody anything. -/
theorem hushed_start (h : s.Accounted p) : s.Hushed (s.start p) := by
  have hspec := p.start_spec s.world
  unfold start
  generalize p.start s.world = result at hspec
  cases hspec with
  | succeed hstatus hopen hplan =>
    intro k duty hduty
    have hduty : s.dutiesAfterStart p k = some duty := hduty
    unfold dutiesAfterStart at hduty
    split at hduty
    · exact .inl ⟨hduty, rfl⟩
    · next hk =>
      obtain ⟨l, -, rfl⟩ := Option.map_eq_some_iff.1 hduty
      exact .inr ⟨(h.fresh k (Nat.le_of_not_lt hk)).2.1, rfl⟩
  | _ => exact hushed_of_same rfl rfl

/-- A start leaves the stores as they are. -/
theorem shards_start (s : Service α) : (s.start p).world.shards = s.world.shards := by
  have hshards := World.shards_start p s.world
  unfold start
  generalize p.start s.world = result at hshards
  obtain ⟨w, outcome⟩ := result
  cases outcome <;> exact hshards

/-- The call of a shutdown tells nobody anything. -/
theorem hushed_shutdown (h : s.Accounted p) : s.Hushed (s.shutdown p) := by
  intro k duty hduty
  have hduty : Function.update s.duty s.world.nextFiber (some .shutdown) k = some duty := hduty
  rw [Function.update_apply] at hduty
  split at hduty
  · next hk =>
    cases hduty
    exact .inr ⟨(h.fresh k (Nat.le_of_eq hk.symm)).2.1, rfl⟩
  · exact .inl ⟨hduty, rfl⟩

/-- A process that comes to its end tells nobody anything. -/
theorem hushed_finish (h : s.Accounted p) {id : FiberId}
    {f : Fiber (Job α) (Except PoolError Unit)} (hf : s.world.fibers.get? id = some f) :
    s.Hushed (s.finish id f.body) := by
  obtain ⟨duty, hduty, hleft⟩ := h.left (standing_of_fiber hf)
  obtain ⟨body, held, called⟩ := f
  cases hleft with
  | @loop start l es left hruns =>
    by_cases hmore : left = .done true
    · subst hmore
      intro k duty' hk
      have hk : s.duty k = some duty' := hk
      by_cases hself : k = id
      · subst hself
        cases hduty.symm.trans hk
        exact .inr ⟨Function.update_self .., rfl⟩
      · exact .inl ⟨hk, Function.update_of_ne hself _ _⟩
    · unfold finish
      split
      · next heq =>
        cases heq
        exact absurd rfl hmore
      · exact hushed_of_same rfl rfl
      · next heq => cases heq
      · next heq => cases heq
  | work hruns => exact hushed_of_same rfl rfl
  | shutdown hruns => exact hushed_of_same rfl rfl

/-- A process that comes to its end leaves the stores as they are. -/
theorem shards_finish (s : Service α) (id : FiberId)
    (body : Body (Job α) (Except PoolError Unit)) :
    (s.finish id body).world.shards = s.world.shards := by
  unfold finish
  split <;> rfl

/-- Who goes on with an answer has been told the truth, and so has a job that was handed over. -/
theorem Informed.answered (h : ∀ {k duty}, s.duty k = some duty → s.Informed calls k duty)
    (haccounted : s.Accounted p) (hbooks : Books s.world calls) {id : FiberId} {duty : Duty α}
    (hid : s.duty id = some duty) {r : Request (Job α)} {reply : r.Reply}
    {w : World (Job α) (Except PoolError Unit)}
    (hallows : Processor.Allows duty.processor? (s.knows id duty) r)
    (hperform : s.world.perform Job.work id r = (w, .answer reply))
    (left : Body (Job α) (Except PoolError Unit)) {k : FiberId} {duty' : Duty α}
    (hk : (s.answered w id ⟨r, reply⟩ left).duty k = some duty') :
    (s.answered w id ⟨r, reply⟩ left).Informed calls k duty' := by
  have hlater : s.world.Later w := by
    have hlater := World.later_perform hbooks.wellFormed Job.work id r
    rwa [hperform] at hlater
  have hstored : w.Later (s.answered w id ⟨r, reply⟩ left).world :=
    .of_store (fun _ => rfl) fun _ => rfl
  have hself : (s.answered w id ⟨r, reply⟩ left).said id = s.said id ++ [⟨r, reply⟩] :=
    Function.update_self ..
  have hother : ∀ {k}, k ≠ id → (s.answered w id ⟨r, reply⟩ left).said k = s.said k :=
    fun hne => Function.update_of_ne hne _ _
  have hold : s.duty k = some duty' → (s.answered w id ⟨r, reply⟩ left).Informed calls k duty' := by
    intro hbefore
    by_cases hne : k = id
    · subst hne
      cases hid.symm.trans hbefore
      refine ⟨fun x hx => ?_, ?_⟩
      · rw [hself] at hx
        rcases List.mem_append.1 hx with hx | hx
        · exact (h hbefore).trusts x hx
        · cases List.mem_singleton.1 hx
          exact trusts_perform hperform
      · unfold knows
        rw [hself, List.foldl_append]
        exact ((h hbefore).sound.after hbooks hlater hallows hperform).later hstored (.refl _ _)
    · exact (h hbefore).later (hother hne) (hlater.trans hstored) (.refl _ _)
  cases r with
  | handOver e job =>
    have hk : Function.update s.duty s.world.nextFiber (some (.work e job)) k = some duty' := hk
    rw [Function.update_apply] at hk
    split at hk
    · next hnew =>
      cases hk
      have hne : k ≠ id := hnew ▸ (Nat.ne_of_lt (haccounted.fresh.lt_of_duty hid)).symm
      have hsaid : (s.answered w id ⟨.handOver e job, reply⟩ left).said k = [] :=
        (hother hne).trans (haccounted.fresh k (Nat.le_of_eq hnew.symm)).2.1
      refine ⟨fun x hx => absurd (hsaid ▸ hx) List.not_mem_nil, ?_⟩
      unfold knows
      rw [hsaid]
      refine ⟨fun tx htx => absurd htx List.not_mem_nil, fun q hq record hrecord => ?_⟩
      cases List.mem_singleton.1 hrecord
      cases hq
      cases hprocessor : duty.processor? with
      | none =>
        rw [hprocessor] at hallows
        exact hallows.elim
      | some q =>
        rw [hprocessor] at hallows
        obtain ⟨rfl, hpicked⟩ := hallows
        exact (h hid).sound.traced _ hprocessor _ hpicked
    · exact hold hk
  | _ => exact hold hk

end Service

/-! ## A pool and the calls of producers -/

/-- A pool in service, and all calls of producers that have been made. -/
structure Market (α : Type) where
  service : Service α
  calls : List (ProducerCall α)

namespace Market

/-- What can happen. -/
inductive Move (α : Type)
  /-- Something happens to the pool, or to its surroundings. -/
  | service (move : Service.Move α)
  /-- A producer is called. -/
  | call (producer : Producer α) (task : Submission α)
  /-- A call asks once. -/
  | ask (n : Nat)
  /-- A call is given up. -/
  | giveUp (n : Nat)

/-- The world of the pool, in which the calls are made. -/
def world (m : Market α) : World (Job α) (Except PoolError Unit) := m.service.world

/-- A pool that was never started and that nobody has put anything into. -/
def initial (clock : Instant) (shards : List ShardId) (limits : List Nat) : Market α :=
  ⟨.initial clock shards limits, []⟩

variable (p : Pool α)

/-- A call asks once, unless it has been given up or is over. -/
def ask (m : Market α) (n : Nat) : Market α :=
  match m.calls[n]? with
  | none => m
  | some c =>
    match c.givenUp, c.left with
    | false, .call r next =>
      match m.world.perform Job.work m.world.nextFiber r with
      | (_, .wait _) => m
      | (w, .answer reply) => {
          service := m.service.step p (.meanwhile w)
          calls := m.calls.set n (c.answered m.world.clock ⟨r, reply⟩ (next reply)) }
    | _, _ => m

/-- A call is given up wherever it is; its transaction is abandoned. -/
def giveUp (m : Market α) (n : Nat) : Market α :=
  match m.calls[n]? with
  | none => m
  | some c => {
      service := m.service.step p (.meanwhile (c.tx.toList.foldl World.abandon m.world))
      calls := m.calls.set n { c with givenUp := true } }

/-- One move. -/
def step (m : Market α) : Move α → Market α
  | .service move => { m with service := m.service.step p move }
  | .call producer task => { m with calls := m.calls ++ [.make producer task] }
  | .ask n => m.ask p n
  | .giveUp n => m.giveUp p n

/-- Moves, one after the other. -/
def run (m : Market α) : List (Move α) → Market α
  | [] => m
  | move :: rest => (m.step p move).run rest

/-- The stores are left alone, or one of them is changed by somebody else, who puts nothing in. -/
def Elsewhere (m : Market α) (w : World (Job α) (Except PoolError Unit)) : Prop :=
  (∀ s, w.shards.contains s = m.world.shards.contains s) ∧
    ((∀ s, w.store s = m.world.store s) ∨ ∃ (shard : ShardId) (a : Store.Action),
      a.Harmless m.calls shard ∧ ∀ s, w.store s = m.world.acted shard a s)

/-- Only registered producers are called, and nobody else puts anything in. -/
def Allows (rs : List (Registration α)) (m : Market α) : Move α → Prop
  | .service (.meanwhile w) => m.Elsewhere w
  | .call producer _ => ∃ consumer, .queue consumer producer ∈ rs
  | _ => True

/-- What is kept by every move. -/
structure Orderly (p : Pool α) (rs : List (Registration α)) (m : Market α) : Prop where
  reached : m.service.Reached p
  books : Books m.world m.calls
  registered : ∀ {n : Nat} {c : ProducerCall α}, m.calls[n]? = some c →
    ∃ consumer, .queue consumer c.producer ∈ rs
  informed : ∀ {k : FiberId} {duty : Duty α}, m.service.duty k = some duty →
    m.service.Informed m.calls k duty

variable {p} {rs : List (Registration α)} {m : Market α}

/-- A market in which nothing has happened is orderly. -/
theorem orderly_initial (clock : Instant) (shards : List ShardId) (limits : List Nat) :
    (initial clock shards limits : Market α).Orderly p rs := by
  have hstore : ∀ s, (initial clock shards limits : Market α).world.store s = .empty :=
    World.store_initial clock shards _
  refine ⟨⟨clock, shards, limits, [], rfl⟩, ?_, nofun, nofun⟩
  exact {
    wellFormed := fun s => by
      rw [hstore]
      exact Store.wellFormed_empty
    sourced := by
      intro s
      have hput : Put ([] : List (ProducerCall α)) s = fun _ => False :=
        funext fun i => propext ⟨fun ⟨_, _, hc, _⟩ => (nomatch hc), False.elim⟩
      rw [hstore, show (initial clock shards limits : Market α).calls = [] from rfl, hput]
      exact Store.sourced_empty
    sound := nofun
    begun := nofun
    apart := nofun
    there := nofun }

/-- A move of the service by which nobody is told anything. -/
theorem Orderly.hushed (h : m.Orderly p rs) {s : Service α} (hreached : s.Reached p)
    (hbooks : Books s.world m.calls) (hw : m.world.Later s.world) (hhushed : m.service.Hushed s) :
    ({ m with service := s } : Market α).Orderly p rs where
  reached := hreached
  books := hbooks
  registered := h.registered
  informed := Service.Informed.hushed h.informed hhushed hw (.refl _ _)

/-- A market stays orderly while its stores stay as they are and nobody is told anything. -/
theorem Orderly.same_shards (h : m.Orderly p rs) {s : Service α} (hreached : s.Reached p)
    (hshards : s.world.shards = m.world.shards) (hhushed : m.service.Hushed s) :
    ({ m with service := s } : Market α).Orderly p rs := by
  have hstore := World.store_of_shards hshards
  have hcontains : ∀ k, s.world.shards.contains k = m.world.shards.contains k :=
    fun k => congrArg (·.contains k) hshards
  exact h.hushed hreached (h.books.of_store hstore hcontains) (.of_store hcontains hstore) hhushed

/-- A market stays orderly when a process of the pool asks. -/
theorem Orderly.asked (h : m.Orderly p rs) {id : FiberId}
    {f : Fiber (Job α) (Except PoolError Unit)} (hf : m.service.world.fibers.get? id = some f)
    {r : Request (Job α)} {next : r.Reply → Body (Job α) (Except PoolError Unit)}
    (hbody : f.body.request? = some ⟨r, next⟩)
    (hreached : (m.service.ask id r next).Reached p) :
    ({ m with service := m.service.ask id r next } : Market α).Orderly p rs := by
  obtain ⟨duty, hduty, hleft⟩ := h.reached.accounted.left (Service.standing_of_fiber hf)
  have hinformed := h.informed hduty
  have hallows := hleft.allows hinformed.trusts hbody
  have hbooks : Books (m.service.world.perform Job.work id r).1 m.calls :=
    h.books.performed Job.work id fun ha hthere => hinformed.sound.harmless hallows ha hthere
  have hlater : m.world.Later (m.service.world.perform Job.work id r).1 :=
    World.later_perform h.books.wellFormed Job.work id r
  unfold Service.ask at hreached ⊢
  split at hreached
  · next w condition hwait =>
    rw [hwait] at hbooks hlater
    exact h.hushed hreached hbooks hlater (Service.hushed_of_same rfl rfl)
  · next w reply hanswer =>
    rw [hanswer] at hbooks
    refine ⟨hreached, hbooks.of_store (fun _ => rfl) fun _ => rfl, h.registered, ?_⟩
    exact Service.Informed.answered h.informed h.reached.accounted h.books hduty hallows hanswer _

/-- Whatever happens to the pool keeps all in order. -/
theorem Orderly.service (h : m.Orderly p rs) (move : Service.Move α)
    (hallows : m.Allows rs (.service move)) : (m.step p (.service move)).Orderly p rs := by
  have haccounted := h.reached.accounted
  have hreached := h.reached.run [move]
  cases move with
  | start => exact h.same_shards hreached (Service.shards_start _) (Service.hushed_start haccounted)
  | shutdown => exact h.same_shards hreached rfl (Service.hushed_shutdown haccounted)
  | go id =>
    change (m.service.go id).Reached p at hreached
    show ({ m with service := m.service.go id } : Market α).Orderly p rs
    unfold Service.go at hreached ⊢
    split at hreached
    · exact h
    · next f hf =>
      split at hreached
      · next r next hbody =>
        exact h.asked hf hbody hreached
      · next hbody =>
        exact h.same_shards hreached (Service.shards_finish _ id _)
          (Service.hushed_finish haccounted hf)
  | drop id =>
    change (m.service.drop id).Reached p at hreached
    show ({ m with service := m.service.drop id } : Market α).Orderly p rs
    unfold Service.drop at hreached ⊢
    split at hreached
    · exact h
    · next f hf =>
      split at hreached
      · next hallowed =>
        simp only [hallowed, if_true]
        have hshards := World.shards_bury m.world id f
        obtain ⟨hbooks, hlater⟩ := h.books.abandons f.held
        have hstore := World.store_of_shards hshards
        have hcontains : ∀ k, (m.world.bury id f).shards.contains k =
            (f.held.foldl World.abandon m.world).shards.contains k :=
          fun k => congrArg (·.contains k) hshards
        exact h.hushed hreached (hbooks.of_store hstore hcontains)
          (hlater.trans (.of_store hcontains hstore)) (Service.hushed_of_same rfl rfl)
      · next hnot =>
        simp only [hnot]
        exact h
  | meanwhile w =>
    obtain ⟨hcontains, hstore | ⟨shard, a, ha, hstore⟩⟩ := hallows
    · exact h.hushed hreached (h.books.of_store hstore hcontains) (.of_store hcontains hstore)
        (Service.hushed_of_same rfl rfl)
    · exact h.hushed hreached (h.books.acted hstore hcontains fun _ => ha)
        (.acted h.books.wellFormed hcontains hstore) (Service.hushed_of_same rfl rfl)

/-- The surroundings have changed by what a call does. -/
theorem Orderly.surrounded (h : m.Orderly p rs) {w : World (Job α) (Except PoolError Unit)}
    {calls : List (ProducerCall α)} (hbooks : Books w calls) (hw : m.world.Later w)
    (hcalls : ProducerCall.Onward m.world m.calls calls)
    (hregistered : ∀ {n : Nat} {c : ProducerCall α}, calls[n]? = some c →
      ∃ consumer, .queue consumer c.producer ∈ rs) :
    (⟨m.service.step p (.meanwhile w), calls⟩ : Market α).Orderly p rs := by
  have hlater : m.service.world.Later (m.service.step p (.meanwhile w)).world :=
    ⟨hw.contains, hw.opened⟩
  have hhushed : m.service.Hushed (m.service.step p (.meanwhile w)) :=
    Service.hushed_of_same rfl rfl
  exact {
    reached := h.reached.run [.meanwhile w]
    books := hbooks.of_store (fun _ => rfl) fun _ => rfl
    registered := hregistered
    informed := fun hduty => Service.Informed.hushed h.informed hhushed hlater hcalls hduty }

/-- A call that goes on is still one of a registered producer. -/
theorem Orderly.registered_set (h : m.Orderly p rs) {n : Nat} {c c' : ProducerCall α}
    (hc : m.calls[n]? = some c) (hproducer : c'.producer = c.producer) {j : Nat}
    {d : ProducerCall α} (hd : (m.calls.set n c')[j]? = some d) :
    ∃ consumer, .queue consumer d.producer ∈ rs :=
  forall_replaced (P := fun _ d => ∃ consumer, .queue consumer d.producer ∈ rs) hc
    (hproducer ▸ h.registered hc) (fun _ hd => h.registered hd) hd

/-! ## What a call does -/

/-- What a move of a call comes to. -/
inductive Asked (p : Pool α) (m : Market α) (n : Nat) : Market α → Prop
  /-- The call is not there, or it has been given up, or it is over. -/
  | idle : Asked p m n m
  | moved {c : ProducerCall α} {r : Request (Job α)}
    {next : r.Reply → Process (Job α) (Except QueueError Receipt)} {reply : r.Reply}
    {w : World (Job α) (Except PoolError Unit)} (hc : m.calls[n]? = some c)
    (hleft : c.left = .call r next)
    (hperform : m.world.perform Job.work m.world.nextFiber r = (w, .answer reply)) :
    Asked p m n ⟨m.service.step p (.meanwhile w),
      m.calls.set n (c.answered m.world.clock ⟨r, reply⟩ (next reply))⟩

/-- The turn of a call is what the rules for turns say. -/
theorem asked_ask (m : Market α) (n : Nat) : m.Asked p n (m.ask p n) := by
  unfold ask
  split
  · exact .idle
  · next c hc =>
    split
    · next r next hgiven hleft =>
      split
      · exact .idle
      · next w reply hperform => exact .moved hc hleft hperform
    · exact .idle

/-- A call that asks keeps all in order. -/
theorem Orderly.ask (h : m.Orderly p rs) (n : Nat) : (m.step p (.ask n)).Orderly p rs := by
  have hasked := m.asked_ask (p := p) n
  change Asked p m n (m.step p (.ask n)) at hasked
  generalize m.step p (.ask n) = m' at hasked
  cases hasked with
  | idle => exact h
  | @moved c r next reply w hc hleft hperform =>
    obtain ⟨hbooks, hgoes⟩ := h.books.answered hc hleft hperform
    have hlater : m.world.Later w := by
      have hlater := World.later_perform h.books.wellFormed Job.work m.world.nextFiber r
      rwa [hperform] at hlater
    refine h.surrounded hbooks hlater (.replaced hc (fun tx htx => ?_) (fun i => ?_) ?_)
      (h.registered_set hc ?_)
    · rcases ProducerCall.tx_answered htx with hold | ⟨shard, heq⟩
      · exact .inl hold
      · cases heq
        obtain ⟨rfl, -⟩ := perform_begin_new hperform
        exact .inr fun _ => Nat.lt_succ_self _
    · exact (h.books.sound hc).put_answered hleft _ _ _
    · cases hgoes with
      | quiet hrows hsucceeded => exact fun receipt => (hsucceeded receipt).2
      | lands hbefore => exact fun receipt hdone => absurd hdone (hbefore receipt)
    · exact (ProducerCall.answered_fixed _ _ _ _).1

/-- A call that was never made is not given up. -/
theorem giveUp_of_none {n : Nat} (hc : m.calls[n]? = none) : m.step p (.giveUp n) = m := by
  show m.giveUp p n = m
  unfold giveUp
  rw [hc]

/-- A call that is given up asks nothing more, and what it holds is abandoned. -/
theorem giveUp_of_some {n : Nat} {c : ProducerCall α} (hc : m.calls[n]? = some c) :
    m.step p (.giveUp n) = {
      service := m.service.step p (.meanwhile (c.tx.toList.foldl World.abandon m.world))
      calls := m.calls.set n { c with givenUp := true } } := by
  show m.giveUp p n = _
  unfold giveUp
  rw [hc]

/-- A call that is given up leaves all in order. -/
theorem Orderly.giveUp (h : m.Orderly p rs) (n : Nat) : (m.step p (.giveUp n)).Orderly p rs := by
  cases hc : m.calls[n]? with
  | none => exact (giveUp_of_none hc).symm ▸ h
  | some c =>
    rw [giveUp_of_some hc]
    obtain ⟨hbooks, hlater⟩ := h.books.abandons c.tx.toList
    refine h.surrounded ?_ hlater (.replaced hc (fun _ htx => .inl htx) (fun _ hput => hput)
      fun _ hdone => hdone) fun hd => h.registered_set hc (by rfl) hd
    exact hbooks.replaced hc rfl .rfl (hbooks.sound hc).giveUp fun _ htx => .inl htx

/-- A market stays orderly when a registered producer is called. -/
theorem Orderly.call (h : m.Orderly p rs) {producer : Producer α} {task : Submission α}
    (hregistered : ∃ consumer, .queue consumer producer ∈ rs) :
    (m.step p (.call producer task)).Orderly p rs where
  reached := h.reached
  books := h.books.made producer task
  registered := forall_made (P := fun _ c => ∃ consumer, .queue consumer c.producer ∈ rs)
    hregistered h.registered
  informed hduty := (h.informed hduty).later rfl (.refl _) (.made _ _ producer task)

/-- Every move keeps all in order. -/
theorem Orderly.step (h : m.Orderly p rs) {move : Move α} (hallows : m.Allows rs move) :
    (m.step p move).Orderly p rs := by
  cases move with
  | service move => exact h.service move hallows
  | call producer task => exact h.call hallows
  | ask n => exact h.ask n
  | giveUp n => exact h.giveUp n

/-! ## Courses -/

/-- A market has come to this, and these were the moves, each with what was there before it. -/
inductive Course (p : Pool α) (rs : List (Registration α)) :
    List (Market α × Move α) → Market α → Prop
  | initial (clock : Instant) (shards : List ShardId) (limits : List Nat) :
    Course p rs [] (.initial clock shards limits)
  | step {past : List (Market α × Move α)} {m : Market α} {move : Move α} (h : Course p rs past m)
    (hallows : m.Allows rs move) : Course p rs (past ++ [(m, move)]) (m.step p move)

/-- Wherever a market has come to, all is in order. -/
theorem Course.orderly {past : List (Market α × Move α)} (h : Course p rs past m) :
    m.Orderly p rs := by
  induction h with
  | initial clock shards limits => exact orderly_initial clock shards limits
  | step _ hallows ih => exact ih.step hallows

/-- A course goes on with moves that are allowed anywhere. -/
theorem Course.run {past : List (Market α × Move α)} (h : Course p rs past m)
    {moves : List (Move α)} (hmoves : ∀ move ∈ moves, ∀ m : Market α, m.Allows rs move) :
    ∃ past', Course p rs past' (m.run p moves) := by
  induction moves generalizing past m with
  | nil => exact ⟨past, h⟩
  | cons move rest ih =>
    exact ih (h.step (hmoves move List.mem_cons_self m)) fun move' hmove =>
      hmoves move' (List.mem_cons_of_mem _ hmove)

end Market

end LeaseQueue
