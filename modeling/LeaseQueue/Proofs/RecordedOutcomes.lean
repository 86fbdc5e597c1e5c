import LeaseQueue.Proofs.BoundaryAgreement
import LeaseQueue.Proofs.CompletedRuns
import LeaseQueue.Proofs.OutcomeWrites
import LeaseQueue.Proofs.PickTraces

/-!
# What the recording of an outcome does to the rows

A verdict is recorded in a given transaction, where its change is seen at once, or in a transaction
of its own, where it is seen once that is committed (`rowView`).  In both cases the recording fails
and no row changes, or it succeeds and exactly one deal changes exactly one row: the row is deleted
or rescheduled as it was found, and nothing happens if the queue has no such row
(`Outcome.TakesEffect`).  Others use the stores meanwhile.
-/

set_option autoImplicit false

namespace LeaseQueue

variable {ω β : Type}

/-! ## What a deal does to the rows -/

/-- A deal leaves every row of every store as it was. -/
def Deal.Keeps (view : Store → TaskId → Option (Location × TaskRecord)) (d : Deal ω β) : Prop :=
  ∀ s id, view (d.after.store s) id = view (d.before.store s) id

/-- What is seen of the rows of a store by those who have given a transaction: what the rows are
now; without one what is committed. -/
def rowView (tx : Option Handle) : Store → TaskId → Option (Location × TaskRecord) :=
  match tx with
  | some _ => Store.content
  | none => Store.committed

/-- A deal came about in a world with well-formed stores. -/
structure Deal.Sound (jobProgram : ω → Process ω Unit) (id : FiberId) (d : Deal ω β) : Prop where
  wellFormed : ∀ s, (d.before.store s).WellFormed
  performed : d.before.perform jobProgram id d.exchange.1 = (d.after, .answer d.exchange.2)

/-- The commit of a transaction, answered. -/
def Exchange.commits (x : Exchange ω) : Prop := ∃ tx, x = ⟨.commit tx, .ok ()⟩

namespace Deal

variable {jobProgram : ω → Process ω Unit} {id : FiberId} {d : Deal ω β}

/-- A request changes only the store of its action, and as the action does. -/
theorem Sound.store (h : d.Sound jobProgram id) (s : ShardId) :
    d.after.store s = match d.exchange.1.action? d.before.clock with
      | none => d.before.store s
      | some (shard, a) => d.before.acted shard a s := by
  have hstore := d.before.store_perform jobProgram id d.exchange.1 s
  rw [h.performed] at hstore
  exact hstore

/-- Nothing but a pick or a commit changes what is committed. -/
theorem Sound.keeps_committed (h : d.Sound jobProgram id)
    (hpick : ∀ tx location lease, d.exchange.1 ≠ .pick tx location lease)
    (hcommit : ¬ d.exchange.commits) : d.Keeps Store.committed := by
  obtain ⟨before, ⟨r, reply⟩, after⟩ := d
  intro s k
  by_cases hr : ∃ tx, r = .commit tx
  · obtain ⟨tx, rfl⟩ := hr
    cases reply with
    | ok u => exact absurd ⟨tx, rfl⟩ hcommit
    | error e => exact World.committed_commit_error h.wellFormed h.performed s k
  · have hsame := World.committed_perform jobProgram id h.wellFormed hpick
      (fun tx heq => hr ⟨tx, heq⟩) s k
    have hperformed : before.perform jobProgram id r = (after, .answer reply) := h.performed
    rwa [hperformed] at hsame

/-- What acts in no transaction changes no row. -/
theorem Sound.keeps_of_aloof (h : d.Sound jobProgram id) (haloof : d.exchange.1.Aloof)
    (tx : Option Handle) : d.Keeps (rowView tx) := by
  have hrows : d.Keeps Store.content := by
    intro s k
    rw [h.store]
    cases haction : d.exchange.1.action? d.before.clock with
    | none => rfl
    | some action =>
      obtain ⟨shard, a⟩ := action
      obtain ⟨on, rfl⟩ := haloof _ _ _ haction
      simp only [World.acted]
      split
      · next hthere =>
        rw [hthere.1]
        rfl
      · rfl
  cases tx with
  | some tx => exact hrows
  | none =>
    refine h.keeps_committed ?_ ?_
    · intro tx location lease heq
      rw [heq] at haloof
      obtain ⟨on, hsame⟩ := haloof .epoch _ _ rfl
      cases hsame
    · rintro ⟨tx, heq⟩
      rw [heq] at haloof
      obtain ⟨on, hsame⟩ := haloof .epoch _ _ rfl
      cases hsame

end Deal

/-! ## The write of an outcome -/

/-- What an outcome makes of a task, if the end of its delay exists. -/
inductive Outcome.Writes (now : Instant) (location : Location) (record : TaskRecord) :
    Outcome → Option (Location × TaskRecord) → Prop
  | delete : Writes now location record .delete none
  | reschedule {delay : Duration} {fresh : Bool} {t : Instant}
    (hdeadline : Store.deadline now delay = .ok t) :
    Writes now location record (.reschedule delay fresh) (some (location,
      { record with processTime := t, attempts := if fresh then 0 else record.attempts }))

namespace Store

/-- The action of a store that writes an outcome to a row of a queue. -/
inductive WritesOutcome (tx : TransactionId) (location : Location) (id : TaskId) (asOf : Instant) :
    Outcome → Action → Prop
  | delete : WritesOutcome tx location id asOf .delete (.delete tx location id)
  | reschedule {delay : Duration} {fresh : Bool} :
    WritesOutcome tx location id asOf (.reschedule delay fresh)
      (.reenqueue tx asOf location id delay fresh)

variable {s s' : Store} {tx : TransactionId} {location : Location} {id : TaskId} {asOf : Instant}
  {outcome : Outcome} {a : Action}

/-- An action that writes an outcome is one of the writes of the task. -/
theorem WritesOutcome.writes (h : WritesOutcome tx location id asOf outcome a) :
    Writes tx location id a := by
  cases h with
  | delete => exact .delete
  | reschedule => exact .reenqueue

/-- What an outcome write has done to the row that it has found. -/
structure Rewritten (s s' : Store) (tx : TransactionId) (location : Location) (id : TaskId)
    (outcome : Outcome) (asOf : Instant) (before : TaskRecord)
    (new : Option (Location × TaskRecord)) : Prop where
  found : s.content id = some (location, before)
  writes : outcome.Writes asOf location before new
  isOpen : s.isOpen tx = true
  touch : ∃ u, Touch s tx id (some u) s'
  written : s'.content id = new

/-- A row to which access is granted is there, with its content. -/
theorem content_of_access_granted {row : Row} (h : s.access tx location id = .granted row) :
    s.content id = some (location, row.record) := by
  obtain ⟨hrow, hlocation, -⟩ := of_access_granted h
  unfold content
  rw [hrow, ← hlocation]
  rfl

/-- A row that is found is rewritten. -/
theorem WritesOutcome.rewritten (h : WritesOutcome tx location id asOf outcome a)
    (hs : s.WellFormed) (hstep : Step s a (.written (some (.ok true))) s') :
    ∃ before new, Rewritten s s' tx location id outcome asOf before new := by
  cases h with
  | delete =>
    cases hstep with
    | idle hidle => cases hidle
    | @deleted _ _ _ row isOpen haccess =>
      obtain ⟨hrow, -, hfree⟩ := of_access_granted haccess
      refine ⟨row.record, none, content_of_access_granted haccess, .delete, isOpen,
        ⟨_, touch_deleted hs isOpen hrow hfree⟩, ?_⟩
      rw [content_note]
      unfold content
      rw [OrderedMap.get?_erase, if_pos rfl]
      rfl
  | reschedule =>
    cases hstep with
    | idle hidle => cases hidle
    | @reenqueued _ _ processTime _ _ _ _ row isOpen hdeadline haccess =>
      obtain ⟨hrow, hlocation, hfree⟩ := of_access_granted haccess
      refine ⟨row.record, _, content_of_access_granted haccess, .reschedule hdeadline, isOpen,
        ⟨_, touch_rewritten hs isOpen hrow hfree rfl rfl rfl⟩, ?_⟩
      rw [content_note, content_insert, if_pos rfl, ← hlocation]
      rfl

/-- An outcome write that has found no row, or has failed, has changed nothing. -/
theorem WritesOutcome.unchanged (h : WritesOutcome tx location id asOf outcome a)
    {answer : Except StoreError Bool} (hanswer : answer ≠ .ok true)
    (hstep : Step s a (.written (some answer)) s') : s' = s := by
  cases h with
  | delete =>
    cases hstep with
    | idle => rfl
    | deleted => exact absurd rfl hanswer
  | reschedule =>
    cases hstep with
    | idle => rfl
    | reenqueued => exact absurd rfl hanswer

/-- An outcome write that has found no row is one of an open transaction. -/
theorem WritesOutcome.missing (h : WritesOutcome tx location id asOf outcome a)
    (hanswer : (s.perform a).2 = .written (some (.ok false))) (record : TaskRecord) :
    s.content id ≠ some (location, record) := by
  have hopen : s.isOpen tx = true := by
    by_contra hclosed
    cases h with
    | delete => simp [perform, Store.delete, hclosed] at hanswer
    | reschedule => simp [perform, Store.reenqueue, hclosed] at hanswer
  exact content_of_access_missing ((h.writes.answer hopen).2.1 hanswer) record

end Store

/-- An outcome is written to a row of a queue in a transaction; the answer is whether there is such
a row. -/
inductive Outcome.Asked (tx : Handle) (location : Location) (id : TaskId) (asOf : Instant) :
    Outcome → Except StoreError Bool → Exchange ω → Prop
  | delete {answer : Except StoreError Bool} :
    Asked tx location id asOf .delete answer ⟨.delete tx location id, answer⟩
  | reschedule {delay : Duration} {fresh : Bool} {answer : Except StoreError Bool} :
    Asked tx location id asOf (.reschedule delay fresh) answer
      ⟨.reenqueue tx asOf location id delay fresh, answer⟩

namespace Deal

variable {jobProgram : ω → Process ω Unit} {fiber : FiberId} {d : Deal ω β} {tx : Handle}
  {location : Location} {id : TaskId} {outcome : Outcome} {asOf : Instant}

/-- An answer of a call that may wait is the answer of the store. -/
theorem answer_inStoreWaiting {w w' : World ω β} {γ : Type} {tx : Handle}
    {act : Store → TransactionId → Store × Option (Except StoreError γ)} {answer : Except StoreError γ}
    (h : w.inStoreWaiting tx act = (w', .answer answer)) :
    (act (w.store tx.shard) tx.transaction).2 = some answer := by
  unfold World.inStoreWaiting at h
  split at h
  · next store answer' hact =>
    cases h
    rw [hact]
  · cases h

/-- An outcome write is one action, and its answer that of the action. -/
theorem Sound.written (h : d.Sound jobProgram fiber) {answer : Except StoreError Bool}
    (hasked : outcome.Asked tx location id asOf answer d.exchange) :
    ∃ a, Store.WritesOutcome tx.transaction location id asOf outcome a ∧
      ((d.before.store tx.shard).perform a).2 = .written (some answer) ∧
      ∀ s, d.after.store s = d.before.acted tx.shard a s := by
  obtain ⟨before, exchange, after⟩ := d
  have hstore := fun s => h.store s
  have hperformed := h.performed
  cases hasked with
  | delete =>
    have hwaiting : before.inStoreWaiting tx (fun s t => s.delete t location id) =
        (after, .answer answer) := hperformed
    refine ⟨.delete tx.transaction location id, .delete, ?_, hstore⟩
    simp only [Store.perform, Prod.map_snd, answer_inStoreWaiting hwaiting]
  | @reschedule delay fresh =>
    have hwaiting : before.inStoreWaiting tx
        (fun s t => s.reenqueue t asOf location id delay fresh) = (after, .answer answer) := hperformed
    refine ⟨.reenqueue tx.transaction asOf location id delay fresh, .reschedule, ?_, hstore⟩
    simp only [Store.perform, Prod.map_snd, answer_inStoreWaiting hwaiting]

/-- A row that is found is rewritten, and nothing else. -/
theorem Sound.rewritten (h : d.Sound jobProgram fiber)
    (hasked : outcome.Asked tx location id asOf (.ok true) d.exchange) :
    (∃ before new, Store.Rewritten (d.before.store tx.shard) (d.after.store tx.shard) tx.transaction
      location id outcome asOf before new) ∧
    ∀ s, s ≠ tx.shard → d.after.store s = d.before.store s := by
  obtain ⟨a, hwrites, hanswer, hstore⟩ := h.written hasked
  have hstep := Store.perform_step (d.before.store tx.shard) a
  rw [hanswer] at hstep
  obtain ⟨before, new, hrewritten⟩ := hwrites.rewritten (h.wellFormed _) hstep
  have hhome : d.after.store tx.shard = ((d.before.store tx.shard).perform a).1 := by
    rw [hstore, World.acted, if_pos ⟨rfl, World.contains_of_isOpen hrewritten.isOpen⟩]
  refine ⟨⟨before, new, ?_⟩, fun s hs => ?_⟩
  · rw [hhome]
    exact hrewritten
  · rw [hstore, World.acted, if_neg fun hthere => hs hthere.1]

/-- Otherwise nothing changes. -/
theorem Sound.unchanged (h : d.Sound jobProgram fiber) {answer : Except StoreError Bool}
    (hasked : outcome.Asked tx location id asOf answer d.exchange) (hanswer : answer ≠ .ok true)
    (s : ShardId) : d.after.store s = d.before.store s := by
  obtain ⟨a, hwrites, hwritten, hstore⟩ := h.written hasked
  rw [hstore, World.acted]
  split
  · next hthere =>
    rw [hthere.1]
    have hstep := Store.perform_step (d.before.store tx.shard) a
    rw [hwritten] at hstep
    exact hwrites.unchanged hanswer hstep
  · rfl

/-- What is written is not committed yet. -/
theorem Sound.keeps_of_asked (h : d.Sound jobProgram fiber) {answer : Except StoreError Bool}
    (hasked : outcome.Asked tx location id asOf answer d.exchange) : d.Keeps Store.committed := by
  refine h.keeps_committed (fun tx' location' lease heq => ?_) ?_
  · generalize d.exchange = x at hasked heq
    cases hasked <;> cases heq
  · rintro ⟨tx', heq⟩
    generalize d.exchange = x at hasked heq
    cases hasked <;> cases heq

/-- A write that was answered with no has found no row of the task. -/
theorem Sound.missing (h : d.Sound jobProgram fiber)
    (hasked : outcome.Asked tx location id asOf (.ok false) d.exchange) (record : TaskRecord) :
    (d.before.store tx.shard).content id ≠ some (location, record) := by
  obtain ⟨a, hwrites, hanswer, -⟩ := h.written hasked
  exact hwrites.missing hanswer record

end Deal

/-! ## The commit of a written outcome -/

namespace Deal

variable {jobProgram : ω → Process ω Unit} {fiber : FiberId} {d : Deal ω β} {tx : Handle}
  {location : Location} {id : TaskId} {outcome : Outcome} {asOf : Instant}

/-- A commit makes the rows of its transaction committed as they are. -/
theorem Sound.committed (h : d.Sound jobProgram fiber) (hd : d.exchange = ⟨.commit tx, .ok ()⟩)
    (s : ShardId) (k : TaskId) : (d.after.store s).committed k =
      if s = tx.shard ∧ k ∈ (d.before.store tx.shard).touched tx.transaction
        then (d.before.store tx.shard).content k else (d.before.store s).committed k := by
  obtain ⟨before, exchange, after⟩ := d
  cases hd
  have hstore : after.store s = before.acted tx.shard (.commit tx.transaction) s := h.store s
  have hperformed : before.perform jobProgram fiber (.commit tx) = (after, .answer (.ok ())) :=
    h.performed
  have hopen := Store.isOpen_of_ended (World.perform_commit_answer (congrArg Prod.snd hperformed))
  simp only
  rw [hstore, World.acted]
  by_cases hs : s = tx.shard
  · subst hs
    rw [if_pos ⟨rfl, World.contains_of_isOpen hopen⟩, Store.perform_commit hopen]
    rw [(Store.ended_release (h.wellFormed _) hopen).committed_eq (h.wellFormed _),
      Store.content_release]
    simp
  · rw [if_neg fun hthere => hs hthere.1, if_neg fun hthere => hs hthere.1]

/-- A commit that fails commits nothing. -/
theorem Sound.keeps_of_commit_error (h : d.Sound jobProgram fiber) {e : StoreError}
    (hd : d.exchange = ⟨.commit tx, .error e⟩) : d.Keeps Store.committed := by
  refine h.keeps_committed (fun tx' location lease heq => ?_) ?_
  · rw [hd] at heq
    cases heq
  · rintro ⟨tx', heq⟩
    rw [hd] at heq
    cases heq

/-- What has been written as the only change of a transaction is committed as it was written. -/
theorem Sound.commits_rewritten {dw dc : Deal ω β} (hw : dw.Sound jobProgram fiber)
    (hc : dc.Sound jobProgram fiber)
    (hasked : outcome.Asked tx location id asOf (.ok true) dw.exchange)
    (hblank : (dw.before.store tx.shard).journal tx.transaction = [])
    (hbetween : Store.Sheltered (dw.after.store tx.shard) (dc.before.store tx.shard) tx.transaction)
    (hdc : dc.exchange = ⟨.commit tx, .ok ()⟩) :
    ∃ before new, outcome.Writes asOf location before new ∧
      (dc.before.store tx.shard).committed id = some (location, before) ∧
      ∀ s k, (dc.after.store s).committed k =
        if s = tx.shard ∧ k = id then new else (dc.before.store s).committed k := by
  obtain ⟨⟨before, new, hrewritten⟩, -⟩ := hw.rewritten hasked
  obtain ⟨u, htouch⟩ := hrewritten.touch
  have hafter := (hw.wellFormed tx.shard).touch htouch
  have hjournal : (dw.after.store tx.shard).journal tx.transaction = [u] := by
    rw [htouch.journal, if_pos rfl, hblank]
    rfl
  have htouched : ∀ k, k ∈ (dc.before.store tx.shard).touched tx.transaction ↔ k = id := by
    intro k
    unfold Store.touched
    rw [hbetween.undisturbed.journal, hjournal]
    simp [htouch.noted_id rfl]
  have hid : id ∈ (dw.after.store tx.shard).touched tx.transaction := by
    unfold Store.touched
    rw [hjournal]
    simp [htouch.noted_id rfl]
  have hcommitted : (dc.before.store tx.shard).committed id = some (location, before) := by
    rw [hbetween.committed hafter (hc.wellFormed _) hid, hafter.committed_of_touched hid]
    have hentries : (dw.after.store tx.shard).entries tx.transaction id = [u] := by
      unfold Store.entries
      rw [hjournal]
      simp [htouch.noted_id rfl]
    unfold Store.restored
    rw [hentries, List.foldl_cons, List.foldl_nil, (htouch.explains rfl).revert, hrewritten.found]
  refine ⟨before, new, hrewritten.writes, hcommitted, fun s k => ?_⟩
  rw [hc.committed hdc]
  simp only [htouched]
  split
  · next hthere => rw [hthere.2, hbetween.content hid, hrewritten.written]
  · rfl

/-- The commit of a transaction that has found nothing to write changes nothing. -/
theorem Sound.commits_nothing {dw dc : Deal ω β} (hw : dw.Sound jobProgram fiber)
    (hc : dc.Sound jobProgram fiber)
    (hasked : outcome.Asked tx location id asOf (.ok false) dw.exchange)
    (hblank : (dw.before.store tx.shard).journal tx.transaction = [])
    (hbetween : Store.Sheltered (dw.after.store tx.shard) (dc.before.store tx.shard) tx.transaction)
    (hdc : dc.exchange = ⟨.commit tx, .ok ()⟩) : dc.Keeps Store.committed := by
  intro s k
  have htouched : (dc.before.store tx.shard).touched tx.transaction = [] := by
    unfold Store.touched
    rw [hbetween.undisturbed.journal, hw.unchanged hasked (fun heq => by cases heq), hblank]
    rfl
  rw [hc.committed hdc, htouched, if_neg fun hthere => absurd hthere.2 List.not_mem_nil]

end Deal

/-! ## Taking effect -/

/-- What an outcome has made of a row, seen in one way, by the end of some deals: it changes
nothing, or finds no row, or exactly one deal changes exactly one row, as the outcome says. -/
inductive Outcome.TakesEffect (view : Store → TaskId → Option (Location × TaskRecord))
    (home : ShardId) (location : Location) (id : TaskId) : Outcome → List (Deal ω β) → Prop
  | keep {t : List (Deal ω β)} (hkeeps : ∀ d ∈ t, d.Keeps view) :
    TakesEffect view home location id .keep t
  | missing {outcome : Outcome} {t : List (Deal ω β)} {d : Deal ω β} {tx : Handle} {asOf : Instant}
    (hd : d ∈ t) (hasked : outcome.Asked tx location id asOf (.ok false) d.exchange)
    (hmissing : ∀ record, (d.before.store home).content id ≠ some (location, record))
    (hkeeps : ∀ d ∈ t, d.Keeps view) : TakesEffect view home location id outcome t
  | written {outcome : Outcome} {xs ys : List (Deal ω β)} {d : Deal ω β} {asOf : Instant}
    {before : TaskRecord} {new : Option (Location × TaskRecord)}
    (hasOf : ∀ delay fresh, outcome = .reschedule delay fresh → ∃ x ∈ xs, x.exchange = ⟨.now, asOf⟩)
    (hwrites : outcome.Writes asOf location before new)
    (hbefore : view (d.before.store home) id = some (location, before))
    (hafter : ∀ s k, view (d.after.store s) k =
      if s = home ∧ k = id then new else view (d.before.store s) k)
    (hkeeps : ∀ x ∈ xs ++ ys, x.Keeps view) : TakesEffect view home location id outcome (xs ++ d :: ys)

/-- What comes before and after without changing a row does not matter. -/
theorem Outcome.TakesEffect.amid {view : Store → TaskId → Option (Location × TaskRecord)}
    {home : ShardId} {location : Location} {id : TaskId} {outcome : Outcome} {t : List (Deal ω β)}
    (h : outcome.TakesEffect view home location id t) {xs ys : List (Deal ω β)}
    (hxs : ∀ d ∈ xs, d.Keeps view) (hys : ∀ d ∈ ys, d.Keeps view) :
    outcome.TakesEffect view home location id (xs ++ t ++ ys) := by
  have hall : (∀ d ∈ t, d.Keeps view) → ∀ d ∈ xs ++ t ++ ys, d.Keeps view := by
    intro ht d hd
    rcases List.mem_append.1 hd with hd | hd
    · rcases List.mem_append.1 hd with hd | hd
      · exact hxs d hd
      · exact ht d hd
    · exact hys d hd
  cases h with
  | keep hkeeps => exact .keep (hall hkeeps)
  | missing hd hasked hmissing hkeeps =>
    exact .missing (List.mem_append_left _ (List.mem_append_right _ hd)) hasked hmissing (hall hkeeps)
  | @written _ as bs d asOf before new hasOf hwrites hbefore hafter hkeeps =>
    rw [show xs ++ (as ++ d :: bs) ++ ys = (xs ++ as) ++ d :: (bs ++ ys) by simp]
    refine .written (fun delay fresh heq => ?_) hwrites hbefore hafter fun x hx => ?_
    · obtain ⟨x, hx, hread⟩ := hasOf delay fresh heq
      exact ⟨x, List.mem_append_right _ hx, hread⟩
    · simp only [List.mem_append] at hx
      rcases hx with (hx | hx) | hx | hx
      · exact hxs x hx
      · exact hkeeps x (List.mem_append_left _ hx)
      · exact hkeeps x (List.mem_append_right _ hx)
      · exact hys x hx

/-! ## Writing in a transaction -/

open Process

/-- A probe touches no transaction. -/
theorem Session.aloof_probe (shard : ShardId) (point : StorePoint) :
    (Session.probe shard point : Action ω StoreError Unit).run.Only Request.Aloof :=
  only_ask (Request.aloof_of_action? fun _ => rfl)

/-- Reading the clock touches no transaction. -/
theorem Session.aloof_now {ε : Type} : (Session.now : Action ω ε Instant).run.Only Request.Aloof :=
  only_lift (only_ask (Request.aloof_of_action? fun _ => rfl))

section Completed

variable {jobProgram : ω → Process ω Unit} {fiber : FiberId} {own : List Handle} {home : ShardId}
  {w w' : World ω β} {t : List (Deal ω β)}

/-- The clock can always be read. -/
theorem Session.completes_now {ε : Type} {o : Except Panic (Except ε Instant)}
    (h : Completes jobProgram fiber own (Session.now : Action ω ε Instant).run w t o w') :
    ∃ asOf, o = .ok (.ok asOf) ∧ ∃ d ∈ t, d.exchange = ⟨.now, asOf⟩ := by
  obtain ⟨o', rfl, hask⟩ := completes_lift h
  obtain ⟨w₁, reply, w₂, -, -, rfl, rfl, -⟩ := completes_ask hask
  exact ⟨reply, rfl, _, List.mem_cons_self, rfl⟩

/-- An operation may have been made to fail, but it does not panic. -/
theorem Session.completes_probe {shard : ShardId} {point : StorePoint}
    {o : Except Panic (Except StoreError Unit)}
    (h : Completes jobProgram fiber own (Session.probe shard point : Action ω _ _).run w t o w') :
    ∃ answer, o = .ok answer := by
  obtain ⟨_, answer, _, -, -, -, rfl, -⟩ := completes_ask h
  exact ⟨answer, rfl⟩

/-- An outcome has been asked for in the last of some deals. -/
structure Outcome.Applied (own : List Handle) (tx : Handle) (location : Location)
    (id : TaskId) (outcome : Outcome) (w : World ω β) (asOf : Instant)
    (answer : Except StoreError Bool) (xs : List (Deal ω β)) (d : Deal ω β) (w' : World ω β) :
    Prop where
  aloof : ∀ x ∈ xs, x.exchange.1.Aloof
  reading : ∀ delay fresh, outcome = .reschedule delay fresh → ∃ x ∈ xs, x.exchange = ⟨.now, asOf⟩
  asked : outcome.Asked tx location id asOf answer d.exchange
  before : w.Spared own d.before
  after : d.after.Spared own w'

/-- A request that opens nothing, between what others do. -/
theorem completes_request {r : Request ω} {o : Except Panic r.Reply} (hfit : w.Fit home own)
    (h : Completes jobProgram fiber own (ask r) w t o w') (hopens : r.OpensAt home)
    (hopened : ∀ reply, Exchange.opened? ⟨r, reply⟩ = none) :
    ∃ d reply, t = [d] ∧ d.exchange = ⟨r, reply⟩ ∧ o = .ok reply ∧ w.Spared own d.before ∧
      d.after.Spared own w' := by
  obtain ⟨w₁, reply, w₂, hbefore, hanswer, rfl, rfl, hafter⟩ := completes_ask h
  have hfit₂ := (hfit.elsewhere hbefore).perform hopens hanswer
  rw [hopened reply] at hafter hfit₂
  exact ⟨_, reply, rfl, rfl, rfl, hbefore.spared hfit, hafter.spared hfit₂⟩

/-- Only whether the operation has failed matters. -/
theorem completes_ignoring {op : Action ω StoreError Bool} {o : Except Panic (Except QueueError Unit)}
    (h : Completes jobProgram fiber own (storing op >>= fun _ => pure ()).run w t o w') :
    ∃ o', o = o'.map (fun answer => (answer.mapError QueueError.store).map fun _ => ()) ∧
      Completes jobProgram fiber own op.run w t o' w' := by
  have hrun : (storing op >>= fun _ => pure () : Action ω QueueError Unit).run =
      op.run.bind fun answer => .done ((answer.mapError QueueError.store).map fun _ => ()) := by
    rw [run_bind]
    refine (bind_assoc op.run _ _).trans (congrArg op.run.bind (funext fun answer => ?_))
    cases answer <;> rfl
  rw [hrun] at h
  exact completes_map h

/-- An outcome is asked for in the last deal, unless the operation was made to fail. -/
theorem completes_apply {r : Recorder} {tx : Handle} {id : TaskId} {outcome : Outcome}
    {o : Except Panic (Except QueueError Unit)} (hkeep : outcome ≠ .keep) (hfit : w.Fit home own)
    (h : Completes jobProgram fiber own (r.apply tx id outcome : Action ω QueueError Unit).run w t o
      w') :
    ((∃ e, o = .ok (.error e)) ∧ ∀ d ∈ t, d.exchange.1.Aloof) ∨
    ∃ asOf answer xs d, t = xs ++ [d] ∧ outcome.Applied own tx r.location id w asOf answer xs d w' ∧
      o = .ok ((answer.mapError QueueError.store).map fun _ => ()) := by
  have hfails : ∀ {op : StorePoint} {o' : Except Panic (Except StoreError Bool)},
      ((∃ e, o' = .ok (.error e) ∧ Completes jobProgram fiber own
          (Session.probe tx.shard op : Action ω _ _).run w t (.ok (.error e)) w') ∨
        ∃ cause, o' = .error cause ∧ Completes jobProgram fiber own
          (Session.probe tx.shard op : Action ω _ _).run w t (.error cause) w') →
      ∃ e, o'.map (fun answer => (answer.mapError QueueError.store).map fun _ => ()) =
        .ok (.error e) := by
    rintro op o' (⟨e, rfl, -⟩ | ⟨cause, rfl, hprobe⟩)
    · exact ⟨_, rfl⟩
    · obtain ⟨_, heq⟩ := Session.completes_probe hprobe
      cases heq
  cases outcome with
  | keep => exact absurd rfl hkeep
  | delete =>
    obtain ⟨o', rfl, hop⟩ := completes_ignoring h
    rcases completes_aloof_bind (Session.aloof_probe _ _) hfit hop with
      ⟨_, xs, ys, w₁, rfl, hxs, -, hfit₁, hspared, hrest⟩ | ⟨hdeals, hends⟩
    · obtain ⟨d, answer, rfl, hd, rfl, hbefore, hafter⟩ :=
        completes_request hfit₁ hrest trivial fun _ => rfl
      refine .inr ⟨.epoch, answer, xs, d, rfl, ⟨hxs, fun _ _ heq => ?_, ?_, hspared.trans hbefore,
        hafter⟩, rfl⟩
      · cases heq
      · rw [hd]
        exact .delete
    · exact .inl ⟨hfails hends, hdeals⟩
  | reschedule delay fresh =>
    obtain ⟨o', rfl, hop⟩ := completes_ignoring h
    rcases completes_aloof_bind (Session.aloof_probe _ _) hfit hop with
      ⟨_, xs, ys, w₁, rfl, hxs, -, hfit₁, hspared, hrest⟩ | ⟨hdeals, hends⟩
    · rcases completes_aloof_bind Session.aloof_now hfit₁ hrest with
        ⟨asOf, xs', ys', w₂, rfl, hxs', hnow, hfit₂, hspared', hrest'⟩ | ⟨-, hends⟩
      · obtain ⟨d, answer, rfl, hd, rfl, hbefore, hafter⟩ :=
          completes_request hfit₂ hrest' trivial fun _ => rfl
        refine .inr ⟨asOf, answer, xs ++ xs', d, (List.append_assoc _ _ _).symm, ⟨fun x hx => ?_,
          fun _ _ _ => ?_, ?_, hspared.trans (hspared'.trans hbefore), hafter⟩, rfl⟩
        · rcases List.mem_append.1 hx with hx | hx
          · exact hxs x hx
          · exact hxs' x hx
        · obtain ⟨_, heq, x, hx, hread⟩ := Session.completes_now hnow
          cases heq
          exact ⟨x, List.mem_append_right _ hx, hread⟩
        · rw [hd]
          exact .reschedule
      · rcases hends with ⟨e, -, hnow⟩ | ⟨cause, -, hnow⟩
        · obtain ⟨_, heq, -⟩ := Session.completes_now hnow
          cases heq
        · obtain ⟨_, heq, -⟩ := Session.completes_now hnow
          cases heq
    · exact .inl ⟨hfails hends, hdeals⟩

/-- The requests by which an outcome is written and committed. -/
def Request.Writes : Request ω → Prop
  | .now => True
  | .probe .. => True
  | .delete .. => True
  | .reenqueue .. => True
  | .commit _ => True
  | _ => False

/-- The requests by which an outcome is recorded. -/
def Request.Records (home : ShardId) (r : Request ω) : Prop :=
  r.Writes ∨ r = .begin home ∨ ∃ tx, r = .abandon tx

/-- A write opens no transaction. -/
theorem Request.Writes.opensNone {r : Request ω} (h : r.Writes) : r.OpensNone := by
  rintro shard rfl
  exact h

/-- What is asked to record a verdict opens transactions only at home. -/
theorem Request.Records.opensAt {r : Request ω} (h : r.Records home) : r.OpensAt home := by
  rcases h with hwrites | rfl | ⟨tx, rfl⟩
  · exact hwrites.opensNone.opensAt home
  · rfl
  · trivial

/-- Applying an outcome is a matter of writes. -/
theorem Recorder.writes_apply (r : Recorder) (tx : Handle) (id : TaskId) (outcome : Outcome) :
    (r.apply tx id outcome : Action ω QueueError Unit).run.Only Request.Writes := by
  have hprobed : ∀ {point : StorePoint} {op : Action ω StoreError Bool}, op.run.Only Request.Writes →
      (storing (Session.probe tx.shard point >>= fun _ => op) >>= fun _ => pure () :
        Action ω QueueError Unit).run.Only Request.Writes := fun hop =>
    only_run_bind (only_storing (only_run_bind (only_ask trivial) fun _ => hop)) fun _ => trivial
  cases outcome with
  | delete => exact hprobed (only_ask trivial)
  | reschedule delay fresh =>
    exact hprobed (only_run_bind (only_lift (only_ask trivial)) fun _ => only_ask trivial)
  | keep => trivial

/-- An outcome is written and committed. -/
def Recorder.finish (r : Recorder) (tx : Handle) (id : TaskId) (outcome : Outcome) :
    Action ω QueueError Unit := do
  r.apply tx id outcome
  storing (Session.commit tx)

/-- Finishing a task is a matter of writes. -/
theorem Recorder.writes_finish (r : Recorder) (tx : Handle) (id : TaskId) (outcome : Outcome) :
    (r.finish tx id outcome : Action ω QueueError Unit).run.Only Request.Writes :=
  only_run_bind (r.writes_apply tx id outcome) fun _ =>
    only_storing (only_run_bind (only_ask trivial) fun _ => only_ask trivial)

/-- Recording a verdict in a given transaction is a matter of writes. -/
theorem Recorder.writes_record (r : Recorder) (record : TaskRecord) (verdict : Verdict)
    (tx : Handle) :
    (r.record record verdict (some tx) : Action ω QueueError Unit).run.Only Request.Writes := by
  unfold Recorder.record
  split
  · trivial
  · trivial
  · exact r.writes_apply _ _ _

/-- Recording a verdict asks only what is asked at the shard of the task. -/
theorem Recorder.records_record (r : Recorder) (record : TaskRecord) (verdict : Verdict)
    (tx : Option Handle) :
    (r.record record verdict tx : Action ω QueueError Unit).run.Only (Request.Records r.shard) := by
  cases tx with
  | some tx => exact (r.writes_record record verdict tx).mono fun _ hr => .inl hr
  | none =>
    unfold Recorder.record
    split
    · trivial
    · trivial
    · refine only_withTransaction (only_run_bind (only_ask (.inl trivial)) fun _ =>
        only_ask (.inr (.inl rfl))) (fun tx => ?_) fun tx => .inr (.inr ⟨tx, rfl⟩)
      exact (r.writes_finish tx _ _).mono fun _ hr => .inl hr

/-- In a given transaction the change is seen at once. -/
theorem Outcome.Applied.takesEffect {outcome : Outcome} {tx : Handle} {location : Location}
    {id : TaskId} {asOf : Instant} {found : Bool} {xs : List (Deal ω β)} {d : Deal ω β}
    (h : outcome.Applied own tx location id w asOf (.ok found) xs d w')
    (hsound : ∀ x ∈ xs ++ [d], x.Sound jobProgram fiber) :
    outcome.TakesEffect Store.content tx.shard location id (xs ++ [d]) := by
  have hd := hsound d (List.mem_append_right _ List.mem_cons_self)
  have hxs : ∀ x ∈ xs, x.Keeps Store.content := fun x hx =>
    (hsound x (List.mem_append_left _ hx)).keeps_of_aloof (h.aloof x hx) (some tx)
  cases found with
  | true =>
    obtain ⟨⟨before, new, hrewritten⟩, helsewhere⟩ := hd.rewritten h.asked
    obtain ⟨u, htouch⟩ := hrewritten.touch
    refine .written h.reading hrewritten.writes hrewritten.found (fun s k => ?_) fun x hx => ?_
    · by_cases hs : s = tx.shard
      · subst hs
        by_cases hk : k = id
        · rw [if_pos ⟨rfl, hk⟩, hk, hrewritten.written]
        · rw [if_neg fun hthere => hk hthere.2, htouch.content_of_ne hk]
      · rw [if_neg fun hthere => hs hthere.1, helsewhere s hs]
    · rw [List.append_nil] at hx
      exact hxs x hx
  | false =>
    refine .missing (List.mem_append_right _ List.mem_cons_self) h.asked (hd.missing h.asked)
      fun x hx => ?_
    rcases List.mem_append.1 hx with hx | hx
    · exact hxs x hx
    · rw [List.mem_singleton.1 hx]
      intro s k
      rw [hd.unchanged h.asked (fun heq => by cases heq)]

/-- What is recorded in a given transaction takes effect, or fails and changes no row. -/
theorem completes_record_given {r : Recorder} {record : TaskRecord} {verdict : Verdict} {tx : Handle}
    {o : Except Panic (Except QueueError Unit)} (hfit : w.Fit home own)
    (h : Completes jobProgram fiber own
      (r.record record verdict (some tx) : Action ω QueueError Unit).run w t o w')
    (hsound : ∀ d ∈ t, d.Sound jobProgram fiber) :
    ((∃ e, o = .ok (.error e)) ∧ ∀ d ∈ t, d.Keeps Store.content) ∨
    o = .ok (.ok ()) ∧ ∃ outcome, r.outcome record verdict = .ok outcome ∧
      outcome.TakesEffect Store.content tx.shard r.location record.id t := by
  unfold Recorder.record at h
  split at h
  · obtain ⟨rfl, rfl, -⟩ := completes_done h
    exact .inl ⟨⟨_, rfl⟩, fun d hd => absurd hd List.not_mem_nil⟩
  · next houtcome =>
    obtain ⟨rfl, rfl, -⟩ := completes_done h
    exact .inr ⟨rfl, _, houtcome, .keep fun d hd => absurd hd List.not_mem_nil⟩
  · next outcome hkeep houtcome =>
    rcases completes_apply hkeep hfit h with
      ⟨hfails, haloof⟩ | ⟨asOf, answer, xs, d, rfl, happlied, rfl⟩
    · exact .inl ⟨hfails, fun d hd => (hsound d hd).keeps_of_aloof (haloof d hd) (some tx)⟩
    · cases answer with
      | ok found => exact .inr ⟨rfl, outcome, houtcome, happlied.takesEffect hsound⟩
      | error e =>
        refine .inl ⟨⟨_, rfl⟩, fun x hx => ?_⟩
        rcases List.mem_append.1 hx with hxs | hxd
        · exact (hsound x hx).keeps_of_aloof (happlied.aloof x hxs) (some tx)
        · rw [List.mem_singleton.1 hxd] at hx ⊢
          intro s k
          rw [(hsound d hx).unchanged happlied.asked (fun heq => by cases heq)]

/-! ## Writing in a transaction of its own -/

/-- A commit is asked for in the last deal, unless it was made to fail. -/
theorem completes_commit {tx : Handle} {o : Except Panic (Except QueueError Unit)}
    (hfit : w.Fit home own)
    (h : Completes jobProgram fiber own (storing (Session.commit tx) : Action ω _ _).run w t o w') :
    ((∃ e, o = .ok (.error e)) ∧ ∀ d ∈ t, d.exchange.1.Aloof) ∨
    ∃ answer xs d, t = xs ++ [d] ∧ (∀ x ∈ xs, x.exchange.1.Aloof) ∧
      d.exchange = ⟨.commit tx, answer⟩ ∧ w.Spared own d.before ∧
      o = .ok ((answer : Except StoreError Unit).mapError QueueError.store) := by
  obtain ⟨o', rfl, hop⟩ := completes_storing h
  rcases completes_aloof_bind (Session.aloof_probe _ _) hfit hop with
    ⟨_, xs, ys, w₁, rfl, hxs, -, hfit₁, hspared, hrest⟩ | ⟨hdeals, hends⟩
  · obtain ⟨d, answer, rfl, hd, rfl, hbefore, -⟩ :=
      completes_request hfit₁ hrest trivial fun _ => rfl
    exact .inr ⟨answer, xs, d, rfl, hxs, hd, hspared.trans hbefore, rfl⟩
  · rcases hends with ⟨e, rfl, -⟩ | ⟨cause, rfl, hprobe⟩
    · exact .inl ⟨⟨_, rfl⟩, hdeals⟩
    · obtain ⟨_, heq⟩ := Session.completes_probe hprobe
      cases heq

/-- A transaction that is opened is a new one, and nothing has been changed in it. -/
theorem completes_begin {o : Except Panic (Except QueueError Handle)} (hfit : w.Fit home own)
    (h : Completes jobProgram fiber own (storing (Session.begin home) : Action ω _ _).run w t o w') :
    (∀ d ∈ t, d.exchange.1.Aloof ∨ ∃ answer, d.exchange = ⟨.begin home, answer⟩) ∧
    (((∃ e, o = .ok (.error e)) ∧ ownAfter own t = own) ∨
    ∃ tx, o = .ok (.ok tx) ∧ ownAfter own t = tx :: own ∧ tx.shard = home ∧
      (w'.store home).journal tx.transaction = []) := by
  obtain ⟨o', rfl, hop⟩ := completes_storing h
  rcases completes_aloof_bind (Session.aloof_probe _ _) hfit hop with
    ⟨_, xs, ys, w₁, rfl, hxs, -, hfit₁, -, hrest⟩ | ⟨hdeals, hends⟩
  · obtain ⟨w₂, answer, w₃, hbefore, hanswer, rfl, rfl, hafter⟩ := completes_ask hrest
    have hsame : ownAfter own xs = own := ownAfter_of_forall fun d hd => (hxs d hd).opensNone.opened?
    have hfit₂ := hfit₁.elsewhere hbefore
    refine ⟨fun d hd => ?_, ?_⟩
    · rcases List.mem_append.1 hd with hd | hd
      · exact .inl (hxs d hd)
      · rw [List.mem_singleton.1 hd]
        exact .inr ⟨answer, rfl⟩
    · cases answer with
      | error e =>
        refine .inl ⟨⟨_, rfl⟩, ?_⟩
        rw [ownAfter_append, hsame]
        rfl
      | ok tx =>
        have hfit₃ := hfit₂.perform (r := .begin home) rfl hanswer
        have hspared := hafter.spared hfit₃ tx List.mem_cons_self
        obtain ⟨hjournal, -⟩ := holds_begin hfit₂.wellFormed hanswer
        obtain rfl : tx.shard = home := World.perform_begin_answer (congrArg Prod.snd hanswer)
        refine .inr ⟨tx, rfl, ?_, rfl, hspared.undisturbed.journal.trans hjournal⟩
        rw [ownAfter_append, hsame]
        rfl
  · have hsame : ownAfter own t = own := ownAfter_of_forall fun d hd => (hdeals d hd).opensNone.opened?
    refine ⟨fun d hd => .inl (hdeals d hd), .inl ⟨?_, hsame⟩⟩
    rcases hends with ⟨e, rfl, -⟩ | ⟨cause, rfl, hprobe⟩
    · exact ⟨_, rfl⟩
    · obtain ⟨_, heq⟩ := Session.completes_probe hprobe
      cases heq

/-- As long as it is not committed, nothing changes that is. -/
theorem Outcome.Applied.keeps {tx : Handle} {location : Location} {id : TaskId} {outcome : Outcome}
    {asOf : Instant} {answer : Except StoreError Bool} {xs : List (Deal ω β)} {d : Deal ω β}
    (h : outcome.Applied own tx location id w asOf answer xs d w')
    (hsound : ∀ x ∈ xs ++ [d], x.Sound jobProgram fiber) :
    ∀ x ∈ xs ++ [d], x.Keeps Store.committed := by
  intro x hx
  rcases List.mem_append.1 hx with hxs | hxd
  · exact (hsound x hx).keeps_of_aloof (h.aloof x hxs) none
  · rw [List.mem_singleton.1 hxd] at hx ⊢
    exact (hsound d hx).keeps_of_asked h.asked

/-- It takes effect when it is committed. -/
theorem Outcome.Applied.takesEffect_committed {tx : Handle} {location : Location} {id : TaskId}
    {outcome : Outcome} {asOf : Instant} {found : Bool} {xs zs : List (Deal ω β)}
    {dw dc : Deal ω β} {w₁ : World ω β}
    (h : outcome.Applied own tx location id w asOf (.ok found) xs dw w₁) (hown : tx ∈ own)
    (hblank : (w.store tx.shard).journal tx.transaction = []) (hw : dw.Sound jobProgram fiber)
    (hc : dc.Sound jobProgram fiber) (hspared : w₁.Spared own dc.before)
    (hdc : dc.exchange = ⟨.commit tx, .ok ()⟩)
    (hothers : ∀ d ∈ xs ++ [dw] ++ zs, d.Keeps Store.committed) :
    outcome.TakesEffect Store.committed tx.shard location id (xs ++ [dw] ++ zs ++ [dc]) := by
  -- nothing but the commit shows what has been written
  have hjournal : (dw.before.store tx.shard).journal tx.transaction = [] :=
    (h.before tx hown).undisturbed.journal.trans hblank
  have hbetween := (h.after.trans hspared) tx hown
  cases found with
  | true =>
    obtain ⟨before, new, hwrites, hbefore, hafter⟩ :=
      hw.commits_rewritten hc h.asked hjournal hbetween hdc
    refine .written (fun delay fresh heq => ?_) hwrites hbefore hafter fun d hd => ?_
    · obtain ⟨x, hx, hread⟩ := h.reading delay fresh heq
      exact ⟨x, by simp [hx], hread⟩
    · rw [List.append_nil] at hd
      exact hothers d hd
  | false =>
    refine .missing (by simp) h.asked (hw.missing h.asked) fun d hd => ?_
    rcases List.mem_append.1 hd with hd' | hd'
    · exact hothers d hd'
    · rw [List.mem_singleton.1 hd']
      exact hw.commits_nothing hc h.asked hjournal hbetween hdc

/-- What is written and committed takes effect, or it fails and changes nothing that is
committed. -/
theorem completes_written {r : Recorder} {tx : Handle} {id : TaskId} {outcome : Outcome}
    {o : Except Panic (Except QueueError Unit)} (hkeep : outcome ≠ .keep) (hfit : w.Fit home own)
    (hown : tx ∈ own) (hblank : (w.store tx.shard).journal tx.transaction = [])
    (h : Completes jobProgram fiber own (r.finish tx id outcome : Action ω QueueError Unit).run w t o
      w') (hsound : ∀ d ∈ t, d.Sound jobProgram fiber) :
    ((∃ e, o = .ok (.error e)) ∧ ∀ d ∈ t, d.Keeps Store.committed) ∨
    o = .ok (.ok ()) ∧ outcome.TakesEffect Store.committed tx.shard r.location id t := by
  have haloof : ∀ {d : Deal ω β}, d ∈ t → d.exchange.1.Aloof → d.Keeps Store.committed :=
    fun hd h => (hsound _ hd).keeps_of_aloof h none
  rcases completes_run_bind h with ⟨_, xs, ys, w₁, rfl, happly, hcommit⟩ | hends
  · rcases completes_apply hkeep hfit happly with
      ⟨⟨e, heq⟩, -⟩ | ⟨asOf, answer, xs, dw, rfl, happlied, heq⟩
    · cases heq
    have honly : (r.apply tx id outcome : Action ω QueueError Unit).run.Only Request.OpensNone :=
      (r.writes_apply tx id outcome).mono fun _ hr => hr.opensNone
    have hfit₁ := (happly.fit (honly.mono fun _ hr => hr.opensAt home) hfit).1
    rw [happly.ownAfter_eq honly] at hfit₁ hcommit
    obtain ⟨found, rfl⟩ : ∃ found, answer = .ok found := by
      cases answer with
      | ok found => exact ⟨found, rfl⟩
      | error e => cases heq
    have hxs := happlied.keeps fun d hd => hsound d (List.mem_append_left _ hd)
    rcases completes_commit hfit₁ hcommit with
      ⟨hfails, hys⟩ | ⟨answer, zs, dc, rfl, hzs, hdc, hspared, rfl⟩
    · refine .inl ⟨hfails, fun d hd => ?_⟩
      rcases List.mem_append.1 hd with hd' | hd'
      · exact hxs d hd'
      · exact haloof hd (hys d hd')
    have hothers : ∀ d ∈ xs ++ [dw] ++ zs, d.Keeps Store.committed := by
      intro d hd
      rcases List.mem_append.1 hd with hd' | hd'
      · exact hxs d hd'
      · exact haloof (by simp [hd']) (hzs d hd')
    have hc := hsound dc (by simp)
    rw [← List.append_assoc]
    cases answer with
    | error e =>
      refine .inl ⟨⟨_, rfl⟩, fun d hd => ?_⟩
      rcases List.mem_append.1 hd with hd' | hd'
      · exact hothers d hd'
      · rw [List.mem_singleton.1 hd']
        exact hc.keeps_of_commit_error hdc
    | ok _ =>
      have hw := hsound dw (by simp)
      exact .inr ⟨rfl, happlied.takesEffect_committed hown hblank hw hc hspared hdc hothers⟩
  · refine .inl ?_
    obtain ⟨o', happly, rfl, herror⟩ : ∃ o', Completes jobProgram fiber own
        (r.apply tx id outcome : Action ω QueueError Unit).run w t o' w' ∧ o = o' ∧
          o' ≠ .ok (.ok ()) := by
      rcases hends with ⟨e, rfl, happly⟩ | ⟨cause, rfl, happly⟩
      · exact ⟨_, happly, rfl, fun heq => by cases heq⟩
      · exact ⟨_, happly, rfl, fun heq => by cases heq⟩
    rcases completes_apply hkeep hfit happly with
      ⟨hfails, hdeals⟩ | ⟨asOf, answer, xs, d, rfl, happlied, rfl⟩
    · exact ⟨hfails, fun d hd => haloof hd (hdeals d hd)⟩
    · refine ⟨?_, happlied.keeps hsound⟩
      cases answer with
      | ok found => exact absurd rfl herror
      | error e => exact ⟨_, rfl⟩

/-- A transaction that has been abandoned is not open. -/
theorem not_isOpen_abandon {tx : Handle}
    (h : w.perform jobProgram fiber (.abandon tx) = (w', .answer ())) :
    ¬ (w'.store tx.shard).isOpen tx.transaction = true := by
  have hstore := w.store_perform jobProgram fiber (.abandon tx) tx.shard
  rw [h] at hstore
  have hstore : w'.store tx.shard = w.acted tx.shard (.abandon tx.transaction) tx.shard := hstore
  rw [hstore]
  exact World.not_isOpen_abandoned tx

/-- The same in a transaction of its own, which is over at the end. -/
theorem completes_separately {r : Recorder} {id : TaskId} {outcome : Outcome}
    {o : Except Panic (Except QueueError Unit)} (hkeep : outcome ≠ .keep)
    (hfit : w.Fit r.shard own)
    (h : Completes jobProgram fiber own (r.separately id outcome : Action ω QueueError Unit).run w t o
      w') (hsound : ∀ d ∈ t, d.Sound jobProgram fiber) :
    (((∃ e, o = .ok (.error e)) ∧ ∀ d ∈ t, d.Keeps Store.committed) ∨
      o = .ok (.ok ()) ∧ outcome.TakesEffect Store.committed r.shard r.location id t) ∧
    ∀ tx ∈ ownAfter own t, tx ∈ own ∨ ¬ (w'.store tx.shard).isOpen tx.transaction = true := by
  have hbegins : ∀ {d : Deal ω β}, d ∈ t →
      (d.exchange.1.Aloof ∨ ∃ answer, d.exchange = ⟨.begin r.shard, answer⟩) →
      d.Keeps Store.committed := by
    rintro d hd (haloof | ⟨answer, heq⟩)
    · exact (hsound d hd).keeps_of_aloof haloof none
    · refine (hsound d hd).keeps_committed (fun tx location lease hpick => ?_) ?_
      · rw [heq] at hpick
        cases hpick
      · rintro ⟨tx, hcommit⟩
        rw [heq] at hcommit
        cases hcommit
  rcases completes_run_bind h with ⟨tx, xs, ys, w₁, rfl, hbegin, hrest⟩ | hends
  · have hfit₁ := (hbegin.fit (only_storing (only_run_bind (only_ask trivial) fun _ =>
      only_ask rfl)) hfit).1
    obtain ⟨hxs, ⟨⟨e, heq⟩, -⟩ | ⟨tx', heq, hown, hshard, hblank⟩⟩ := completes_begin hfit hbegin
    · cases heq
    cases heq
    rw [hown] at hfit₁ hrest
    obtain ⟨zs, w₂, w₃, hbody, habandon, rfl, hafter⟩ := completes_followedBy hrest
    have hbody : Completes jobProgram fiber (tx :: own)
      (r.finish tx id outcome : Action ω QueueError Unit).run w₁ zs o w₂ := hbody
    have honly : (r.finish tx id outcome : Action ω QueueError Unit).run.Only Request.OpensNone :=
      (r.writes_finish tx id outcome).mono fun _ hr => hr.opensNone
    have hzs := hbody.ownAfter_eq honly
    have hfit₂ := (hbody.fit (honly.mono fun _ hr => hr.opensAt r.shard) hfit₁).1
    rw [hzs] at hfit₂ hafter
    have hspared := hafter.spared (hfit₂.perform (r := .abandon tx) trivial habandon)
    have hlast : Deal.Keeps Store.committed
        (⟨w₂, ⟨.abandon tx, ()⟩, w₃⟩ : Deal ω β) := by
      refine (hsound _ (by simp)).keeps_committed (fun tx location lease heq => by cases heq) ?_
      rintro ⟨tx', heq⟩
      cases heq
    refine ⟨?_, fun tx' htx' => ?_⟩
    · rw [← hshard] at hblank
      have hwritten := completes_written hkeep hfit₁ List.mem_cons_self hblank hbody
        fun d hd => hsound d (by simp [hd])
      rw [hshard] at hwritten
      rcases hwritten with ⟨hfails, hkeeps⟩ | ⟨rfl, heffect⟩
      · refine .inl ⟨hfails, fun d hd => ?_⟩
        rcases List.mem_append.1 hd with hd' | hd'
        · exact hbegins hd (hxs d hd')
        · rcases List.mem_append.1 hd' with hd'' | hd''
          · exact hkeeps d hd''
          · rw [List.mem_singleton.1 hd'']
            exact hlast
      · refine .inr ⟨rfl, ?_⟩
        rw [← List.append_assoc]
        refine heffect.amid (fun d hd => hbegins (by simp [hd]) (hxs d hd)) fun d hd => ?_
        rw [List.mem_singleton.1 hd]
        exact hlast
    · rw [ownAfter_append, hown, ownAfter_append, hzs] at htx'
      rcases List.mem_cons.1 htx' with rfl | htx'
      · refine .inr fun hopen => not_isOpen_abandon habandon ?_
        rw [← (hspared tx' List.mem_cons_self).undisturbed.isOpen]
        exact hopen
      · exact .inl htx'
  · obtain ⟨o', hbegin, rfl, herror⟩ : ∃ o', Completes jobProgram fiber own
        (storing (Session.begin r.shard) : Action ω QueueError Handle).run w t o' w' ∧
        o = o'.map (fun answer => answer.map fun _ => ()) ∧ ∀ tx, o' ≠ .ok (.ok tx) := by
      rcases hends with ⟨e, rfl, hbegin⟩ | ⟨cause, rfl, hbegin⟩
      · exact ⟨_, hbegin, rfl, fun _ heq => by cases heq⟩
      · exact ⟨_, hbegin, rfl, fun _ heq => by cases heq⟩
    obtain ⟨hdeals, ⟨⟨e, rfl⟩, hown⟩ | ⟨tx, rfl, -⟩⟩ := completes_begin hfit hbegin
    · refine ⟨.inl ⟨⟨e, rfl⟩, fun d hd => hbegins hd (hdeals d hd)⟩, fun tx htx => .inl ?_⟩
      rwa [hown] at htx
    · exact absurd rfl (herror tx)

/-- What is recorded without a given transaction takes effect, or fails and changes nothing that is
committed. -/
theorem completes_record_alone {r : Recorder} {record : TaskRecord} {verdict : Verdict}
    {o : Except Panic (Except QueueError Unit)} (hfit : w.Fit r.shard own)
    (h : Completes jobProgram fiber own
      (r.record record verdict none : Action ω QueueError Unit).run w t o w')
    (hsound : ∀ d ∈ t, d.Sound jobProgram fiber) :
    (((∃ e, o = .ok (.error e)) ∧ ∀ d ∈ t, d.Keeps Store.committed) ∨
      o = .ok (.ok ()) ∧ ∃ outcome, r.outcome record verdict = .ok outcome ∧
        outcome.TakesEffect Store.committed r.shard r.location record.id t) ∧
    ∀ tx ∈ ownAfter own t, tx ∈ own ∨ ¬ (w'.store tx.shard).isOpen tx.transaction = true := by
  unfold Recorder.record at h
  split at h
  · obtain ⟨rfl, rfl, -⟩ := completes_done h
    exact ⟨.inl ⟨⟨_, rfl⟩, fun d hd => absurd hd List.not_mem_nil⟩, fun _ htx => .inl htx⟩
  · next houtcome =>
    obtain ⟨rfl, rfl, -⟩ := completes_done h
    exact ⟨.inr ⟨rfl, _, houtcome, .keep fun d hd => absurd hd List.not_mem_nil⟩,
      fun _ htx => .inl htx⟩
  · next outcome hkeep houtcome =>
    obtain ⟨hresult, hclosed⟩ := completes_separately hkeep hfit h hsound
    refine ⟨hresult.imp_right ?_, hclosed⟩
    exact fun ⟨hdone, heffect⟩ => ⟨hdone, outcome, houtcome, heffect⟩

end Completed

end LeaseQueue
