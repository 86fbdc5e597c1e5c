import Mathlib.Data.List.Induction
import LeaseQueue.Proofs.EngineTransactions

/-!
# What becomes of a picked row

Every event does at most one action on one store (`Engine.action?`), and never in the transaction of
a process other than the one that goes on or is dropped.  So from the moment of its pick on one can
say what is committed of a row that a process has picked (`PickTrace`): what was committed before,
as long as the transaction of the pick is open, and then the picked record with its lease, unless
another transaction has changed it.
-/

set_option autoImplicit false

namespace LeaseQueue

/-! ## Stages and picks -/

namespace Standing

variable {ω : Type}

/-- Stage and lease are those of the pick. -/
structure Coherent (s : Standing) : Prop where
  picked : ∀ {tx location record}, s.stage = .picked tx location record →
    s.pick = some ⟨tx, location, record⟩
  leased : s.leased = true → s.pick.isSome = true

/-- A stage has picked just if it is the one after a pick. -/
theorem hasPicked_iff {stage : Stage} :
    stage.hasPicked = true ↔ ∃ tx location record, stage = .picked tx location record := by
  cases stage <;> simp [Stage.hasPicked]

/-- Only a pick and a commit have to do with the pick of a process and its lease. -/
theorem after_of_ne (s : Standing) {r : Request ω} (hpick : ∀ tx l lease, r ≠ .pick tx l lease)
    (hcommit : ∀ tx, r ≠ .commit tx) (reply : r.Reply) :
    (s.after ⟨r, reply⟩).pick = s.pick ∧ (s.after ⟨r, reply⟩).leased = s.leased ∧
      ∀ {tx location record}, (s.after ⟨r, reply⟩).stage = .picked tx location record →
        s.stage = .picked tx location record := by
  have hspent : ∀ tx : Handle, ({ s with stage := .spent tx } : Standing).pick = s.pick ∧
      ({ s with stage := .spent tx } : Standing).leased = s.leased ∧
      ∀ {tx' location record}, ({ s with stage := .spent tx } : Standing).stage =
        .picked tx' location record → s.stage = .picked tx' location record :=
    fun tx => ⟨rfl, rfl, fun h => by cases h⟩
  cases r with
  | pick tx location lease => exact absurd rfl (hpick tx location lease)
  | commit tx => exact absurd rfl (hcommit tx)
  | begin shard =>
    cases reply with
    | ok tx => exact ⟨rfl, rfl, fun h => by cases h⟩
    | error e => exact ⟨rfl, rfl, fun h => h⟩
  | abandon tx => exact ⟨rfl, rfl, fun h => by cases h⟩
  | enqueue tx location task => exact hspent tx
  | delete tx location id => exact hspent tx
  | reenqueue tx asOf location id delay fresh => exact hspent tx
  | rollback tx => exact hspent tx
  | _ => exact ⟨rfl, rfl, fun h => h⟩

/-- Only a pick changes what has been picked. -/
theorem pick_after_of_ne (s : Standing) {r : Request ω}
    (hpick : ∀ tx l lease, r ≠ .pick tx l lease) (reply : r.Reply) :
    (s.after ⟨r, reply⟩).pick = s.pick := by
  by_cases hcommit : ∃ tx, r = .commit tx
  · obtain ⟨tx, rfl⟩ := hcommit
    cases reply <;> rfl
  · exact (s.after_of_ne hpick (fun tx heq => hcommit ⟨tx, heq⟩) reply).1

/-- What is known of a process hangs together after one more answer. -/
theorem Coherent.after {s : Standing} (h : s.Coherent) (x : Exchange ω) : (s.after x).Coherent := by
  obtain ⟨r, reply⟩ := x
  by_cases hpick : ∃ tx l lease, r = .pick tx l lease
  · obtain ⟨tx, location, lease, rfl⟩ := hpick
    rcases reply with e | _ | record
    · exact ⟨fun hstage => (by cases hstage), h.leased⟩
    · exact h
    · refine ⟨fun hstage => ?_, fun _ => rfl⟩
      cases hstage
      rfl
  by_cases hcommit : ∃ tx, r = .commit tx
  · obtain ⟨tx, rfl⟩ := hcommit
    cases reply with
    | error e => exact ⟨fun hstage => (by cases hstage), h.leased⟩
    | ok u =>
      refine ⟨fun hstage => (by cases hstage), fun hleased => ?_⟩
      obtain ⟨tx, location, record, hstage⟩ := hasPicked_iff.1 hleased
      show s.pick.isSome = true
      rw [h.picked hstage]
      rfl
  · obtain ⟨hsame, hleased, hstage⟩ :=
      s.after_of_ne (fun tx l lease heq => hpick ⟨tx, l, lease, heq⟩)
        (fun tx heq => hcommit ⟨tx, heq⟩) reply
    constructor
    · intro tx location record hafter
      rw [hsame]
      exact h.picked (hstage hafter)
    · intro hafter
      rw [hsame]
      exact h.leased (hleased ▸ hafter)

end Standing

/-! ## Requests that leave what is committed alone -/

/-- Only the answer of a pick can tell that a lease would be too long. -/
theorem Store.overflowsLease_perform {s : Store} {a : Store.Action}
    (h : ∀ tx now location lease, a ≠ .pick tx now location lease) :
    (s.perform a).2.overflowsLease = false := by
  cases a with
  | pick tx now location lease => exact absurd rfl (h tx now location lease)
  | _ => rfl

namespace World

variable {ω β : Type} {w w' : World ω β} {jobProgram : ω → Process ω Unit} {id : FiberId}

/-- Only a commit changes what is committed, as long as no lease leaves the calendar. -/
theorem committed_acted (hs : ∀ s, (w.store s).WellFormed) {shard : ShardId} {a : Store.Action}
    (hlease : ((w.store shard).perform a).2.overflowsLease = false)
    (hcommit : ∀ tx, a = .commit tx → (w.store shard).isOpen tx = false) (s : ShardId)
    (row : TaskId) : (w.acted shard a s).committed row = (w.store s).committed row := by
  unfold acted
  split
  · next h =>
    obtain ⟨rfl, -⟩ := h
    exact (Store.step_change (hs s) (Store.perform_step _ a)).committed_eq (hs s) hlease hcommit row
  · rfl

/-- An action that changes what is committed is one of an open transaction. -/
theorem open_of_committed_acted (hs : ∀ s, (w.store s).WellFormed) {shard s : ShardId}
    {a : Store.Action} {row : TaskId}
    (h : (w.acted shard a s).committed row ≠ (w.store s).committed row) :
    s = shard ∧ ∃ tx, a.transaction? = some tx ∧ (w.store shard).isOpen tx = true := by
  unfold acted at h
  split at h
  · next hthere =>
    obtain ⟨rfl, -⟩ := hthere
    refine ⟨rfl, ?_⟩
    have hchange := Store.step_change (hs s) (Store.perform_step (w.store s) a)
    generalize (w.store s).perform a = outcome at h hchange
    obtain ⟨s', answer⟩ := outcome
    cases hchange with
    | idle => exact absurd rfl h
    | outage on => exact absurd rfl h
    | begun => exact absurd ((hs s).committed_opening row) h
    | @touched _ _ tx _ _ _ ha htouch => exact ⟨tx, ha, htouch.isOpen⟩
    | @kept tx _ hended => exact ⟨tx, rfl, hended.isOpen⟩
    | @takenBack _ _ tx _ ha hended =>
      refine ⟨tx, ?_, hended.isOpen⟩
      rcases ha with ⟨rfl, -⟩ | ⟨rfl, -⟩
      · rfl
      · rfl
  · exact absurd rfl h

/-- Requests that neither pick nor commit leave what is committed as it is. -/
theorem committed_perform (jobProgram : ω → Process ω Unit) (id : FiberId)
    (hs : ∀ s, (w.store s).WellFormed) {r : Request ω}
    (hpick : ∀ tx l lease, r ≠ .pick tx l lease) (hcommit : ∀ tx, r ≠ .commit tx) (s : ShardId)
    (row : TaskId) :
    ((w.perform jobProgram id r).1.store s).committed row = (w.store s).committed row := by
  rw [store_perform]
  cases haction : r.action? w.clock with
  | none => rfl
  | some action =>
    obtain ⟨shard, a⟩ := action
    refine committed_acted hs (Store.overflowsLease_perform ?_) ?_ s row
    · rintro tx now location lease rfl
      cases r with
      | pick tx l lease => exact hpick tx l lease rfl
      | _ => cases haction
    · rintro tx rfl
      cases r with
      | commit tx => exact absurd rfl (hcommit tx)
      | _ => cases haction

/-- Nor does a pick that finds something change what is committed. -/
theorem committed_pick (hs : ∀ s, (w.store s).WellFormed) {tx : Handle} {location : Location}
    {lease : LeaseSchedule} {picked : Option TaskRecord}
    (h : w.perform jobProgram id (.pick tx location lease) = (w', .answer (.ok picked)))
    (s : ShardId) (row : TaskId) : (w'.store s).committed row = (w.store s).committed row := by
  have hanswer : ((w.store tx.shard).pick tx.transaction w.clock location lease).2 = .ok picked :=
    Reply.answer.inj (congrArg Prod.snd h)
  have hstore := w.store_perform jobProgram id (.pick tx location lease) s
  rw [h] at hstore
  have hstore : w'.store s =
      w.acted tx.shard (.pick tx.transaction w.clock location lease) s := hstore
  rw [hstore]
  refine committed_acted hs ?_ ?_ s row
  · simp only [Store.perform, Prod.map_snd, hanswer]
    rfl
  · intro tx' heq
    cases heq

/-- Nor does a commit that fails. -/
theorem committed_commit_error (hs : ∀ s, (w.store s).WellFormed) {tx : Handle} {e : StoreError}
    (h : w.perform jobProgram id (.commit tx) = (w', .answer (.error e))) (s : ShardId)
    (row : TaskId) : (w'.store s).committed row = (w.store s).committed row := by
  have hanswer : ((w.store tx.shard).commit tx.transaction).2 = .error e :=
    Reply.answer.inj (congrArg Prod.snd h)
  have hclosed : (w.store tx.shard).isOpen tx.transaction = false := by
    cases hopen : (w.store tx.shard).isOpen tx.transaction with
    | false => rfl
    | true => simp [Store.commit, Store.whenOpen, hopen] at hanswer
  have hstore := w.store_perform jobProgram id (.commit tx) s
  rw [h] at hstore
  have hstore : w'.store s = w.acted tx.shard (.commit tx.transaction) s := hstore
  rw [hstore]
  refine committed_acted hs rfl ?_ s row
  intro tx' heq
  cases heq
  exact hclosed

/-- When a transaction commits, the row that it has picked is committed as it was picked. -/
theorem committed_commit (hs : ∀ s, (w.store s).WellFormed) {c : Catch}
    (h : w.perform jobProgram id (.commit c.tx) = (w', .answer (.ok ())))
    (hholds : (Stage.picked c.tx c.location c.record).Holds w.store) :
    (w'.store c.tx.shard).committed c.record.id = some (c.location, c.record) := by
  obtain ⟨hopen, hrow, hid⟩ := hholds
  have hstore := w.store_perform jobProgram id (.commit c.tx) c.tx.shard
  rw [h] at hstore
  have hstore : w'.store c.tx.shard =
      w.acted c.tx.shard (.commit c.tx.transaction) c.tx.shard := hstore
  rw [hstore, acted, if_pos ⟨rfl, contains_of_isOpen hopen⟩, Store.perform_commit hopen]
  rw [(Store.ended_release (hs _) hopen).committed_eq (hs _), if_pos hid, Store.content_release]
  unfold Store.content
  rw [hrow]
  rfl

end World

/-! ## Events as actions -/

namespace Engine

variable {α : Type}

/-- The action on the store of a shard that an event amounts to. -/
def action? (e : Engine α) : Event α → Option (ShardId × Store.Action)
  | .move (.go id) =>
    match e.world.program? id with
    | some (.call r _) => r.action? e.world.clock
    | _ => none
  | .move (.drop id) =>
    match e.world.held? id with
    | some [tx] => some (tx.shard, .abandon tx.transaction)
    | _ => none
  | .move (.outage shard on) => some (shard, .outage on)
  | .move _ => none
  | .outside shard a => if e.isOwn shard a then none else some (shard, a)

/-- An event leaves the stores alone or is one action on one of them. -/
theorem Tidy.store_react {e : Engine α} (h : e.Tidy) (event : Event α) (s : ShardId) :
    (e.react event).world.store s =
      match e.action? event with
      | none => e.world.store s
      | some (shard, a) => e.world.acted shard a s := by
  cases event with
  | outside shard a =>
    simp only [Engine.react, action?]
    split
    · rfl
    · exact e.world.store_setStore shard s _
  | move m =>
    cases m with
    | produce producer task => rfl
    | poll runner => rfl
    | fail shard point times => exact e.world.store_setFaults shard s point times
    | meanwhile surroundings => rfl
    | outage shard on => exact e.world.store_setStore shard s _
    | go id =>
      show (e.go id).world.store s = _
      rcases e.go_cases id with ⟨hnone, hgo⟩ | ⟨f, p, hp, hover, hgo⟩ | ⟨r, next, hcall, hgo⟩
      · simp only [action?, hgo, hnone]
      · obtain ⟨w, hfinish, hstore, -⟩ := e.finish_world id f
        simp only [action?, hgo, hfinish, hp]
        cases p with
        | call r next => exact absurd rfl (hover r next)
        | _ => exact hstore s
      · have hperform := e.world.store_perform Job.work id r s
        simp only [action?, hgo, hcall]
        rcases e.ask_cases id r next with ⟨w, _, hw, hask⟩ | ⟨w, _, hw, hask⟩
        · rw [hask]
          rwa [hw] at hperform
        · rw [hask]
          rwa [hw] at hperform
    | drop id =>
      show (e.drop id).world.store s = _
      cases hf : e.world.fibers.get? id with
      | none =>
        have hheld : e.world.held? id = none := congrArg (Option.map Fiber.held) hf
        simp only [Engine.drop, action?, hf, hheld]
      | some f =>
        have hheld : e.world.held? id = some f.held := congrArg (Option.map Fiber.held) hf
        simp only [Engine.drop, action?, hf, hheld]
        rw [h.store_bury hf, h.held hheld]
        cases (e.standing id).stage.handle? <;> rfl

/-- An event is an action in the transaction of a process only if it lets this process go on or
drops it. -/
theorem Tidy.not_in_held {e : Engine α} (h : e.Tidy) {event : Event α} {id : FiberId}
    (hgo : event ≠ .move (.go id)) (hdrop : event ≠ .move (.drop id)) {tx : Handle}
    (hheld : e.world.held? id = some [tx]) {a : Store.Action}
    (haction : e.action? event = some (tx.shard, a))
    (hthere : e.world.shards.contains tx.shard = true) : a.transaction? ≠ some tx.transaction := by
  intro ha
  cases event with
  | outside shard b =>
    simp only [action?] at haction
    split at haction
    · cases haction
    · next hforeign =>
      cases haction
      exact hforeign (isOwn_of_held hheld ha)
  | move m =>
    cases m with
    | go k =>
      simp only [action?] at haction
      split at haction
      · next r next hcall =>
        obtain ⟨deed, -, hpermits⟩ := h.accounted.permits hcall
        obtain ⟨l, hl⟩ := exists_held hcall
        have hk := h.held_of_handle hl (hpermits.own haction ha)
        rw [h.apart hk hheld hthere] at hgo
        exact hgo rfl
      · cases haction
    | drop k =>
      simp only [action?] at haction
      split at haction
      · next tx' hk =>
        obtain ⟨shard, t⟩ := tx
        obtain ⟨shard', t'⟩ := tx'
        cases haction
        cases ha
        rw [h.apart hk hheld hthere] at hdrop
        exact hdrop rfl
      · cases haction
    | outage shard on =>
      cases haction
      cases ha
    | _ => cases haction

/-- So every other event leaves the transaction of a process as it is. -/
theorem Tidy.undisturbed_react {e : Engine α} (h : e.Tidy) {event : Event α} {id : FiberId}
    (hgo : event ≠ .move (.go id)) (hdrop : event ≠ .move (.drop id)) {tx : Handle}
    (hheld : e.world.held? id = some [tx]) :
    Store.Undisturbed (e.world.store tx.shard) ((e.react event).world.store tx.shard)
      tx.transaction := by
  rw [h.store_react]
  cases haction : e.action? event with
  | none => exact .refl _ _
  | some action =>
    obtain ⟨shard, a⟩ := action
    refine World.undisturbed_acted h.wellFormed (h.begun (h.own (h.handle_of_held hheld))) ?_
    rintro rfl hthere
    exact h.not_in_held hgo hdrop hheld haction hthere

/-! ## Events and the other processes -/

/-- Only a turn of a process adds to what it has said. -/
theorem said_react_of_ne (e : Engine α) {event : Event α} {id : FiberId}
    (hgo : event ≠ .move (.go id)) : (e.react event).said id = e.said id := by
  cases event with
  | outside shard a =>
    simp only [Engine.react]
    split <;> rfl
  | move m =>
    cases m with
    | go k =>
      have hne : id ≠ k := by
        rintro rfl
        exact hgo rfl
      show (e.go k).said id = _
      rcases e.go_cases k with ⟨-, hk⟩ | ⟨f, -, -, -, hk⟩ | ⟨r, next, -, hk⟩
      · rw [hk]
      · obtain ⟨w, hfinish, -⟩ := e.finish_world k f
        rw [hk, hfinish]
      · rw [hk]
        rcases e.ask_cases k r next with ⟨w, _, -, hask⟩ | ⟨w, _, -, hask⟩
        · rw [hask]
        · rw [hask, said_answered, if_neg hne]
    | drop k =>
      show (e.drop k).said id = _
      unfold Engine.drop
      split <;> rfl
    | _ => rfl

/-- The processes that are there keep their transactions while others go on or are dropped, and
those that are gone do not come back. -/
theorem Tidy.held?_react_of_ne {e : Engine α} (h : e.Tidy) {event : Event α} {id : FiberId}
    (hlt : id < e.world.nextFiber) (hgo : event ≠ .move (.go id))
    (hdrop : event ≠ .move (.drop id)) : (e.react event).world.held? id = e.world.held? id := by
  have hspawn : ∀ deed, (e.begin deed).world.held? id = e.world.held? id := by
    intro deed
    show Option.map Fiber.held ((e.world.fibers.insert e.world.nextFiber _).get? id) = _
    rw [OrderedMap.get?_insert, if_neg (Nat.ne_of_lt hlt)]
    rfl
  cases event with
  | outside shard a =>
    simp only [Engine.react]
    split <;> rfl
  | move m =>
    cases m with
    | produce producer task => exact hspawn _
    | poll runner => exact hspawn _
    | outage shard on => rfl
    | fail shard point times => rfl
    | meanwhile surroundings => rfl
    | go k =>
      have hne : id ≠ k := by
        rintro rfl
        exact hgo rfl
      show (e.go k).world.held? id = _
      rcases e.go_cases k with ⟨-, hk⟩ | ⟨f, -, -, -, hk⟩ | ⟨r, next, hcall, hk⟩
      · rw [hk]
      · rw [hk]
        unfold Engine.finish
        split
        · exact (held?_dismiss _ k id).trans (if_neg hne)
        · exact (held?_dismiss _ k id).trans (if_neg hne)
      · rw [hk]
        rcases e.ask_cases k r next with ⟨w, _, hperform, hask⟩ | ⟨w, reply, hperform, hask⟩
        · rw [hask]
          unfold World.held?
          rw [(World.perform_wait hperform).2]
        · rw [hask, held?_answered, h.held_perform hcall hperform, if_neg hne,
            if_neg fun hjob => Nat.ne_of_lt hlt hjob.2]
    | drop k =>
      have hne : id ≠ k := by
        rintro rfl
        exact hdrop rfl
      show (e.drop k).world.held? id = _
      unfold Engine.drop
      split
      · rfl
      · exact (held?_bury _ k _ id).trans (if_neg hne)

/-! ## The pick and what comes after it -/

/-- What is known of a process hangs together. -/
theorem coherent_standing (e : Engine α) (id : FiberId) : (e.standing id).Coherent := by
  unfold standing
  generalize e.said id = said
  induction said using List.reverseRecOn with
  | nil => exact ⟨fun hstage => (by cases hstage), fun hleased => (by cases hleased)⟩
  | append_singleton rest x ih =>
    rw [List.foldl_append]
    exact ih.after x

/-- Nothing has been said by a process that has not been started. -/
theorem Tidy.lt_of_pick {e : Engine α} (h : e.Tidy) {id : FiberId} {c : Catch}
    (hpick : (e.standing id).pick = some c) : id < e.world.nextFiber :=
  Nat.lt_of_not_le fun hle => by
    unfold standing at hpick
    rw [(h.accounted.unborn hle).2] at hpick
    cases hpick

/-- If a process goes on now, it is told what its pick has found. -/
def Picks (e : Engine α) (id : FiberId) (c : Catch) : Prop :=
  ∃ lease, (e.go id).said id =
    e.said id ++ [⟨.pick c.tx c.location lease, .ok (some c.record)⟩]

/-- In the course of some events an action in a transaction that is not one of a process changes
what is committed of a row. -/
def ChangedByOther (e : Engine α) (id : FiberId) (shard : ShardId) (row : TaskId)
    (events : List (Event α)) : Prop :=
  ∃ before event after a tx, events = before ++ event :: after ∧
    (e.happen before).action? event = some (shard, a) ∧ a.transaction? = some tx ∧
    ¬ (e.happen before).Began id ⟨shard, tx⟩ ∧
    (((e.happen before).react event).world.store shard).committed row ≠
      ((e.happen before).world.store shard).committed row

/-- A row that another has changed is so whatever happens afterwards. -/
theorem ChangedByOther.append {e : Engine α} {id : FiberId} {shard : ShardId} {row : TaskId}
    {events : List (Event α)} (h : e.ChangedByOther id shard row events) (more : List (Event α)) :
    e.ChangedByOther id shard row (events ++ more) := by
  obtain ⟨before, event, after, a, tx, rfl, hrest⟩ := h
  exact ⟨before, event, after ++ more, a, tx, by simp, hrest⟩

/-- A row that another has changed is so whatever has happened before. -/
theorem ChangedByOther.prepend {e : Engine α} {id : FiberId} {shard : ShardId} {row : TaskId}
    {events more : List (Event α)} (h : (e.happen events).ChangedByOther id shard row more) :
    e.ChangedByOther id shard row (events ++ more) := by
  obtain ⟨before, event, after, a, tx, rfl, hrest⟩ := h
  rw [← happen_append] at hrest
  exact ⟨events ++ before, event, after, a, tx, by simp, hrest⟩

/-- An event that does not belong to a process and changes what is committed is an action in another
transaction. -/
theorem Tidy.changedByOther {e : Engine α} (h : e.Tidy) {event : Event α} {id : FiberId}
    (hgo : event ≠ .move (.go id)) (hdrop : event ≠ .move (.drop id)) {shard : ShardId}
    {row : TaskId} (hchanged : ((e.react event).world.store shard).committed row ≠
      (e.world.store shard).committed row) :
    e.ChangedByOther id shard row [event] := by
  have hstore := h.store_react event shard
  cases haction : e.action? event with
  | none =>
    simp only [haction] at hstore
    rw [hstore] at hchanged
    exact absurd rfl hchanged
  | some action =>
    obtain ⟨shard', a⟩ := action
    simp only [haction] at hstore
    have hacted := hchanged
    rw [hstore] at hacted
    obtain ⟨rfl, tx, ha, hopen⟩ := World.open_of_committed_acted h.wellFormed hacted
    refine ⟨[], event, [], a, tx, rfl, haction, ha, fun hbegan => ?_, hchanged⟩
    exact h.not_in_held hgo hdrop (h.current hbegan hopen) haction
      (World.contains_of_isOpen hopen) ha

/-- What has become of the row that a process has picked, by what was before its pick and what has
happened since. -/
structure PickTrace (start : Engine α) (before after : List (Event α)) (id : FiberId) (c : Catch)
    (now : Engine α) : Prop where
  now_eq : now = start.happen (before ++ .move (.go id) :: after)
  picks : (start.happen before).Picks id c
  /-- The row was free when it was picked. -/
  free : ∃ row, ((start.happen before).world.store c.tx.shard).rows.get? c.record.id = some row ∧
    row.holder = none
  /-- As long as its transaction is open, the pick is not committed. -/
  uncommitted : (now.standing id).stage = .picked c.tx c.location c.record →
    (now.world.store c.tx.shard).committed c.record.id =
      ((start.happen before).world.store c.tx.shard).committed c.record.id
  /-- Once it is committed, it stays as long as nobody else changes it. -/
  leased : (now.standing id).leased = true →
    (now.world.store c.tx.shard).committed c.record.id = some (c.location, c.record) ∨
      (start.happen (before ++ [.move (.go id)])).ChangedByOther id c.tx.shard c.record.id after

section Traces

variable {start now : Engine α} {before after : List (Event α)} {id : FiberId} {c : Catch}
  {event : Event α}

/-- What one more event makes of a trace. -/
theorem PickTrace.next (h : PickTrace start before after id c now) (event : Event α)
    (hopen : ((now.react event).standing id).stage = .picked c.tx c.location c.record →
      (now.standing id).stage = .picked c.tx c.location c.record ∧
      ((now.react event).world.store c.tx.shard).committed c.record.id =
        (now.world.store c.tx.shard).committed c.record.id)
    (hleased : ((now.react event).standing id).leased = true →
      ((now.react event).world.store c.tx.shard).committed c.record.id =
          some (c.location, c.record) ∨
        (now.standing id).leased = true ∧
          (((now.react event).world.store c.tx.shard).committed c.record.id =
              (now.world.store c.tx.shard).committed c.record.id ∨
            now.ChangedByOther id c.tx.shard c.record.id [event])) :
    PickTrace start before (after ++ [event]) id c (now.react event) where
  now_eq := by
    rw [h.now_eq, ← List.cons_append, ← List.append_assoc, happen_append _ _ [event]]
    rfl
  picks := h.picks
  free := h.free
  uncommitted hstage := by
    obtain ⟨hstage, hsame⟩ := hopen hstage
    rw [hsame]
    exact h.uncommitted hstage
  leased hafter := by
    rcases hleased hafter with hcommitted | ⟨hleased, hsame | hchanged⟩
    · exact .inl hcommitted
    · rw [hsame]
      exact (h.leased hleased).imp_right fun hother => hother.append [event]
    · refine .inr (ChangedByOther.prepend ?_)
      rw [← happen_append, List.append_assoc]
      rwa [h.now_eq] at hchanged

/-- An event that does not belong to the process. -/
theorem PickTrace.other (h : PickTrace start before after id c now) (htidy : now.Tidy)
    {l : List Handle} (hheld : now.world.held? id = some l) (hgo : event ≠ .move (.go id))
    (hdrop : event ≠ .move (.drop id)) :
    PickTrace start before (after ++ [event]) id c (now.react event) := by
  have hstanding : (now.react event).standing id = now.standing id :=
    congrArg (List.foldl Standing.after .initial) (now.said_react_of_ne hgo)
  refine h.next event (fun hstage => ?_) (fun hleased => ?_)
  · rw [hstanding] at hstage
    refine ⟨hstage, ?_⟩
    -- the transaction of the pick holds the row, so nobody else can have changed it
    have hholds := htidy.stage hheld
    have hheld := htidy.held_of_handle hheld (by rw [hstage]; rfl)
    rw [hstage] at hholds
    exact (htidy.undisturbed_react hgo hdrop hheld).committed_eq (htidy.wellFormed _)
      ((htidy.react event).wellFormed _) hholds.2.1 rfl hholds.2.2
  · rw [hstanding] at hleased
    refine .inr ⟨hleased, ?_⟩
    by_cases hsame : ((now.react event).world.store c.tx.shard).committed c.record.id =
        (now.world.store c.tx.shard).committed c.record.id
    · exact .inl hsame
    · exact .inr (htidy.changedByOther hgo hdrop hsame)

/-- The commit of the transaction of the pick commits the row as it was picked. -/
theorem Tidy.committed_of_leased (htidy : now.Tidy) (hpick : (now.standing id).pick = some c)
    {tx : Handle} {next : Except StoreError Unit → Process (Job α) Unit}
    {w : World (Job α) Unit} (hcall : now.world.program? id = some (.call (.commit tx) next))
    (hperform : now.world.perform Job.work id (.commit tx) = (w, .answer (.ok ())))
    (hleased : ((now.standing id).after
      (⟨.commit tx, .ok ()⟩ : Exchange (Job α))).leased = true) :
    (w.store c.tx.shard).committed c.record.id = some (c.location, c.record) := by
  obtain ⟨deed, -, hpermits⟩ := htidy.accounted.permits hcall
  obtain ⟨tx', location, record, hstage⟩ := Standing.hasPicked_iff.1 hleased
  have hsame := (now.coherent_standing id).picked hstage
  rw [hpick] at hsame
  cases hsame
  have htx : (now.standing id).stage.handle? = some tx := hpermits
  rw [hstage] at htx
  cases htx
  obtain ⟨l, hheld⟩ := exists_held hcall
  have hholds := htidy.stage hheld
  rw [hstage] at hholds
  exact World.committed_commit (c := ⟨tx, location, record⟩) htidy.wellFormed hperform hholds

/-- The process gets an answer, which is not that of another pick. -/
theorem PickTrace.answered (h : PickTrace start before after id c now) (htidy : now.Tidy)
    (hpick : (now.standing id).pick = some c) {r : Request (Job α)} {reply : r.Reply}
    {next : r.Reply → Process (Job α) Unit} {w : World (Job α) Unit}
    (hcall : now.world.program? id = some (.call r next))
    (hperform : now.world.perform Job.work id r = (w, .answer reply))
    (hgo : now.go id = now.answered w id ⟨r, reply⟩ (next reply)) :
    PickTrace start before (after ++ [.move (.go id)]) id c (now.go id) := by
  obtain ⟨deed, -, hpermits⟩ := htidy.accounted.permits hcall
  have hstanding : (now.go id).standing id = (now.standing id).after ⟨r, reply⟩ := by
    rw [hgo, standing_answered, if_pos rfl]
  have hstore : (now.go id).world.store = w.store := by
    rw [hgo]
    rfl
  have hkept : (w.store c.tx.shard).committed c.record.id =
        (now.world.store c.tx.shard).committed c.record.id →
      ((now.standing id).after ⟨r, reply⟩).leased = (now.standing id).leased →
      (((now.standing id).after ⟨r, reply⟩).stage = .picked c.tx c.location c.record →
        (now.standing id).stage = .picked c.tx c.location c.record) →
      PickTrace start before (after ++ [.move (.go id)]) id c (now.go id) := by
    intro hcommitted hleased hstage
    rw [← hstore] at hcommitted
    rw [← hstanding] at hleased hstage
    exact h.next (.move (.go id)) (fun hpicked => ⟨hstage hpicked, hcommitted⟩) fun hafter =>
      .inr ⟨hleased.symm.trans hafter, .inl hcommitted⟩
  by_cases hpicks : ∃ tx l lease, r = .pick tx l lease
  · obtain ⟨tx, location, lease, rfl⟩ := hpicks
    have hnone : (now.standing id).pick = none := hpermits.2
    rw [hpick] at hnone
    cases hnone
  by_cases hcommits : ∃ tx, r = .commit tx
  · obtain ⟨tx, rfl⟩ := hcommits
    cases reply with
    | error e =>
      refine hkept ?_ rfl fun hstage => by cases hstage
      exact World.committed_commit_error htidy.wellFormed hperform c.tx.shard c.record.id
    | ok u =>
      refine h.next (.move (.go id)) (fun hstage => ?_) fun hleased => .inl ?_
      · have hstage := (congrArg Standing.stage hstanding).symm.trans hstage
        cases hstage
      · have hleased := (congrArg Standing.leased hstanding).symm.trans hleased
        have hcommitted := htidy.committed_of_leased hpick hcall hperform hleased
        rwa [← hstore] at hcommitted
  · have hneither := (now.standing id).after_of_ne
      (fun tx l lease heq => hpicks ⟨tx, l, lease, heq⟩) (fun tx heq => hcommits ⟨tx, heq⟩) reply
    obtain ⟨-, hleased, hstage⟩ := hneither
    have hcommitted := World.committed_perform Job.work id htidy.wellFormed
      (fun tx l lease heq => hpicks ⟨tx, l, lease, heq⟩)
      (fun tx heq => hcommits ⟨tx, heq⟩) c.tx.shard c.record.id
    rw [hperform] at hcommitted
    exact hkept hcommitted hleased hstage

/-- The process goes on and is still there afterwards. -/
theorem PickTrace.go (h : PickTrace start before after id c now) (htidy : now.Tidy)
    (hpick : (now.standing id).pick = some c) {l : List Handle}
    (hheld : (now.go id).world.held? id = some l) :
    PickTrace start before (after ++ [.move (.go id)]) id c (now.go id) := by
  have hsame : (∀ s, (now.go id).world.store s = now.world.store s) →
      (now.go id).said id = now.said id →
      PickTrace start before (after ++ [.move (.go id)]) id c (now.go id) := by
    intro hstore hsaid
    have hstanding : (now.go id).standing id = now.standing id :=
      congrArg (List.foldl Standing.after .initial) hsaid
    have hcommitted := congrArg (fun store => store.committed c.record.id) (hstore c.tx.shard)
    refine h.next (.move (.go id)) (fun hstage => ⟨?_, hcommitted⟩) fun hleased =>
      .inr ⟨?_, .inl hcommitted⟩
    · exact (congrArg Standing.stage hstanding).symm.trans hstage
    · exact (congrArg Standing.leased hstanding).symm.trans hleased
  rcases now.go_cases id with ⟨-, hgo⟩ | ⟨f, -, -, -, hgo⟩ | ⟨r, next, hcall, hgo⟩
  · exact hsame (fun s => by rw [hgo]) (by rw [hgo])
  · -- a process that has come to its end is gone
    rw [hgo] at hheld
    unfold Engine.finish at hheld
    have hgone : ∀ w : World (Job α) Unit, (w.dismiss id).held? id ≠ some l := by
      intro w
      rw [held?_dismiss, if_pos rfl]
      simp
    split at hheld
    · exact absurd hheld (hgone _)
    · exact absurd hheld (hgone _)
  · rcases now.ask_cases id r next with ⟨w, _, hperform, hask⟩ | ⟨w, reply, hperform, hask⟩
    · obtain ⟨hshards, -⟩ := World.perform_wait hperform
      rw [hask] at hgo
      refine hsame (fun s => ?_) (by rw [hgo])
      rw [hgo]
      unfold World.store
      rw [hshards]
    · exact h.answered htidy hpick hcall hperform (hgo.trans hask)

/-- The trace begins when the process is told what its pick has found. -/
theorem Tidy.pickTrace (htidy : (start.happen before).Tidy)
    (hbefore : ((start.happen before).standing id).pick ≠ some c)
    (hafter : (((start.happen before).go id).standing id).pick = some c) :
    PickTrace start before [] id c ((start.happen before).go id) := by
  have hnow : (start.happen before).go id = start.happen (before ++ [.move (.go id)]) := by
    rw [happen_append]
    rfl
  generalize hmoment : start.happen before = e at *
  have hsaid : (e.go id).said id ≠ e.said id := by
    intro hsame
    unfold standing at hbefore hafter
    rw [hsame] at hafter
    exact hbefore hafter
  rcases e.go_cases id with ⟨-, hgo⟩ | ⟨f, -, -, -, hgo⟩ | ⟨r, next, hcall, hgo⟩
  · exact absurd (by rw [hgo]) hsaid
  · obtain ⟨w, hfinish, -⟩ := e.finish_world id f
    exact absurd (by rw [hgo, hfinish]) hsaid
  rcases e.ask_cases id r next with ⟨w, _, -, hask⟩ | ⟨w, reply, hperform, hask⟩
  · exact absurd (by rw [hgo, hask]) hsaid
  have hgo := hgo.trans hask
  have hstanding : (e.go id).standing id = (e.standing id).after ⟨r, reply⟩ := by
    rw [hgo, standing_answered, if_pos rfl]
  have hstore : (e.go id).world.store = w.store := by
    rw [hgo]
    rfl
  obtain ⟨deed, -, hpermits⟩ := htidy.accounted.permits hcall
  obtain ⟨l, hheld⟩ := exists_held hcall
  rw [hstanding] at hafter
  have hpicks : ∃ tx l lease, r = .pick tx l lease := by
    by_contra hnot
    rw [(e.standing id).pick_after_of_ne fun tx l lease heq => hnot ⟨tx, l, lease, heq⟩] at hafter
    exact hbefore hafter
  obtain ⟨tx, location, lease, rfl⟩ := hpicks
  rcases reply with error | _ | record
  · exact absurd hafter hbefore
  · exact absurd hafter hbefore
  cases hafter
  have hstage : (e.standing id).stage = .opened tx := hpermits.1
  have hpicked := perform_pick_step htidy.wellFormed hperform
  subst hmoment
  refine ⟨hnow, ⟨lease, ?_⟩, ?_, fun _ => ?_, fun hleased => ?_⟩
  · rw [hgo, said_answered, if_pos rfl]
  · -- the transaction of the pick held nothing before
    obtain ⟨row, hrow, -, hfree⟩ := hpicked.before
    have hholds := htidy.stage hheld
    rw [hstage] at hholds
    refine ⟨row, hrow, ?_⟩
    cases hholder : row.holder with
    | none => rfl
    | some t =>
      have ht : t = tx.transaction := by simpa [hholder] using hfree
      exact absurd (ht ▸ hholder) (hholds.2 record.id row hrow)
  · rw [hstore]
    exact World.committed_pick htidy.wellFormed hperform tx.shard record.id
  · -- before its pick a process has no lease
    have hleased : ((start.happen before).standing id).leased = true :=
      (congrArg Standing.leased hstanding).symm.trans hleased
    have hsome := (coherent_standing (start.happen before) id).leased hleased
    have hnone : ((start.happen before).standing id).pick = none := hpermits.2
    rw [hnone] at hsome
    cases hsome

end Traces

/-- A process that has been dropped is gone. -/
theorem held?_drop (e : Engine α) (id : FiberId) : (e.drop id).world.held? id = none := by
  unfold Engine.drop
  cases hf : e.world.fibers.get? id with
  | none => exact congrArg (Option.map Fiber.held) hf
  | some f => exact (held?_bury e.world id f id).trans (if_pos rfl)

/-- A process that is gone does not go on. -/
theorem go_of_gone {e : Engine α} {id : FiberId} (h : e.world.held? id = none) : e.go id = e := by
  have hf : e.world.fibers.get? id = none := Option.map_eq_none_iff.1 h
  unfold Engine.go
  rw [hf]

/-- Of every pick of a process that is still there it is known what has become of its row. -/
theorem exists_pickTrace {start : Engine α} (h : start.Tidy) (hsilent : ∀ id, start.said id = [])
    (events : List (Event α)) {id : FiberId} {c : Catch} {l : List Handle}
    (hheld : (start.happen events).world.held? id = some l)
    (hpick : ((start.happen events).standing id).pick = some c) :
    ∃ before after, events = before ++ .move (.go id) :: after ∧
      PickTrace start before after id c (start.happen events) := by
  induction events using List.reverseRecOn generalizing l with
  | nil =>
    have hsaid : (start.happen []).said id = [] := hsilent id
    unfold standing at hpick
    rw [hsaid] at hpick
    cases hpick
  | append_singleton rest event ih =>
    have htidy := h.happen rest
    rw [happen_append] at hheld hpick ⊢
    have hlonger : ∀ {now : Engine α}, (∃ before after, rest = before ++ .move (.go id) :: after ∧
        PickTrace start before (after ++ [event]) id c now) →
        ∃ before after, rest ++ [event] = before ++ .move (.go id) :: after ∧
          PickTrace start before after id c now := by
      rintro now ⟨before, after, rfl, htrace⟩
      exact ⟨before, after ++ [event], by simp, htrace⟩
    by_cases hgo : event = .move (.go id)
    · subst hgo
      have hheld : ((start.happen rest).go id).world.held? id = some l := hheld
      by_cases hbefore : ((start.happen rest).standing id).pick = some c
      · cases hnow : (start.happen rest).world.held? id with
        | none =>
          rw [go_of_gone hnow, hnow] at hheld
          cases hheld
        | some l' =>
          obtain ⟨before, after, hrest, htrace⟩ := ih hnow hbefore
          exact hlonger ⟨before, after, hrest, htrace.go htidy hbefore hheld⟩
      · exact ⟨rest, [], rfl, htidy.pickTrace hbefore hpick⟩
    by_cases hdrop : event = .move (.drop id)
    · subst hdrop
      have hgone := (start.happen rest).held?_drop id
      cases hgone.symm.trans hheld
    · have hbefore : ((start.happen rest).standing id).pick = some c := by
        unfold standing at hpick ⊢
        rw [← (start.happen rest).said_react_of_ne hgo]
        exact hpick
      have hnow : (start.happen rest).world.held? id = some l :=
        (htidy.held?_react_of_ne (htidy.lt_of_pick hbefore) hgo hdrop).symm.trans hheld
      obtain ⟨before, after, hrest, htrace⟩ := ih hnow hbefore
      exact hlonger ⟨before, after, hrest, htrace.other htidy hnow hgo hdrop⟩

end Engine

end LeaseQueue
