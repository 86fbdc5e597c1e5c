import Mathlib.Data.List.Induction
import Mathlib.Order.Bounds.Defs
import LeaseQueue.StopSignal

/-!
# Watching the sign to stop

What the owner of a sign says is kept in a channel with a version, which grows with everything that
is said.  Whoever watches the channel has a receiver, which remembers the version that it saw last.
A loop asks its receiver whether it is told to stop without taking note of anything; for a wait it
makes a copy, and the copy looks at what was said last, once at the beginning and later only when
there is something that it has not seen.

Here this is done in the course of time, under a timetable of what the owner does at different
times.  The copy overlooks nothing (`Vigil.look_eq_none_iff`), since to stop is the only thing it
waits for and it never goes on from a channel in which that was said last.  So a wait is as
`StopSignal.wait` has it, which knows no versions, and it ends as soon as the sign is given,
whatever was given and taken back before (`Vigil.kept`).

Main statement: `Watch.waits_cut_short`.
-/

set_option autoImplicit false

namespace LeaseQueue

open StopSignal (Change Timetable)

/-! ## Channels and receivers -/

/-- What was said last, how often something has been said, and whether there is still somebody who
can say it. -/
structure Channel where
  raised : Bool
  version : Nat
  owned : Bool
deriving DecidableEq, Repr

namespace Channel

/-- Nothing has been said, and the sign is not given. -/
def initial : Channel := ⟨false, 0, true⟩

/-- The sign that is kept in a channel. -/
def sign (c : Channel) : StopSignal := ⟨c.raised, c.owned⟩

/-- The channel after a change. -/
def apply (c : Channel) : Change → Channel
  | .say stop => if c.owned then { c with raised := stop, version := c.version + 1 } else c
  | .leave => { c with owned := false }

/-- The sign of a channel changes as the channel does. -/
theorem sign_apply (c : Channel) (x : Change) : (c.apply x).sign = c.sign.apply x := by
  cases x with
  | say stop =>
    unfold apply StopSignal.apply sign
    dsimp only
    split <;> rfl
  | leave => rfl

/-- Versions only grow, and what was said last has changed only if the version has. -/
theorem version_apply (c : Channel) (x : Change) :
    c.version < (c.apply x).version ∨
      (c.apply x).version = c.version ∧ (c.apply x).raised = c.raised := by
  cases x with
  | say stop =>
    unfold apply
    dsimp only
    split
    · exact .inl (Nat.lt_succ_self _)
    · exact .inr ⟨rfl, rfl⟩
  | leave => exact .inr ⟨rfl, rfl⟩

end Channel

/-- One who watches a channel and remembers the version that was seen last. -/
structure Receiver where
  seen : Nat
deriving DecidableEq, Repr

namespace Receiver

/-- What was said last; it does not count as seen by this. -/
def borrow (_ : Receiver) (c : Channel) : Bool := c.raised

/-- Whether something has been said that was not seen; no answer once there is nobody to say it. -/
def hasChanged? (r : Receiver) (c : Channel) : Option Bool :=
  if c.owned then some (r.seen != c.version) else none

/-- Whether a loop with this receiver is told to stop. -/
def isStopped (r : Receiver) (c : Channel) : Bool := r.borrow c || (r.hasChanged? c).isNone

/-- A look for the sign: nothing if there is no more to look for, and the receiver as it goes on
otherwise.  What was said last is looked at the first time, and after that if it was not seen. -/
def look (r : Receiver) (first : Bool) (c : Channel) : Option Receiver :=
  if (first || r.seen != c.version) && c.raised then none
  else if c.owned then some ⟨c.version⟩
  else none

/-- What a receiver has seen does not matter to whether it is told to stop. -/
theorem isStopped_eq (r : Receiver) (c : Channel) : r.isStopped c = c.sign.isStopped := by
  unfold isStopped hasChanged? StopSignal.isStopped
  cases hc : c.owned <;> simp [borrow, Channel.sign, hc]

end Receiver

/-! ## Timetables -/

/-- What an owner does at different times. -/
structure Schedule where
  changes : Timetable
  increasing : changes.Pairwise fun a b => a.1 < b.1

namespace StopSignal

/-- What is said by a change. -/
def Change.said? : Change → Option Bool
  | .say stop => some stop
  | .leave => none

/-- What was said last. -/
def lastSaid? (changes : Timetable) : Option Bool :=
  (changes.filterMap fun x => x.2.said?).getLast?

/-- To stop was said last, or the owner has left. -/
def Given (changes : Timetable) : Prop :=
  lastSaid? changes = some true ∨ .leave ∈ changes.map Prod.snd

/-- The sign after all changes of a timetable. -/
def following (changes : Timetable) : StopSignal :=
  changes.foldl (fun s x => s.apply x.2) .initial

/-- One more change is made to what the earlier ones have come to. -/
theorem following_concat (changes : Timetable) (x : Tick × Change) :
    following (changes ++ [x]) = (following changes).apply x.2 := by
  rw [following, List.foldl_append]
  rfl

/-- What is said last counts. -/
theorem lastSaid?_concat (changes : Timetable) (x : Tick × Change) :
    lastSaid? (changes ++ [x]) = x.2.said?.or (lastSaid? changes) := by
  rw [lastSaid?, List.filterMap_append, List.getLast?_append]
  obtain ⟨t, c⟩ := x
  cases c <;> rfl

/-- Until the owner leaves the sign is what was said last. -/
theorem following_eq (changes : Timetable) :
    (following changes).owned = !decide (.leave ∈ changes.map Prod.snd) ∧
      (.leave ∉ changes.map Prod.snd →
        (following changes).raised = (lastSaid? changes).getD false) := by
  induction changes using List.reverseRecOn with
  | nil => exact ⟨rfl, fun _ => rfl⟩
  | append_singleton changes x ih =>
    obtain ⟨howned, hraised⟩ := ih
    obtain ⟨t, c⟩ := x
    rw [following_concat, lastSaid?_concat]
    cases c with
    | leave => simp [StopSignal.apply]
    | say stop =>
      by_cases hleft : Change.leave ∈ changes.map Prod.snd
      · simp [StopSignal.apply, howned, hleft]
      · simp [StopSignal.apply, howned, hleft, Change.said?]

/-- The changes have come to a stop just when the sign is given. -/
theorem isStopped_following_iff (changes : Timetable) :
    (following changes).isStopped = true ↔ Given changes := by
  obtain ⟨howned, hraised⟩ := following_eq changes
  unfold StopSignal.isStopped Given
  by_cases hleft : Change.leave ∈ changes.map Prod.snd
  · simp [howned, hleft]
  · rw [hraised hleft, howned]
    cases lastSaid? changes <;> simp [hleft]

/-- From a moment on at which `past` has happened and `ahead` is to come, the sign is given at a
time.  A change and what is not changed yet both belong to the time of the change. -/
def GivenAt (past ahead : Timetable) (start t : Tick) : Prop :=
  ∃ before after, ahead = before ++ after ∧ start ≤ t ∧ (∀ x ∈ before, x.1 ≤ t) ∧
    (∀ x ∈ after, t ≤ x.1) ∧ Given (past ++ before)

variable {past rest : Timetable} {start t u : Tick} {x : Change}

/-- With nothing to come the sign stays as it is. -/
theorem not_givenAt_nil (hnot : ¬ Given past) : ¬ GivenAt past [] start u := by
  rintro ⟨before, after, hsplit, -, -, -, hgiven⟩
  obtain ⟨rfl, -⟩ := List.append_eq_nil_iff.1 hsplit.symm
  exact hnot (List.append_nil past ▸ hgiven)

/-- A sign that is not given is not given before the next change. -/
theorem givenAt_cons_iff (hnot : ¬ Given past) (hle : start ≤ t) :
    GivenAt past ((t, x) :: rest) start u ↔ GivenAt (past ++ [(t, x)]) rest t u := by
  constructor
  · rintro ⟨before, after, hsplit, hstart, hbefore, hafter, hgiven⟩
    cases before with
    | nil => exact absurd (List.append_nil past ▸ hgiven) hnot
    | cons y before =>
      obtain ⟨rfl, hrest⟩ := List.cons.inj hsplit
      refine ⟨before, after, hrest, hbefore _ List.mem_cons_self, ?_, hafter, ?_⟩
      · exact fun z hz => hbefore z (List.mem_cons_of_mem _ hz)
      · rw [← List.append_cons]
        exact hgiven
  · rintro ⟨before, after, rfl, hstart, hbefore, hafter, hgiven⟩
    refine ⟨(t, x) :: before, after, rfl, Nat.le_trans hle hstart, ?_, hafter, ?_⟩
    · exact List.forall_mem_cons.2 ⟨hstart, hbefore⟩
    · rw [List.append_cons]
      exact hgiven

end StopSignal

open StopSignal (Given GivenAt following)

/-! ## Moments -/

/-- A channel in the course of time. -/
structure Moment where
  time : Tick
  channel : Channel
  /-- What has been done. -/
  past : Timetable

namespace Moment

/-- The moment after the next change. -/
def change (m : Moment) (t : Tick) (x : Change) : Moment :=
  ⟨max m.time t, m.channel.apply x, m.past ++ [(t, x)]⟩

/-- The moment lies between what has been done and what is to come, and the channel keeps the sign
as the past has left it. -/
structure Stands (schedule : Schedule) (m : Moment) (ahead : Timetable) : Prop where
  changes : schedule.changes = m.past ++ ahead
  past : ∀ x ∈ m.past, x.1 ≤ m.time
  ahead : ∀ x ∈ ahead, m.time ≤ x.1
  sign : m.channel.sign = following m.past

variable {schedule : Schedule} {m : Moment} {ahead rest : Timetable} {t : Tick} {x : Change}

/-- The changes ahead come one after the other. -/
theorem Stands.increasing (h : m.Stands schedule ahead) :
    ahead.Pairwise fun a b => a.1 < b.1 := by
  have hall := schedule.increasing
  rw [h.changes] at hall
  exact (List.pairwise_append.1 hall).2.1

/-- A change is made at its time. -/
theorem Stands.time_change (h : m.Stands schedule ((t, x) :: rest)) : (m.change t x).time = t :=
  Nat.max_eq_right (h.ahead (t, x) List.mem_cons_self)

/-- After a change the moment stands before the rest of the schedule. -/
theorem Stands.change (h : m.Stands schedule ((t, x) :: rest)) :
    (m.change t x).Stands schedule rest where
  changes := by
    rw [h.changes]
    exact List.append_cons ..
  past := by
    rw [h.time_change]
    intro y hy
    rcases List.mem_append.1 hy with hy | hy
    · exact Nat.le_trans (h.past y hy) (h.ahead (t, x) List.mem_cons_self)
    · obtain rfl := List.mem_singleton.1 hy
      exact Nat.le_refl t
  ahead := by
    rw [h.time_change]
    exact fun y hy => Nat.le_of_lt ((List.pairwise_cons.1 h.increasing).1 y hy)
  sign := by
    show (m.channel.apply x).sign = following (m.past ++ [(t, x)])
    rw [Channel.sign_apply, h.sign, StopSignal.following_concat]

/-- Time may pass up to the next change. -/
theorem Stands.later (h : m.Stands schedule ahead) (hle : m.time ≤ t)
    (hahead : ∀ y ∈ ahead, t ≤ y.1) : ({ m with time := t } : Moment).Stands schedule ahead where
  changes := h.changes
  past y hy := Nat.le_trans (h.past y hy) hle
  ahead := hahead
  sign := h.sign

/-- A receiver reads a stop just when the sign has been given. -/
theorem Stands.isStopped_iff (h : m.Stands schedule ahead) :
    m.channel.sign.isStopped = true ↔ Given m.past := by
  rw [h.sign, StopSignal.isStopped_following_iff]

end Moment

/-! ## Waits -/

/-- A wait that is under way. -/
structure Vigil where
  /-- The copy of a receiver that looks for the sign. -/
  copy : Receiver
  /-- Whether it has not looked yet. -/
  first : Bool
  /-- The end of the wait if the sign is not given. -/
  limit : Tick

namespace Vigil

/-- A look for the sign: nothing if there is no more to look for, and how the wait goes on
otherwise. -/
def look (v : Vigil) (c : Channel) : Option Vigil :=
  (v.copy.look v.first c).map fun copy => { v with copy := copy, first := false }

/-- Waits: after every change there is a look for the sign, and while it is not given, time passes
to the next change or to the end of the wait.  A change at the very end comes before it; if it came
after, the wait would end at the same time. -/
def keep (v : Vigil) (m : Moment) : Timetable → Moment × Timetable
  | [] =>
    match v.look m.channel with
    | none => (m, [])
    | some v => ({ m with time := v.limit }, [])
  | (t, x) :: rest =>
    match v.look m.channel with
    | none => (m, (t, x) :: rest)
    | some v =>
      if v.limit < t then ({ m with time := v.limit }, (t, x) :: rest)
      else v.keep (m.change t x) rest

/-- To stop is not what the copy has seen last. -/
def Attentive (v : Vigil) (c : Channel) : Prop :=
  v.first = true ∨ v.copy.seen ≤ c.version ∧ (v.copy.seen = c.version → c.raised = false)

variable {v v' : Vigil} {m : Moment} {c : Channel} {schedule : Schedule} {ahead rest : Timetable}
  {e : Moment × Timetable} {t : Tick} {x : Change}

/-- An attentive receiver stays so after a change. -/
theorem Attentive.apply (h : v.Attentive c) (x : Change) : v.Attentive (c.apply x) := by
  rcases h with hfirst | ⟨hle, hseen⟩
  · exact .inl hfirst
  · refine .inr ?_
    rcases c.version_apply x with hgrown | ⟨hversion, hraised⟩
    · exact ⟨by omega, fun hsame => by omega⟩
    · rw [hversion, hraised]
      exact ⟨hle, hseen⟩

/-- There is no more to look for exactly if the sign is given, whatever has been seen. -/
theorem look_eq_none_iff (h : v.Attentive c) :
    v.look c = none ↔ c.sign.isStopped = true := by
  rw [look, Option.map_eq_none_iff]
  unfold Receiver.look StopSignal.isStopped Channel.sign
  cases hraised : c.raised with
  | false => cases c.owned <;> simp
  | true =>
    -- the sign that is given is new to the copy
    have hnew : (v.first || v.copy.seen != c.version) = true := by
      rcases h with hfirst | ⟨-, hseen⟩
      · rw [hfirst, Bool.true_or]
      · have hne : v.copy.seen ≠ c.version := fun hsame => by
          rw [hseen hsame] at hraised
          cases hraised
        rw [bne_iff_ne.2 hne, Bool.or_true]
    simp [hnew]

/-- A wait that goes on has seen everything, and that was not to stop. -/
theorem look_eq_some (h : v.Attentive c) (hlook : v.look c = some v') :
    c.sign.isStopped = false ∧ v'.limit = v.limit ∧ v'.Attentive c := by
  have hsign : c.sign.isStopped = false := by
    rw [← Bool.not_eq_true, ← look_eq_none_iff h, hlook]
    exact Option.some_ne_none v'
  have hraised : c.raised = false := (Bool.or_eq_false_iff.1 hsign).1
  unfold look Receiver.look at hlook
  rw [hraised, Bool.and_false, if_neg Bool.false_ne_true] at hlook
  obtain ⟨copy, hcopy, rfl⟩ := Option.map_eq_some_iff.1 hlook
  refine ⟨hsign, rfl, .inr ?_⟩
  split at hcopy
  · cases hcopy
    exact ⟨Nat.le_refl _, fun _ => hraised⟩
  · cases hcopy

/-! ### When a wait ends -/

/-- A wait from a moment on has come to an end. -/
structure Kept (v : Vigil) (schedule : Schedule) (m : Moment) (ahead : Timetable)
    (e : Moment × Timetable) : Prop where
  stands : e.1.Stands schedule e.2
  /-- It is the first time at which the wait is to end. -/
  isLeast : IsLeast {u | u = v.limit ∨ GivenAt m.past ahead m.time u} e.1.time
  cut_short : e.1.time < v.limit → e.1.channel.sign.isStopped = true
  eq_wait : m.channel.sign.wait m.time v.limit ahead = ⟨e.1.time, e.1.channel.sign, e.2⟩

/-- The sign is given when the wait begins. -/
theorem Kept.of_isStopped (h : m.Stands schedule ahead) (hle : m.time ≤ v.limit)
    (hstopped : m.channel.sign.isStopped = true) : v.Kept schedule m ahead (m, ahead) where
  stands := h
  isLeast := by
    refine ⟨.inr ⟨[], ahead, rfl, Nat.le_refl _, nofun, h.ahead, ?_⟩, ?_⟩
    · rw [List.append_nil]
      exact h.isStopped_iff.1 hstopped
    · rintro u (rfl | ⟨-, -, -, hstart, -⟩)
      · exact hle
      · exact hstart
  cut_short _ := hstopped
  eq_wait := by
    cases ahead with
    | nil => rw [StopSignal.wait, if_pos hstopped]
    | cons x rest => rw [StopSignal.wait, if_pos hstopped]

/-- The sign is not given before the end of the wait. -/
theorem Kept.of_limit (h : m.Stands schedule ahead) (hle : m.time ≤ v.limit)
    (hsign : m.channel.sign.isStopped = false) (hlate : ∀ x ∈ ahead, v.limit < x.1) :
    v.Kept schedule m ahead ({ m with time := v.limit }, ahead) where
  stands := h.later hle fun x hx => Nat.le_of_lt (hlate x hx)
  isLeast := by
    have hnot : ¬ Given m.past := by rw [← h.isStopped_iff, hsign]; exact Bool.false_ne_true
    refine ⟨.inl rfl, ?_⟩
    rintro u (rfl | hgiven)
    · exact Nat.le_refl _
    · cases ahead with
      | nil => exact absurd hgiven (StopSignal.not_givenAt_nil hnot)
      | cons x rest =>
        obtain ⟨-, -, -, hlater, -⟩ :=
          (StopSignal.givenAt_cons_iff hnot (h.ahead x List.mem_cons_self)).1 hgiven
        exact Nat.le_trans (Nat.le_of_lt (hlate x List.mem_cons_self)) hlater
  cut_short hlt := absurd hlt (Nat.lt_irrefl _)
  eq_wait := by
    cases ahead with
    | nil => simp [StopSignal.wait, hsign]
    | cons x rest => simp [StopSignal.wait, hsign, hlate x List.mem_cons_self]

/-- The wait goes on after the next change. -/
theorem Kept.of_change (h : m.Stands schedule ((t, x) :: rest))
    (hsign : m.channel.sign.isStopped = false) (hlimit : v'.limit = v.limit) (hsoon : t ≤ v.limit)
    (hkept : v'.Kept schedule (m.change t x) rest e) :
    v.Kept schedule m ((t, x) :: rest) e where
  stands := hkept.stands
  isLeast := by
    have hnot : ¬ Given m.past := by rw [← h.isStopped_iff, hsign]; exact Bool.false_ne_true
    have hgiven (u : Tick) : GivenAt m.past ((t, x) :: rest) m.time u ↔
        GivenAt (m.change t x).past rest (m.change t x).time u := by
      rw [h.time_change]
      exact StopSignal.givenAt_cons_iff hnot (h.ahead (t, x) List.mem_cons_self)
    simp only [hgiven, ← hlimit]
    exact hkept.isLeast
  cut_short hlt := hkept.cut_short (hlimit ▸ hlt)
  eq_wait := by
    rw [StopSignal.wait, if_neg (Bool.eq_false_iff.1 hsign), if_neg (Nat.not_lt.2 hsoon),
      ← Channel.sign_apply, ← hlimit]
    exact hkept.eq_wait

/-- A wait ends as it is to end: by induction on the changes that are to come. -/
theorem kept (hattentive : v.Attentive m.channel) (h : m.Stands schedule ahead)
    (hle : m.time ≤ v.limit) : v.Kept schedule m ahead (v.keep m ahead) := by
  induction ahead generalizing v m with
  | nil =>
    unfold keep
    cases hlook : v.look m.channel with
    | none => exact .of_isStopped h hle ((look_eq_none_iff hattentive).1 hlook)
    | some v' =>
      obtain ⟨hsign, hlimit, -⟩ := look_eq_some hattentive hlook
      dsimp only
      rw [hlimit]
      exact .of_limit h hle hsign nofun
  | cons y rest ih =>
    obtain ⟨t, x⟩ := y
    unfold keep
    cases hlook : v.look m.channel with
    | none => exact .of_isStopped h hle ((look_eq_none_iff hattentive).1 hlook)
    | some v' =>
      obtain ⟨hsign, hlimit, hseen⟩ := look_eq_some hattentive hlook
      dsimp only
      split
      · next hlate =>
        rw [hlimit] at hlate ⊢
        refine .of_limit h hle hsign (List.forall_mem_cons.2 ⟨hlate, fun z hz => ?_⟩)
        exact Nat.lt_trans hlate ((List.pairwise_cons.1 h.increasing).1 z hz)
      · next hsoon =>
        have hsoon : t ≤ v'.limit := Nat.not_lt.1 hsoon
        refine .of_change h hsign hlimit (hlimit ▸ hsoon) (ih (hseen.apply x) h.change ?_)
        rw [h.time_change]
        exact hsoon

end Vigil

/-! ## Loops that watch the sign -/

/-- A loop that watches the sign in the course of time. -/
structure Watch where
  /-- The receiver of the loop. -/
  receiver : Receiver
  moment : Moment
  /-- What is to be done. -/
  ahead : Timetable

namespace Watch

/-- The beginning of a timetable. -/
def start (r : Receiver) (schedule : Schedule) : Watch :=
  ⟨r, ⟨0, .initial, []⟩, schedule.changes⟩

/-- Whether the loop is told to stop. -/
def isStopped (w : Watch) : Bool := w.receiver.isStopped w.moment.channel

/-- The sign that the loop watches. -/
def sign (w : Watch) : StopSignal := w.moment.channel.sign

/-- A wait of the loop: a copy of its receiver looks for the sign. -/
def wait (w : Watch) (d : Duration) : Watch :=
  let e := Vigil.keep ⟨w.receiver, true, waitEnd w.moment.time d⟩ w.moment w.ahead
  { w with moment := e.1, ahead := e.2 }

/-- What can happen. -/
inductive Act
  /-- The next change. -/
  | next
  /-- Time passes, at most up to the next change. -/
  | pass (d : Duration)
  | wait (d : Duration)

/-- One act. -/
def step (w : Watch) : Act → Watch
  | .next =>
    match w.ahead with
    | [] => w
    | (t, x) :: rest => { w with moment := w.moment.change t x, ahead := rest }
  | .pass d =>
    let later := w.moment.time + d.nanos
    { w with moment.time := (w.ahead.head?.elim later fun x => min later x.1) }
  | .wait d => w.wait d

/-- The loop after some acts. -/
def run (w : Watch) (acts : List Act) : Watch := acts.foldl step w

/-- How the loop heeds the sign, now and in a wait from now on. -/
structure Heeds (schedule : Schedule) (w : Watch) : Prop where
  stands : w.moment.Stands schedule w.ahead
  /-- It is told to stop exactly if that was said last, or if the owner has left. -/
  isStopped_iff : w.isStopped = true ↔ Given w.moment.past
  /-- A wait is over as soon as its time is or the sign is given. -/
  wait_isLeast : ∀ d, w.moment.time + d.nanos < tickLimit →
    IsLeast {t | t = w.moment.time + d.nanos ∨ GivenAt w.moment.past w.ahead w.moment.time t}
      (w.wait d).moment.time
  /-- After a wait that was cut short the loop is told to stop. -/
  wait_cut_short : ∀ d, w.moment.time + d.nanos < tickLimit →
    (w.wait d).moment.time < w.moment.time + d.nanos → (w.wait d).isStopped = true
  /-- The sign alone says all this, without what the receivers remember. -/
  isStopped_sign : w.isStopped = w.sign.isStopped
  wait_sign : ∀ d, w.sign.wait w.moment.time (waitEnd w.moment.time d) w.ahead =
    ⟨(w.wait d).moment.time, (w.wait d).sign, (w.wait d).ahead⟩

variable {schedule : Schedule} {w : Watch}

/-- A wait does not end before it begins. -/
theorem le_waitEnd (t : Tick) (d : Duration) : t ≤ waitEnd t d := by
  unfold waitEnd
  split <;> exact Nat.le_add_right ..

/-- A wait from a moment of the timetable has come to its end. -/
theorem kept_wait (h : w.moment.Stands schedule w.ahead) (d : Duration) :
    Vigil.Kept ⟨w.receiver, true, waitEnd w.moment.time d⟩ schedule w.moment w.ahead
      ((w.wait d).moment, (w.wait d).ahead) :=
  Vigil.kept (.inl rfl) h (le_waitEnd ..)

/-- A loop heeds the sign at every moment of the timetable. -/
theorem heeds_of_stands (h : w.moment.Stands schedule w.ahead) : w.Heeds schedule := by
  have hsign (w : Watch) : w.isStopped = w.sign.isStopped := w.receiver.isStopped_eq _
  have hend {d : Duration} (hd : w.moment.time + d.nanos < tickLimit) :
      waitEnd w.moment.time d = w.moment.time + d.nanos := if_pos hd
  exact {
    stands := h
    isStopped_iff := by rw [hsign]; exact h.isStopped_iff
    wait_isLeast := fun d hd => hend hd ▸ (kept_wait h d).isLeast
    wait_cut_short := fun d hd hlt => by
      rw [hsign]
      exact (kept_wait h d).cut_short (by rw [hend hd]; exact hlt)
    isStopped_sign := hsign w
    wait_sign := fun d => (kept_wait h d).eq_wait }

/-- Whatever happens, the timetable is kept. -/
theorem stands_step (h : w.moment.Stands schedule w.ahead) (act : Act) :
    (w.step act).moment.Stands schedule (w.step act).ahead := by
  cases act with
  | next =>
    obtain ⟨receiver, moment, ahead⟩ := w
    cases ahead with
    | nil => exact h
    | cons y rest => exact h.change
  | pass d =>
    refine h.later ?_ ?_
    · cases hahead : w.ahead with
      | nil => exact Nat.le_add_right ..
      | cons y rest =>
        exact Nat.le_min.2 ⟨Nat.le_add_right .., h.ahead y (hahead ▸ List.mem_cons_self)⟩
    · cases hahead : w.ahead with
      | nil => exact nofun
      | cons y rest =>
        have hincreasing := List.pairwise_cons.1 (hahead ▸ h.increasing)
        refine List.forall_mem_cons.2 ⟨Nat.min_le_right .., fun z hz => ?_⟩
        exact Nat.le_trans (Nat.min_le_right ..) (Nat.le_of_lt (hincreasing.1 z hz))
  | wait d => exact (kept_wait h d).stands

/-- Whatever is done, the moment stands in the schedule. -/
theorem stands_run (h : w.moment.Stands schedule w.ahead) (acts : List Act) :
    (w.run acts).moment.Stands schedule (w.run acts).ahead := by
  induction acts generalizing w with
  | nil => exact h
  | cons act rest ih => exact ih (stands_step h act)

/-- At first the moment stands before the whole schedule. -/
theorem stands_start (r : Receiver) (schedule : Schedule) :
    (start r schedule).moment.Stands schedule (start r schedule).ahead where
  changes := rfl
  past := nofun
  ahead _ _ := Nat.zero_le _
  sign := rfl

/-- Whatever is said at whatever times, whatever a loop has seen of it and however often it has
waited before, a wait of the loop ends at the first time at which its own time is over or the sign
is given, and the loop is told to stop exactly while the sign is given. -/
theorem waits_cut_short (schedule : Schedule) (r : Receiver) (acts : List Act) :
    ((start r schedule).run acts).Heeds schedule :=
  heeds_of_stands (stands_run (stands_start r schedule) acts)

/-- A sign that was given and taken back does not cut a wait short; that its owner leaves does. -/
example :
    let schedule : Schedule := ⟨[(10, .say true), (20, .say false), (30, .leave)], by decide⟩
    let waited := (start ⟨0⟩ schedule).run [.next, .wait (.ofNanos 5), .next, .wait (.ofNanos 50)]
    waited.moment.time = 30 ∧ waited.isStopped = true := by
  decide

end Watch

end LeaseQueue
