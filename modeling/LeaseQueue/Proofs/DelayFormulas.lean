import Mathlib.Data.List.Forall2
import LeaseQueue.Schedule
import LeaseQueue.Task

/-!
# The delays of schedules and their formulas

A schedule is meant to follow a formula over the attempts, cut to the longest delay.  It computes
with durations that stop at their own end and with powers that fit 32 bits, so the question is
whether any of this is ever seen.

Sums and products are cut long after the longest delay is passed, so constant and arithmetic
schedules follow their formulas at every attempt.  A power that passes 32 bits is taken for the
longest delay, which is right unless the first delay is so short that the product stays below
(`nanos_geometricDelay_eq_iff`).  The geometric lease begins with a minute and doubles, so it
follows its formula (`LeaseSchedule.leases_follow_formulas`); a geometric reenqueue schedule that
begins with nothing or a few milliseconds does not (`ReenqueueSchedule.delay_eq_formula_iff`).
-/

set_option autoImplicit false

namespace LeaseQueue

open Text

variable {ε ε' α β : Type}

/-! ## Values that may be missing -/

/-- A sequence succeeds only if both of its parts do. -/
theorem exists_of_bind_eq_ok {x : Except ε α} {f : α → Except ε β} {b : β}
    (h : (x >>= f) = .ok b) : ∃ a, x = .ok a ∧ f a = .ok b := by
  cases x with
  | error e => cases h
  | ok a => exact ⟨a, rfl, h⟩

/-- What is mapped succeeds only if it did before. -/
theorem exists_of_map_eq_ok {x : Except ε α} {f : α → β} {b : β} (h : x.map f = .ok b) :
    ∃ a, x = .ok a ∧ f a = b := by
  cases x with
  | error e => cases h
  | ok a =>
    cases h
    exact ⟨a, rfl, rfl⟩

/-- A result that is no error is the same with errors put differently. -/
theorem of_mapError_eq_ok {x : Except ε α} {f : ε → ε'} {a : α} (h : x.mapError f = .ok a) :
    x = .ok a := by
  cases x with
  | error e => cases h
  | ok b =>
    cases h
    rfl

/-- A list of parts that may fail comes to a list of values exactly if each part comes to its
value. -/
theorem mapM_eq_ok_iff {f : α → Except ε β} {xs : List α} {ys : List β} :
    xs.mapM f = .ok ys ↔ List.Forall₂ (fun x y => f x = .ok y) xs ys := by
  induction xs generalizing ys with
  | nil => cases ys <;> simp [pure, Except.pure]
  | cons x xs ih =>
    rw [List.mapM_cons]
    cases hx : f x with
    | error e => cases ys <;> simp [bind, Except.bind, hx]
    | ok y =>
      cases hxs : xs.mapM f with
      | error e => cases ys <;> simp [bind, Except.bind, ← ih, hxs, hx]
      | ok ys' => cases ys <;> simp [bind, Except.bind, pure, Except.pure, ← ih, hxs, hx]

/-! ## Arithmetic up to the longest delay -/

/-- A capped delay is the delay or the longest one, whichever is shorter. -/
theorem nanos_capped (d : Duration) : (capped d).nanos = min maxDelay.nanos d.nanos := by
  rw [capped, Duration.nanos_shorter, Nat.min_comm]

/-- A capped delay is at most the longest one. -/
theorem nanos_capped_le (d : Duration) : (capped d).nanos ≤ maxDelay.nanos := by
  rw [nanos_capped]
  exact Nat.min_le_left _ _

/-- That a product stops at the longest duration is not seen. -/
theorem nanos_capped_scale (d : Duration) (n : Nat) :
    (capped (d.scale n)).nanos = min maxDelay.nanos (d.nanos * n) := by
  have hmax : maxDelay.nanos ≤ Duration.longest.nanos := maxDelay.nanos_le_longest
  rw [nanos_capped, Duration.scale, Duration.nanos_ofNanos]
  omega

/-- Nor is it that the sum does, or the product in it. -/
theorem nanos_arithmeticDelay (initial step : Duration) (n : Nat) :
    (arithmeticDelay initial step n).nanos =
      min maxDelay.nanos (initial.nanos + n * step.nanos) := by
  have hmax : maxDelay.nanos ≤ Duration.longest.nanos := maxDelay.nanos_le_longest
  rw [arithmeticDelay, nanos_capped, Duration.add, Duration.nanos_ofNanos, Duration.scale,
    Duration.nanos_ofNanos, Nat.mul_comm step.nanos n]
  omega

/-- A power is given exactly if it fits 32 bits. -/
theorem powWord32?_eq (base exponent : Nat) :
    powWord32? base exponent =
      if base.pow exponent ≤ maxWord32 then some (base.pow exponent) else none := by
  unfold powWord32?
  split
  · next hbase =>
    have hpow : base.pow exponent = if exponent = 0 then 1 else base := by
      obtain rfl | rfl : base = 0 ∨ base = 1 := by omega
      · cases exponent with
        | zero => rfl
        | succ n => simp [Nat.pow_eq]
      · simp [Nat.pow_eq]
    have hfits : (if exponent = 0 then 1 else base) ≤ maxWord32 := by
      split
      · decide
      · exact Nat.le_trans hbase (by decide)
    rw [hpow, if_pos hfits]
  · next hbase =>
    split
    · next hexponent =>
      have hlarge : maxWord32 < base.pow exponent := by
        calc maxWord32 < Nat.pow 2 32 := by decide
          _ ≤ Nat.pow 2 exponent := Nat.pow_le_pow_right (by decide) hexponent
          _ ≤ base.pow exponent := Nat.pow_le_pow_left (by omega) exponent
      rw [if_neg (Nat.not_le.2 hlarge)]
    · rfl

/-- A geometric delay is cut to the longest one as soon as its power passes 32 bits. -/
theorem nanos_geometricDelay (initial : Duration) (ratio n : Nat) :
    (geometricDelay initial ratio n).nanos =
      if ratio.pow n ≤ maxWord32 then min maxDelay.nanos (initial.nanos * ratio.pow n)
      else maxDelay.nanos := by
  rw [geometricDelay, powWord32?_eq]
  by_cases hfits : ratio.pow n ≤ maxWord32
  · simp only [if_pos hfits]
    exact nanos_capped_scale initial _
  · simp only [if_neg hfits]

/-- Cutting the power is seen if the power passes 32 bits before the delay passes the
longest one. -/
theorem nanos_geometricDelay_eq_iff (initial : Duration) (ratio n : Nat) :
    (geometricDelay initial ratio n).nanos = min maxDelay.nanos (initial.nanos * ratio.pow n) ↔
      ¬ (maxWord32 < ratio.pow n ∧ initial.nanos * ratio.pow n < maxDelay.nanos) := by
  rw [nanos_geometricDelay]
  split <;> omega

/-- A schedule that doubles and begins with a minute passes the longest delay first. -/
theorem maxDelay_le_doubled {n : Nat} (h : maxWord32 < Nat.pow 2 n) :
    maxDelay.nanos ≤ (Duration.ofSeconds 60).nanos * Nat.pow 2 n :=
  calc maxDelay.nanos ≤ (Duration.ofSeconds 60).nanos * maxWord32 := by decide
    _ ≤ (Duration.ofSeconds 60).nanos * Nat.pow 2 n := Nat.mul_le_mul_left _ (Nat.le_of_lt h)

/-! ## Leases -/

namespace LeaseSchedule

/-- The lease schedules that settings set. -/
inductive SetBy (s : Settings) : LeaseSchedule → Prop
  | geometric (hkind : s.leaseKind = .geometricBackoff) : SetBy s (.geometric (.ofSeconds 60))
  | arithmetic (hkind : s.leaseKind = .arithmeticBackoff) :
    SetBy s (.arithmetic (.ofSeconds 60) (.ofSeconds 120))
  | fixed {delay : Duration} (hkind : s.leaseKind = .fixedInterval)
    (hdelay : s.requiredDuration fixedDelayKey = .ok delay) : SetBy s (.fixed delay)

/-- A lease schedule that is made of settings is one that they set. -/
theorem setBy_of_ofSettings {s : Settings} {schedule : LeaseSchedule}
    (h : ofSettings s = .ok schedule) : schedule.SetBy s := by
  unfold ofSettings at h
  split at h
  · next hkind =>
    cases h
    exact .geometric hkind
  · next hkind =>
    cases h
    exact .arithmetic hkind
  · next hkind =>
    obtain ⟨delay, hdelay, rfl⟩ := exists_of_map_eq_ok h
    exact .fixed hkind hdelay

/-- The lease of the `n`-th pick in nanoseconds, before it is cut to the longest delay. -/
def formula : LeaseSchedule → Nat → Nat
  | .arithmetic initial step, n => initial.nanos + (n - 1) * step.nanos
  | .geometric initial, n => initial.nanos * Nat.pow 2 (n - 1)
  | .fixed delay, _ => delay.nanos

/-- What the formula adds from one pick to the next. -/
def nextFormula : LeaseSchedule → Nat → Nat
  | .arithmetic _ step, lease => lease + step.nanos
  | .geometric _, lease => 2 * lease
  | .fixed _, lease => lease

/-- The leases of a schedule are those of its formula, cut to the longest delay. -/
structure FollowsFormula (schedule : LeaseSchedule) : Prop where
  exact : ∀ attempts, (schedule.delay attempts).nanos =
    min maxDelay.nanos (schedule.formula (max attempts 1))
  /-- Up to the cut a lease is the one before with the step added, or twice the one before. -/
  grows : ∀ n, 1 ≤ n → (schedule.delay (n + 1)).nanos =
    min maxDelay.nanos (schedule.nextFormula (schedule.delay n).nanos)
  monotone : ∀ m n, m ≤ n → (schedule.delay m).nanos ≤ (schedule.delay n).nanos

/-- The formula at the next pick is what it adds to the one at this pick. -/
theorem formula_succ (schedule : LeaseSchedule) {n : Nat} (h : 1 ≤ n) :
    schedule.formula (n + 1) = schedule.nextFormula (schedule.formula n) := by
  obtain ⟨k, rfl⟩ : ∃ k, n = k + 1 := ⟨n - 1, by omega⟩
  cases schedule with
  | arithmetic initial step =>
    simp only [formula, nextFormula, Nat.add_sub_cancel]
    rw [Nat.succ_mul, Nat.add_assoc]
  | geometric initial =>
    simp only [formula, nextFormula, Nat.add_sub_cancel, Nat.pow_eq, Nat.pow_succ]
    rw [← Nat.mul_assoc, Nat.mul_comm]
  | fixed delay => rfl

/-- The formula never falls from one pick to the next. -/
theorem le_nextFormula (schedule : LeaseSchedule) (lease : Nat) :
    lease ≤ schedule.nextFormula lease := by
  cases schedule <;> simp only [nextFormula] <;> omega

/-- Whether a lease is cut before or after the next one is made of it is not seen. -/
theorem min_nextFormula (schedule : LeaseSchedule) (longest lease : Nat) :
    min longest (schedule.nextFormula (min longest lease)) =
      min longest (schedule.nextFormula lease) := by
  cases schedule <;> simp only [nextFormula] <;> omega

/-- A schedule follows its formula in everything if its single leases do. -/
theorem FollowsFormula.of_exact {schedule : LeaseSchedule}
    (hexact : ∀ attempts, (schedule.delay attempts).nanos =
      min maxDelay.nanos (schedule.formula (max attempts 1))) : schedule.FollowsFormula := by
  have hgrows : ∀ n, 1 ≤ n → (schedule.delay (n + 1)).nanos =
      min maxDelay.nanos (schedule.nextFormula (schedule.delay n).nanos) := by
    intro n hn
    rw [hexact, hexact, min_nextFormula, Nat.max_eq_left hn, Nat.max_eq_left (Nat.le_succ_of_le hn),
      formula_succ schedule hn]
  have hstep : ∀ n, (schedule.delay n).nanos ≤ (schedule.delay (n + 1)).nanos := by
    intro n
    cases n with
    | zero =>
      rw [hexact, hexact]
      exact Nat.le_refl _
    | succ k =>
      have hcut : (schedule.delay (k + 1)).nanos ≤ maxDelay.nanos := by
        rw [hexact]
        exact Nat.min_le_left _ _
      rw [hgrows (k + 1) (Nat.succ_pos k)]
      exact Nat.le_min.2 ⟨hcut, schedule.le_nextFormula _⟩
  refine ⟨hexact, hgrows, fun m n hmn => ?_⟩
  induction hmn with
  | refl => exact Nat.le_refl _
  | step _ ih => exact Nat.le_trans ih (hstep _)

/-- An arithmetic lease follows its formula, whatever its first delay and its step. -/
theorem arithmetic_followsFormula (initial step : Duration) :
    (arithmetic initial step).FollowsFormula :=
  .of_exact fun _ => nanos_arithmeticDelay initial step _

/-- A fixed lease follows its formula. -/
theorem fixed_followsFormula (delay : Duration) : (fixed delay).FollowsFormula :=
  .of_exact fun _ => nanos_capped delay

/-- A lease that begins with a minute and doubles follows its formula; it has reached the longest
delay before its power passes 32 bits. -/
theorem geometric_followsFormula : (geometric (.ofSeconds 60)).FollowsFormula := by
  refine .of_exact fun attempts => (nanos_geometricDelay_eq_iff _ _ _).2 ?_
  rintro ⟨hlarge, hshort⟩
  exact absurd (maxDelay_le_doubled hlarge) (Nat.not_le.2 hshort)

/-- The leases that settings set follow their formulas at every pick, and so does an arithmetic
lease with any first delay and any step. -/
theorem leases_follow_formulas :
    (∀ (s : Settings) (schedule : LeaseSchedule), ofSettings s = .ok schedule →
      schedule.SetBy s ∧ schedule.FollowsFormula) ∧
    ∀ initial step : Duration, (arithmetic initial step).FollowsFormula := by
  refine ⟨fun s schedule h => ?_, arithmetic_followsFormula⟩
  have hset := setBy_of_ofSettings h
  refine ⟨hset, ?_⟩
  cases hset with
  | geometric => exact geometric_followsFormula
  | arithmetic => exact arithmetic_followsFormula _ _
  | fixed => exact fixed_followsFormula _

/-- Settings with a lease of three minutes at every pick. -/
def threeMinutes : Settings :=
  { Settings.ofTimeouts .zero .zero with
    leaseKind := .fixedInterval
    parameters := .ofList [(fixedDelayKey, "PT3M")] }

/-- Settings with a lease that doubles at every pick. -/
def doubling : Settings :=
  { Settings.ofTimeouts .zero .zero with leaseKind := .geometricBackoff }

/-- What `leases_follow_formulas` says of these settings, and of a lease that grows by a year: the
lease that doubles is cut at the 24th pick, the one that grows at the eleventh. -/
theorem doubling_and_fixed_follow_formulas :
    (ofSettings threeMinutes = .ok (.fixed (.ofSeconds 180)) ∧
      SetBy threeMinutes (.fixed (.ofSeconds 180)) ∧ FollowsFormula (.fixed (.ofSeconds 180))) ∧
    (ofSettings doubling = .ok (.geometric (.ofSeconds 60)) ∧
      SetBy doubling (.geometric (.ofSeconds 60)) ∧ FollowsFormula (.geometric (.ofSeconds 60)) ∧
      ((geometric (.ofSeconds 60)).delay 23).nanos = 251658240000000000 ∧
      (geometric (.ofSeconds 60)).formula 24 = 503316480000000000 ∧
      (geometric (.ofSeconds 60)).delay 24 = maxDelay) ∧
    (FollowsFormula (.arithmetic (.ofSeconds 60) (.ofSeconds 31536000)) ∧
      ((arithmetic (.ofSeconds 60) (.ofSeconds 31536000)).delay 10).nanos = 283824060000000000 ∧
      (arithmetic (.ofSeconds 60) (.ofSeconds 31536000)).delay 11 = maxDelay) := by
  obtain ⟨hsettings, harithmetic⟩ := leases_follow_formulas
  obtain ⟨hset, hfollows⟩ := hsettings doubling _ rfl
  refine ⟨⟨rfl, hsettings threeMinutes _ rfl⟩, ⟨rfl, hset, hfollows, ?_⟩, harithmetic _ _, ?_⟩
  · decide
  · decide

end LeaseSchedule

/-! ## Delays of tasks that are to run again -/

namespace ReenqueueSchedule

/-- A text that is split has at least one part. -/
theorem splitAt_ne_nil (separator : Char) (cs : List Char) : splitAt separator cs ≠ [] := by
  induction cs with
  | nil => simp [splitAt]
  | cons c rest ih =>
    unfold splitAt
    split
    · simp
    · split <;> simp

/-- The reenqueue schedules that settings set. -/
inductive SetBy (s : Settings) : ReenqueueSchedule → Prop
  | manual (hkind : s.reenqueueKind = .manual) : SetBy s .manual
  | fixed {delay : Duration} (hkind : s.reenqueueKind = .fixed)
    (hdelay : s.requiredDuration fixedDelayKey = .ok delay) : SetBy s (.fixed delay)
  /-- One delay for every part of the text between commas. -/
  | sequential {value : String} {delays : List Duration} (hkind : s.reenqueueKind = .sequential)
    (hvalue : s.required sequenceKey = .ok value)
    (hdelays : List.Forall₂ (fun part delay => Iso.parse (trim (String.ofList part)) = .ok delay)
      (splitAt ',' value.toList) delays) : SetBy s (.sequential delays)
  | arithmetic {initial step : Duration} (hkind : s.reenqueueKind = .arithmetic)
    (hinitial : s.requiredDuration initialKey = .ok initial)
    (hstep : s.requiredDuration stepKey = .ok step) : SetBy s (.arithmetic initial step)
  | geometric {initial : Duration} {value : String} {ratio : Nat}
    (hkind : s.reenqueueKind = .geometric)
    (hinitial : s.requiredDuration initialKey = .ok initial)
    (hvalue : s.required ratioKey = .ok value)
    (hratio : readNumeral maxWord32 (trim value) = .ok ratio) (hpos : 1 ≤ ratio) :
    SetBy s (.geometric initial ratio)

/-- The delays of a sequence are read one by one from its parts. -/
theorem of_readSequence {value : String} {delays : List Duration}
    (h : readSequence value = .ok delays) :
    List.Forall₂ (fun part delay => Iso.parse (trim (String.ofList part)) = .ok delay)
      (splitAt ',' value.toList) delays :=
  (mapM_eq_ok_iff.1 h).imp fun _ _ => of_mapError_eq_ok

/-- A ratio that is read is a numeral of 32 bits and not zero. -/
theorem of_readRatio {value : String} {ratio : Nat} (h : readRatio value = .ok ratio) :
    readNumeral maxWord32 (trim value) = .ok ratio ∧ 1 ≤ ratio := by
  unfold readRatio at h
  cases hread : readNumeral maxWord32 (trim value) with
  | error e =>
    rw [hread] at h
    cases h
  | ok n =>
    rw [hread] at h
    cases n with
    | zero => cases h
    | succ k =>
      cases h
      exact ⟨rfl, Nat.succ_pos k⟩

/-- A reenqueue schedule that is made of settings is one that they set. -/
theorem setBy_of_ofSettings {s : Settings} {schedule : ReenqueueSchedule}
    (h : ofSettings s = .ok schedule) : schedule.SetBy s := by
  unfold ofSettings at h
  split at h
  · next hkind =>
    cases h
    exact .manual hkind
  · next hkind =>
    obtain ⟨delay, hdelay, rfl⟩ := exists_of_map_eq_ok h
    exact .fixed hkind hdelay
  · next hkind =>
    obtain ⟨value, hvalue, h⟩ := exists_of_bind_eq_ok h
    obtain ⟨delays, hdelays, rfl⟩ := exists_of_map_eq_ok h
    exact .sequential hkind hvalue (of_readSequence hdelays)
  · next hkind =>
    obtain ⟨initial, hinitial, h⟩ := exists_of_bind_eq_ok h
    obtain ⟨step, hstep, h⟩ := exists_of_bind_eq_ok h
    cases h
    exact .arithmetic hkind hinitial hstep
  · next hkind =>
    obtain ⟨initial, hinitial, h⟩ := exists_of_bind_eq_ok h
    obtain ⟨value, hvalue, h⟩ := exists_of_bind_eq_ok h
    obtain ⟨ratio, hratio, rfl⟩ := exists_of_map_eq_ok h
    obtain ⟨hread, hpos⟩ := of_readRatio hratio
    exact .geometric hkind hinitial hvalue hread hpos

/-- A sequence that settings set has at least one delay. -/
theorem SetBy.length_pos {s : Settings} {delays : List Duration}
    (h : SetBy s (.sequential delays)) : 0 < delays.length := by
  cases h with
  | @sequential value _ _ _ hdelays =>
    rw [← hdelays.length_eq]
    exact List.length_pos_iff.2 (splitAt_ne_nil ',' value.toList)

/-- The delay at the `n`-th attempt in nanoseconds, before it is cut to the longest delay. -/
def formula? : ReenqueueSchedule → Nat → Option Nat
  | .manual, _ => none
  | .fixed delay, _ => some delay.nanos
  | .sequential delays, n => delays[min n delays.length - 1]?.map Duration.nanos
  | .arithmetic initial step, n => some (initial.nanos + (n - 1) * step.nanos)
  | .geometric initial ratio, n => some (initial.nanos * ratio.pow (n - 1))

/-- The power of a geometric schedule passes 32 bits at an attempt whose delay is still shorter than
the longest one. -/
def LosesPower : ReenqueueSchedule → Nat → Prop
  | .geometric initial ratio, n =>
    maxWord32 < ratio.pow (n - 1) ∧ initial.nanos * ratio.pow (n - 1) < maxDelay.nanos
  | _, _ => False

/-- What a task gets, with the nanoseconds of the formula at its attempt. -/
structure Gives (schedule : ReenqueueSchedule) (task : TaskId) (attempts : Nat) (delay : Duration)
    (nanos : Nat) : Prop where
  given : schedule.delay task attempts = .ok delay
  formula : schedule.formula? (max attempts 1) = some nanos
  exact_iff : delay.nanos = min maxDelay.nanos nanos ↔ ¬ schedule.LosesPower (max attempts 1)
  longest : schedule.LosesPower (max attempts 1) → delay = maxDelay

/-- A schedule that settings set has a delay at every attempt, unless consumers have to name one. -/
theorem SetBy.exists_gives {s : Settings} {schedule : ReenqueueSchedule} (h : schedule.SetBy s)
    (hkind : s.reenqueueKind ≠ .manual) (task : TaskId) (attempts : Nat) :
    ∃ delay nanos, schedule.Gives task attempts delay nanos := by
  cases schedule with
  | manual =>
    cases h with
    | manual hmanual => exact absurd hmanual hkind
  | fixed delay =>
    exact ⟨_, _, rfl, rfl, iff_of_true (nanos_capped delay) not_false, False.elim⟩
  | sequential delays =>
    have hpos := h.length_pos
    have hplace : min (stepsBefore attempts) (delays.length - 1) =
        min (max attempts 1) delays.length - 1 := by
      unfold stepsBefore
      omega
    have hlt : min (max attempts 1) delays.length - 1 < delays.length := by omega
    have hentry := List.getElem?_eq_getElem hlt
    refine ⟨capped delays[min (max attempts 1) delays.length - 1], _, ?_, ?_,
      iff_of_true (nanos_capped _) not_false, False.elim⟩
    · simp only [ReenqueueSchedule.delay, hplace, hentry]
    · simp only [formula?, hentry, Option.map_some]
  | arithmetic initial step =>
    exact ⟨_, _, rfl, rfl, iff_of_true (nanos_arithmeticDelay initial step _) not_false, False.elim⟩
  | geometric initial ratio =>
    refine ⟨_, _, rfl, rfl, nanos_geometricDelay_eq_iff initial ratio _, ?_⟩
    rintro ⟨hlarge, -⟩
    refine Duration.ext ((nanos_geometricDelay _ _ _).trans ?_)
    exact if_neg (Nat.not_le.2 hlarge)

/-- Settings that do not leave delays to the consumers set a schedule that has one for every task.
It is that of the formula, cut to the longest delay, unless the power in the formula passes 32 bits
at an attempt whose delay is still shorter; then it is the longest delay. -/
theorem delay_eq_formula_iff {s : Settings} {schedule : ReenqueueSchedule}
    (h : ofSettings s = .ok schedule) (hkind : s.reenqueueKind ≠ .manual) :
    schedule.SetBy s ∧ ∀ record : TaskRecord, ∃ delay nanos,
      schedule.Gives record.id record.attempts delay nanos :=
  have hset := setBy_of_ofSettings h
  ⟨hset, fun record => hset.exists_gives hkind record.id record.attempts⟩

/-- Settings with a delay of a millisecond that doubles at every attempt. -/
def doublingMillisecond : Settings :=
  { Settings.ofTimeouts .zero .zero with
    reenqueueKind := .geometric
    parameters := .ofList [(initialKey, "PT0.001S"), (ratioKey, "2")] }

/-- What `delay_eq_formula_iff` says of these settings. -/
theorem doublingMillisecond_gives :
    ofSettings doublingMillisecond = .ok (.geometric (.ofMillis 1) 2) ∧
    doublingMillisecond.reenqueueKind ≠ .manual ∧
    SetBy doublingMillisecond (.geometric (.ofMillis 1) 2) ∧
    ∀ record : TaskRecord, ∃ delay nanos,
      (geometric (.ofMillis 1) 2).Gives record.id record.attempts delay nanos :=
  ⟨rfl, by decide, delay_eq_formula_iff rfl (by decide)⟩

/-- At the 33rd attempt they give ten years in place of 2^32 milliseconds, which are fifty days. -/
theorem fifty_days_become_ten_years :
    ofSettings doublingMillisecond = .ok (.geometric (.ofMillis 1) 2) ∧
    doublingMillisecond.reenqueueKind ≠ .manual ∧
    (geometric (.ofMillis 1) 2).formula? (max 33 1) = some 4294967296000000 ∧
    (geometric (.ofMillis 1) 2).delay 1 33 = .ok maxDelay ∧
    maxDelay.nanos ≠ min maxDelay.nanos 4294967296000000 :=
  ⟨rfl, by decide, rfl, rfl, by decide⟩

end ReenqueueSchedule

end LeaseQueue
