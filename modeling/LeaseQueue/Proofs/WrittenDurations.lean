import Mathlib.Data.List.TakeWhile
import LeaseQueue.Duration.Iso
import LeaseQueue.Proofs.TextForms

/-!
# The written forms of durations

The grammar of written durations, said without the reader: a `Written` is the list of its
components, `Written.chars` spells it and `Written.nanos` is the exact time for which it stands, of
any length.

The reader cuts a text at its letters, keeps a list of the units that may still come and checks
every number, product and sum against 64 bits.  Each of its parts accepts exactly the spellings of
the grammar whose exact value a duration holds (`part?_eq_some_iff`, `timeOnto?_eq_some_iff`,
`duration?_eq_some_iff`): what is refused on the way makes the whole too long as well.  Hence a text
is read exactly if it is a written duration that is not too long, with blanks around it and in
either letter case (`parse_eq_written`).
-/

set_option autoImplicit false

namespace LeaseQueue.Iso

open Text

/-! ## The grammar -/

/-- A number as it is written: at least one digit, and any number of zeros in front. -/
structure Numeral where
  digits : List Char
  ne_nil : digits ≠ []
  isDigit : ∀ c ∈ digits, c.isDigit = true

namespace Numeral

/-- The number that the digits make. -/
def value (n : Numeral) : Nat := Nat.ofDigitChars 10 n.digits 0

/-- A number in front of its letter, or nothing. -/
def before (n : Option Numeral) (letter : Char) : List Char :=
  n.elim [] fun n => n.digits ++ [letter]

/-- The number, or zero for nothing. -/
def orZero (n : Option Numeral) : Nat := n.elim 0 value

end Numeral

/-- One to nine decimal places behind a point or a comma. -/
structure Places where
  mark : Char
  mark_ok : mark = '.' ∨ mark = ','
  number : Numeral
  length_le : number.digits.length ≤ 9

/-- The places as nanoseconds: the ninth place is one. -/
def Places.nanos (p : Places) : Nat :=
  p.number.value * Nat.pow 10 (9 - p.number.digits.length)

/-- A number of seconds, with decimal places or without. -/
structure Seconds where
  whole : Numeral
  places : Option Places

namespace Seconds

/-- The seconds as they are written. -/
def chars (s : Seconds) : List Char :=
  s.whole.digits ++ s.places.elim [] fun p => p.mark :: p.number.digits

/-- The seconds in nanoseconds. -/
def nanos (s : Seconds) : Nat :=
  s.whole.value * nanosPerSecond + s.places.elim 0 Places.nanos

end Seconds

/-- The components behind a `T`, of which there is at least one. -/
structure Time where
  hours : Option Numeral
  minutes : Option Numeral
  seconds : Option Seconds
  some_unit : hours.isSome ∨ minutes.isSome ∨ seconds.isSome

namespace Time

/-- The components as they are written, in their order. -/
def chars (t : Time) : List Char :=
  Numeral.before t.hours 'H' ++ (Numeral.before t.minutes 'M' ++
    t.seconds.elim [] fun s => s.chars ++ ['S'])

/-- The components in nanoseconds. -/
def nanos (t : Time) : Nat :=
  Numeral.orZero t.hours * 3600 * nanosPerSecond +
    (Numeral.orZero t.minutes * 60 * nanosPerSecond + t.seconds.elim 0 Seconds.nanos)

end Time

/-- A written duration: days, a time of day behind a `T`, or both. -/
structure Written where
  days : Option Numeral
  time : Option Time
  some_part : days.isSome ∨ time.isSome

namespace Written

/-- The duration as it is written. -/
def chars (w : Written) : List Char :=
  'P' :: (Numeral.before w.days 'D' ++ w.time.elim [] fun t => 'T' :: t.chars)

/-- The time for which it stands, in nanoseconds. -/
def nanos (w : Written) : Nat :=
  Numeral.orZero w.days * 86400 * nanosPerSecond + w.time.elim 0 Time.nanos

/-- A text is the written duration with blanks around it and its letters in either case. -/
def StandsIn (w : Written) (text : String) : Prop :=
  ∃ before core after, text.toList = before ++ core ++ after ∧
    (∀ c ∈ before, isBlank c = true) ∧ (∀ c ∈ after, isBlank c = true) ∧
    core.map Char.toUpper = w.chars

end Written

/-! ## Numbers of 64 bits -/

/-- Seconds that fit a word are counted in nanoseconds. -/
theorem nanos_ofSeconds {n : Nat} (h : n ≤ maxWord64) :
    (Duration.ofSeconds n).nanos = n * nanosPerSecond := by
  have hlongest : Duration.longest.nanos = maxWord64 * nanosPerSecond + 999999999 := by decide
  have hle : n * nanosPerSecond ≤ maxWord64 * nanosPerSecond := Nat.mul_le_mul_right _ h
  rw [Duration.ofSeconds, Duration.nanos_ofNanos]
  omega

/-- The whole seconds of a duration fit 64 bits. -/
theorem le_maxWord64 {n : Nat} {d : Duration} (h : n * nanosPerSecond ≤ d.nanos) :
    n ≤ maxWord64 := by
  have hlt : n * nanosPerSecond < (maxWord64 + 1) * nanosPerSecond := Nat.lt_of_le_of_lt h d.lt_limit
  exact Nat.le_of_lt_succ (Nat.lt_of_mul_lt_mul_right hlt)

/-- A number is read exactly if it fits 64 bits. -/
theorem wholeNumber?_eq_some_iff {cs : List Char} {n : Nat} :
    wholeNumber? cs = some n ↔ ∃ m : Numeral, m.digits = cs ∧ m.value = n ∧ n ≤ maxWord64 := by
  unfold wholeNumber?
  split
  · next hbad =>
    simp only [Bool.or_eq_true, List.isEmpty_iff, Bool.not_eq_true', List.all_eq_false] at hbad
    constructor
    · rintro ⟨⟩
    · rintro ⟨m, rfl, -⟩
      rcases hbad with hnil | ⟨c, hc, hdigit⟩
      · exact absurd hnil m.ne_nil
      · exact absurd (m.isDigit c hc) hdigit
  · next hgood =>
    simp only [Bool.or_eq_true, List.isEmpty_iff, Bool.not_eq_true', not_or, Bool.not_eq_false,
      List.all_eq_true] at hgood
    rw [toOption_eq_some_iff, readDigits_eq_ok_iff (Nat.zero_le _)]
    constructor
    · rintro ⟨-, hn, hvalue⟩
      exact ⟨⟨cs, hgood.1, hgood.2⟩, rfl, hvalue, hn⟩
    · rintro ⟨m, rfl, hvalue, hn⟩
      exact ⟨m.isDigit, hn, hvalue⟩

/-- A number of units is read exactly if a duration holds it: then the number and the product fit 64
bits. -/
theorem wholeUnits?_eq_some_iff {unit : Nat} (hunit : 0 < unit) {cs : List Char} {d : Duration} :
    wholeUnits? unit cs = some d ↔
      ∃ m : Numeral, m.digits = cs ∧ d.nanos = m.value * unit * nanosPerSecond := by
  simp only [wholeUnits?, Option.bind_eq_bind, Option.bind_eq_some_iff, wholeNumber?_eq_some_iff,
    product?]
  constructor
  · rintro ⟨n, ⟨m, hdigits, rfl, -⟩, seconds, hproduct, hd⟩
    split at hproduct
    · next hfits =>
      cases hproduct
      cases hd
      exact ⟨m, hdigits, nanos_ofSeconds hfits⟩
    · cases hproduct
  · rintro ⟨m, hdigits, hnanos⟩
    have hfits : m.value * unit ≤ maxWord64 := le_maxWord64 (Nat.le_of_eq hnanos.symm)
    have hvalue : m.value ≤ m.value * unit := Nat.le_mul_of_pos_right _ hunit
    refine ⟨m.value, ⟨m, hdigits, rfl, hvalue.trans hfits⟩, m.value * unit, if_pos hfits, ?_⟩
    congr 1
    apply Duration.ext
    rw [nanos_ofSeconds hfits, hnanos]

/-! ## Seconds -/

/-- Up to nine places make less than a second. -/
theorem Places.nanos_lt (p : Places) : p.nanos < nanosPerSecond := by
  have hvalue : p.number.value < (0 + 1) * Nat.pow 10 p.number.digits.length :=
    ofDigitChars_lt p.number.isDigit 0
  calc p.nanos
      < (0 + 1) * Nat.pow 10 p.number.digits.length * Nat.pow 10 (9 - p.number.digits.length) :=
        Nat.mul_lt_mul_of_pos_right hvalue (Nat.pow_pos (by decide))
    _ = Nat.pow 10 9 := by
      simp only [Nat.pow_eq]
      rw [Nat.zero_add, Nat.one_mul, ← Nat.pow_add, Nat.add_sub_cancel' p.length_le]
    _ = nanosPerSecond := rfl

/-- Zeros behind the places shift them to the ninth. -/
theorem ofDigitChars_filled (cs : List Char) (k : Nat) :
    Nat.ofDigitChars 10 (cs ++ List.replicate k '0') 0 = Nat.ofDigitChars 10 cs 0 * Nat.pow 10 k := by
  rw [Nat.ofDigitChars_append, Nat.ofDigitChars_replicate_zero, Nat.mul_comm]
  rfl

/-- Decimal places are read when one to nine digits are written. -/
theorem decimalPlaces?_eq_some_iff {cs : List Char} {n : Nat} (mark : Char)
    (hmark : mark = '.' ∨ mark = ',') :
    decimalPlaces? cs = some n ↔
      ∃ p : Places, p.mark = mark ∧ p.number.digits = cs ∧ p.nanos = n := by
  unfold decimalPlaces?
  split
  · next hbad =>
    simp only [Bool.or_eq_true, List.isEmpty_iff, Bool.not_eq_true', List.all_eq_false,
      decide_eq_true_eq] at hbad
    constructor
    · rintro ⟨⟩
    · rintro ⟨p, -, rfl, -⟩
      rcases hbad with (hnil | hlong) | ⟨c, hc, hdigit⟩
      · exact absurd hnil p.number.ne_nil
      · exact absurd p.length_le (Nat.not_le.2 hlong)
      · exact absurd (p.number.isDigit c hc) hdigit
  · next hgood =>
    simp only [Bool.or_eq_true, List.isEmpty_iff, Bool.not_eq_true', not_or, Bool.not_eq_false,
      List.all_eq_true, decide_eq_true_eq, Nat.not_lt] at hgood
    obtain ⟨⟨hne, hlength⟩, hdigits⟩ := hgood
    let places : Places := ⟨mark, hmark, ⟨cs, hne, hdigits⟩, hlength⟩
    have hword : places.nanos ≤ maxWord32 :=
      Nat.le_trans (Nat.le_of_lt places.nanos_lt) (by decide)
    rw [toOption_eq_some_iff, readDigits_eq_ok_iff (Nat.zero_le _), ofDigitChars_filled]
    constructor
    · rintro ⟨-, -, hvalue⟩
      exact ⟨places, rfl, rfl, hvalue⟩
    · rintro ⟨p, -, rfl, rfl⟩
      refine ⟨fun c hc => ?_, hword, rfl⟩
      rcases List.mem_append.1 hc with hc | hc
      · exact hdigits c hc
      · obtain rfl := List.eq_of_mem_replicate hc
        decide

/-- A decimal mark is a point or a comma. -/
theorem isDecimalMark_iff {c : Char} : isDecimalMark c = true ↔ c = '.' ∨ c = ',' := by
  simp [isDecimalMark]

/-- There is no mark among digits. -/
theorem Numeral.isDecimalMark_eq_false (n : Numeral) : ∀ c ∈ n.digits, isDecimalMark c = false := by
  intro c hc
  have hdigit := n.isDigit c hc
  rw [Bool.eq_false_iff, ne_eq, isDecimalMark_iff]
  rintro (rfl | rfl) <;> cases hdigit

/-- Seconds and nanoseconds are counted together. -/
theorem nanos_ofParts {whole nanos : Nat} (hwhole : whole ≤ maxWord64)
    (hnanos : nanos < nanosPerSecond) :
    (Duration.ofNanos (whole * nanosPerSecond + nanos)).nanos = whole * nanosPerSecond + nanos := by
  have hlongest : Duration.longest.nanos = maxWord64 * nanosPerSecond + (nanosPerSecond - 1) := by
    decide
  have hle : whole * nanosPerSecond ≤ maxWord64 * nanosPerSecond := Nat.mul_le_mul_right _ hwhole
  rw [Duration.nanos_ofNanos]
  omega

/-- The whole part of seconds that a duration holds fits 64 bits. -/
theorem Seconds.whole_le {s : Seconds} {d : Duration} (h : d.nanos = s.nanos) :
    s.whole.value ≤ maxWord64 := by
  apply le_maxWord64
  rw [h, nanos]
  exact Nat.le_add_right _ _

/-- Seconds are read exactly if a duration holds them. -/
theorem secondsPart?_eq_some_iff {cs : List Char} {d : Duration} :
    secondsPart? cs = some d ↔ ∃ s : Seconds, s.chars = cs ∧ d.nanos = s.nanos := by
  rcases split_or isDecimalMark cs with hunmarked | ⟨front, mark, places, rfl, hfront, hmark⟩
  · simp only [secondsPart?, dropWhile_unsplit hunmarked, Option.map_eq_some_iff,
      wholeNumber?_eq_some_iff]
    constructor
    · rintro ⟨n, ⟨m, rfl, rfl, hfits⟩, rfl⟩
      refine ⟨⟨m, none⟩, by simp [Seconds.chars], ?_⟩
      simpa [Seconds.nanos] using nanos_ofSeconds hfits
    · rintro ⟨⟨m, _ | p⟩, rfl, hnanos⟩
      · have hfits := Seconds.whole_le hnanos
        refine ⟨m.value, ⟨m, by simp [Seconds.chars], rfl, hfits⟩, Duration.ext ?_⟩
        simpa [Seconds.nanos, nanos_ofSeconds hfits] using hnanos.symm
      · have hmark : isDecimalMark p.mark = true := isDecimalMark_iff.2 p.mark_ok
        simp [hunmarked p.mark (by simp [Seconds.chars])] at hmark
  · simp only [secondsPart?, dropWhile_split hfront hmark, takeWhile_split hfront hmark,
      Option.bind_eq_bind, Option.bind_eq_some_iff, wholeNumber?_eq_some_iff,
      decimalPlaces?_eq_some_iff mark (isDecimalMark_iff.1 hmark)]
    constructor
    · rintro ⟨whole, ⟨m, rfl, rfl, hfits⟩, nanos, ⟨p, rfl, rfl, rfl⟩, hd⟩
      cases hd
      exact ⟨⟨m, some p⟩, rfl, nanos_ofParts hfits p.nanos_lt⟩
    · rintro ⟨⟨m, _ | p⟩, hchars, hnanos⟩
      · -- without places there is no mark in the text
        have hmem : mark ∈ m.digits := by
          have hall : m.digits = front ++ mark :: places := by simpa [Seconds.chars] using hchars
          simp [hall]
        simp [m.isDecimalMark_eq_false mark hmem] at hmark
      · obtain ⟨rfl, rfl, rfl⟩ := split_inj m.isDecimalMark_eq_false
          (isDecimalMark_iff.2 p.mark_ok) hfront hmark hchars
        have hfits := Seconds.whole_le hnanos
        refine ⟨m.value, ⟨m, rfl, rfl, hfits⟩, p.nanos, ⟨p, rfl, rfl, rfl⟩, ?_⟩
        congr 1
        apply Duration.ext
        rw [nanos_ofParts hfits p.nanos_lt, hnanos]
        rfl

/-! ## Components behind a `T` -/

/-- A number of a unit is written so and stands for so many nanoseconds. -/
def TimeUnit.Spells : TimeUnit → List Char → Nat → Prop
  | .hour, cs, n => ∃ m : Numeral, m.digits = cs ∧ n = m.value * 3600 * nanosPerSecond
  | .minute, cs, n => ∃ m : Numeral, m.digits = cs ∧ n = m.value * 60 * nanosPerSecond
  | .second, cs, n => ∃ s : Seconds, s.chars = cs ∧ n = s.nanos

/-- A number of a unit is read exactly if a duration holds it. -/
theorem part?_eq_some_iff {unit : TimeUnit} {number : List Char} {d : Duration} :
    unit.part? number = some d ↔ unit.Spells number d.nanos := by
  cases unit with
  | hour | minute => exact wholeUnits?_eq_some_iff (by decide)
  | second => exact secondsPart?_eq_some_iff

/-- A number has no letter in it. -/
theorem Numeral.isAlpha_eq_false (n : Numeral) : ∀ c ∈ n.digits, c.isAlpha = false :=
  fun c hc => (of_isDigit (n.isDigit c hc)).1

/-- There is no letter in a number, with decimal places or without. -/
theorem TimeUnit.Spells.isAlpha_eq_false {unit : TimeUnit} {number : List Char} {n : Nat}
    (h : unit.Spells number n) : ∀ c ∈ number, c.isAlpha = false := by
  cases unit with
  | hour | minute =>
    obtain ⟨m, rfl, -⟩ := h
    exact m.isAlpha_eq_false
  | second =>
    obtain ⟨⟨whole, places⟩, rfl, -⟩ := h
    cases places with
    | none => simpa [Seconds.chars] using whole.isAlpha_eq_false
    | some p =>
      have hmark : p.mark.isAlpha = false := by
        rcases p.mark_ok with h | h <;> rw [h] <;> rfl
      intro c hc
      simp only [Seconds.chars, Option.elim_some, List.mem_append, List.mem_cons] at hc
      rcases hc with hc | rfl | hc
      · exact whole.isAlpha_eq_false c hc
      · exact hmark
      · exact p.number.isAlpha_eq_false c hc

/-- Seconds that are written alike are as long. -/
theorem Seconds.nanos_unique {s s' : Seconds} (h : s.chars = s'.chars) : s.nanos = s'.nanos := by
  obtain ⟨whole, places⟩ := s
  obtain ⟨whole', places'⟩ := s'
  have mark_not_mem : ∀ (m : Numeral) (p : Places), p.mark ∉ m.digits := by
    intro m p hmem
    have hmark := m.isDecimalMark_eq_false p.mark hmem
    rw [isDecimalMark_iff.2 p.mark_ok] at hmark
    cases hmark
  cases places with
  | none =>
    cases places' with
    | none => simp_all [chars, nanos, Numeral.value]
    | some p' =>
      simp only [chars, Option.elim_none, List.append_nil, Option.elim_some] at h
      exact absurd (h ▸ by simp) (mark_not_mem whole p')
  | some p =>
    cases places' with
    | none =>
      simp only [chars, Option.elim_none, List.append_nil, Option.elim_some] at h
      exact absurd (h ▸ by simp) (mark_not_mem whole' p)
    | some p' =>
      obtain ⟨hwhole, -, hplaces⟩ := split_inj whole.isDecimalMark_eq_false
        (isDecimalMark_iff.2 p.mark_ok) whole'.isDecimalMark_eq_false
        (isDecimalMark_iff.2 p'.mark_ok) h
      simp [nanos, Places.nanos, Numeral.value, hwhole, hplaces]

/-- A number of some unit spells one amount of time. -/
theorem TimeUnit.Spells.unique {unit : TimeUnit} {number : List Char} {n n' : Nat}
    (h : unit.Spells number n) (h' : unit.Spells number n') : n = n' := by
  cases unit with
  | hour | minute =>
    obtain ⟨m, hm, rfl⟩ := h
    obtain ⟨m', hm', rfl⟩ := h'
    simp [Numeral.value, hm, hm']
  | second =>
    obtain ⟨s, hs, rfl⟩ := h
    obtain ⟨s', hs', rfl⟩ := h'
    exact Seconds.nanos_unique (hs.trans hs'.symm)

/-- Every unit has a letter. -/
theorem TimeUnit.isAlpha_letter (unit : TimeUnit) : unit.letter.isAlpha = true := by
  cases unit <;> rfl

/-- Components of some units, each at most once and in the order of the list, with their
nanoseconds. -/
inductive Components : List TimeUnit → List Char → Nat → Prop
  | nil : Components [] [] 0
  | skip {unit : TimeUnit} {later : List TimeUnit} {cs : List Char} {n : Nat} :
    Components later cs n → Components (unit :: later) cs n
  | take {unit : TimeUnit} {later : List TimeUnit} {number rest : List Char} {m n : Nat} :
    unit.Spells number m → Components later rest n →
      Components (unit :: later) (number ++ unit.letter :: rest) (m + n)

section Components

variable {unit : TimeUnit} {units later : List TimeUnit} {cs number rest : List Char} {letter : Char}
  {n : Nat} {total d : Duration}

/-- No text at all spells zero. -/
theorem components_nil_iff : Components units [] n ↔ n = 0 := by
  constructor
  · intro h
    generalize hcs : ([] : List Char) = cs at h
    induction h with
    | nil => rfl
    | skip _ ih => exact ih hcs
    | take => simp at hcs
  · rintro rfl
    induction units with
    | nil => exact .nil
    | cons unit later ih => exact .skip ih

/-- The first letter in the components is that of one of their units. -/
theorem Components.exists_letter (h : Components units (number ++ letter :: rest) n)
    (hnumber : ∀ c ∈ number, c.isAlpha = false) (hletter : letter.isAlpha = true) :
    letter ∈ units.map TimeUnit.letter := by
  generalize hcs : number ++ letter :: rest = cs at h
  induction h with
  | nil => simp at hcs
  | skip _ ih => exact List.mem_cons_of_mem _ (ih hcs)
  | @take unit later _ _ _ _ hspells _ _ =>
    obtain ⟨-, rfl, -⟩ :=
      split_inj hnumber hletter hspells.isAlpha_eq_false unit.isAlpha_letter hcs
    exact List.mem_cons_self

/-- Components without a letter are no components. -/
theorem Components.eq_nil (h : Components units cs n) (hcs : ∀ c ∈ cs, c.isAlpha = false) :
    cs = [] := by
  induction h with
  | nil => rfl
  | skip _ ih => exact ih hcs
  | @take unit =>
    have hletter := hcs unit.letter (by simp)
    simp [unit.isAlpha_letter] at hletter

/-- Components either begin with the first unit or have nothing of it. -/
theorem components_split_iff (hnumber : ∀ c ∈ number, c.isAlpha = false)
    (hletter : letter.isAlpha = true) :
    Components (unit :: later) (number ++ letter :: rest) n ↔
      (letter = unit.letter ∧ ∃ m k, unit.Spells number m ∧ Components later rest k ∧ n = m + k) ∨
        Components later (number ++ letter :: rest) n := by
  constructor
  · intro h
    generalize hcs : number ++ letter :: rest = cs at h
    cases h with
    | skip h => exact .inr h
    | take hspells hrest =>
      obtain ⟨rfl, rfl, rfl⟩ :=
        split_inj hnumber hletter hspells.isAlpha_eq_false unit.isAlpha_letter hcs
      exact .inl ⟨rfl, _, _, hspells, hrest, rfl⟩
  · rintro (⟨rfl, m, k, hspells, hrest, rfl⟩ | h)
    · exact .take hspells hrest
    · exact .skip h

/-- Components that are written alike are as long. -/
theorem Components.unique {n' : Nat} (hletters : (units.map TimeUnit.letter).Nodup)
    (h : Components units cs n) (h' : Components units cs n') : n = n' := by
  induction units generalizing cs n n' with
  | nil =>
    cases h
    cases h'
    rfl
  | cons unit later ih =>
    rw [List.map_cons, List.nodup_cons] at hletters
    rcases split_or Char.isAlpha cs with hnone | ⟨number, letter, rest, rfl, hnumber, hletter⟩
    · obtain rfl := h.eq_nil hnone
      rw [components_nil_iff.1 h, components_nil_iff.1 h']
    · rw [components_split_iff hnumber hletter] at h h'
      rcases h with ⟨hunit, m, k, hspells, hrest, rfl⟩ | h
      · rcases h' with ⟨-, m', k', hspells', hrest', rfl⟩ | h'
        · rw [hspells.unique hspells', ih hletters.2 hrest hrest']
        · exact absurd (hunit ▸ h'.exists_letter hnumber hletter) hletters.1
      · rcases h' with ⟨hunit, -⟩ | h'
        · exact absurd (hunit ▸ h.exists_letter hnumber hletter) hletters.1
        · exact ih hletters.2 h h'

/-- What the reader does with a number and the letter behind it. -/
theorem timeOnto?_split (hnumber : ∀ c ∈ number, c.isAlpha = false)
    (hletter : letter.isAlpha = true) :
    timeOnto? total (unit :: later) (number ++ letter :: rest) =
      if letter = unit.letter then
        (unit.part? number).bind fun part => (total.add? part).bind fun total =>
          timeOnto? total later rest
      else timeOnto? total later (number ++ letter :: rest) := by
  obtain ⟨c, tail, hcs⟩ := List.exists_cons_of_ne_nil (l := number ++ letter :: rest) (by simp)
  rw [hcs, timeOnto?, ← hcs]
  simp only [dropWhile_split hnumber hletter, takeWhile_split hnumber hletter, Option.bind_eq_bind]

/-- A text without a letter is not read as components. -/
theorem timeOnto?_unsplit (hcs : ∀ c ∈ cs, c.isAlpha = false) (hne : cs ≠ []) :
    timeOnto? total units cs = none := by
  obtain ⟨c, tail, rfl⟩ := List.exists_cons_of_ne_nil hne
  cases units with
  | nil => rfl
  | cons unit later => simp only [timeOnto?, dropWhile_unsplit hcs]

/-- Components are read exactly if a duration holds them together with what came before. -/
theorem timeOnto?_eq_some_iff (hletters : (units.map TimeUnit.letter).Nodup) :
    timeOnto? total units cs = some d ↔
      ∃ n, Components units cs n ∧ d.nanos = total.nanos + n := by
  induction units generalizing total cs with
  | nil =>
    cases cs with
    | nil =>
      simp only [timeOnto?, Option.some.injEq, components_nil_iff, exists_eq_left, Nat.add_zero]
      exact ⟨fun h => h ▸ rfl, fun h => Duration.ext h.symm⟩
    | cons c rest =>
      constructor
      · rintro ⟨⟩
      · rintro ⟨n, h, -⟩
        cases h
  | cons unit later ih =>
    rw [List.map_cons, List.nodup_cons] at hletters
    rcases split_or Char.isAlpha cs with hnone | ⟨number, letter, rest, rfl, hnumber, hletter⟩
    · by_cases hne : cs = []
      · subst hne
        simp only [timeOnto?, Option.some.injEq, components_nil_iff, exists_eq_left, Nat.add_zero]
        exact ⟨fun h => h ▸ rfl, fun h => Duration.ext h.symm⟩
      · rw [timeOnto?_unsplit hnone hne]
        constructor
        · rintro ⟨⟩
        · rintro ⟨n, h, -⟩
          exact absurd (h.eq_nil hnone) hne
    · rw [timeOnto?_split hnumber hletter]
      simp only [components_split_iff hnumber hletter]
      split
      · next heq =>
        -- the unit is not among the later ones, so its component is the first
        have hlater : ∀ n, ¬ Components later (number ++ letter :: rest) n := fun n h =>
          hletters.1 (heq ▸ h.exists_letter hnumber hletter)
        simp only [heq, true_and, Option.bind_eq_some_iff, part?_eq_some_iff, Duration.add?,
          Duration.ofNanos?_eq_some, ih hletters.2]
        constructor
        · rintro ⟨part, hspells, sum, hsum, k, hrest, hd⟩
          refine ⟨part.nanos + k, .inl ⟨part.nanos, k, hspells, hrest, rfl⟩, ?_⟩
          omega
        · rintro ⟨n, ⟨m, k, hspells, hrest, rfl⟩ | h, hd⟩
          · have hlimit := d.lt_limit
            exact ⟨⟨m, by omega⟩, hspells, ⟨total.nanos + m, by omega⟩, rfl, k, hrest, by
              rw [hd, Nat.add_assoc]⟩
          · exact absurd h (heq ▸ hlater n)
      · next hne =>
        simp only [hne, false_and, false_or]
        exact ih hletters.2

/-- A unit whose numbers have no places: its component is there or not, and the rest follows. -/
theorem components_numeral_iff {unitSeconds : Nat}
    (hspells : ∀ number m, unit.Spells number m ↔
      ∃ i : Numeral, i.digits = number ∧ m = i.value * unitSeconds * nanosPerSecond) :
    Components (unit :: later) cs n ↔ ∃ (i : Option Numeral) (rest : List Char) (k : Nat),
      cs = Numeral.before i unit.letter ++ rest ∧
      n = Numeral.orZero i * unitSeconds * nanosPerSecond + k ∧ Components later rest k := by
  constructor
  · intro h
    cases h with
    | skip h => exact ⟨none, cs, n, rfl, by simp [Numeral.orZero], h⟩
    | take hnumber hrest =>
      obtain ⟨i, rfl, rfl⟩ := (hspells _ _).1 hnumber
      exact ⟨some i, _, _, by simp [Numeral.before], rfl, hrest⟩
  · rintro ⟨_ | i, rest, k, rfl, rfl, hrest⟩
    · simpa [Numeral.before, Numeral.orZero] using Components.skip hrest
    · simpa [Numeral.before, Numeral.orZero] using
        Components.take ((hspells _ _).2 ⟨i, rfl, rfl⟩) hrest

/-- Where only seconds are left, they are written or nothing is. -/
theorem components_seconds_iff :
    Components [.second] cs n ↔ ∃ s : Option Seconds,
      cs = (s.elim [] fun s => s.chars ++ ['S']) ∧ n = s.elim 0 Seconds.nanos := by
  constructor
  · intro h
    cases h with
    | skip h =>
      cases h
      exact ⟨none, rfl, rfl⟩
    | take hnumber hrest =>
      cases hrest
      obtain ⟨s, rfl, rfl⟩ := hnumber
      exact ⟨some s, by simp [TimeUnit.letter], by simp⟩
  · rintro ⟨_ | s, rfl, rfl⟩
    · exact .skip .nil
    · have hspells : TimeUnit.second.Spells s.chars s.nanos := ⟨s, rfl, rfl⟩
      simpa [TimeUnit.letter] using Components.take hspells .nil

/-- A time is written with some component. -/
theorem Time.chars_ne_nil (t : Time) : t.chars ≠ [] := by
  rcases t.some_unit with h | h | h <;> obtain ⟨part, hpart⟩ := Option.isSome_iff_exists.1 h <;>
    simp [Time.chars, Numeral.before, hpart]

/-- Components of all units are those of the grammar. -/
theorem components_ordered_iff (hne : cs ≠ []) :
    Components TimeUnit.ordered cs n ↔ ∃ t : Time, t.chars = cs ∧ t.nanos = n := by
  have hminutes : ∀ number m, TimeUnit.minute.Spells number m ↔
      ∃ i : Numeral, i.digits = number ∧ m = i.value * 60 * nanosPerSecond := fun _ _ => Iff.rfl
  rw [TimeUnit.ordered, components_numeral_iff fun _ _ => Iff.rfl]
  simp only [components_numeral_iff hminutes, components_seconds_iff]
  constructor
  · rintro ⟨hours, _, _, rfl, rfl, minutes, _, _, rfl, rfl, seconds, rfl, rfl⟩
    have hsome : hours.isSome ∨ minutes.isSome ∨ seconds.isSome := by
      cases hours <;> cases minutes <;> cases seconds <;> simp [Numeral.before] at hne ⊢
    exact ⟨⟨hours, minutes, seconds, hsome⟩, rfl, rfl⟩
  · rintro ⟨t, rfl, rfl⟩
    exact ⟨t.hours, _, _, rfl, rfl, t.minutes, _, _, rfl, rfl, t.seconds, rfl, rfl⟩

end Components

/-! ## The whole form -/

/-- No two units have the same letter. -/
theorem nodup_letters : (TimeUnit.ordered.map TimeUnit.letter).Nodup := by decide

/-- Days are read exactly if a duration holds them. -/
theorem daysPart?_eq_some_iff {cs : List Char} {d : Duration} :
    daysPart? cs = some d ↔ ∃ days : Option Numeral, Numeral.before days 'D' = cs ∧
      d.nanos = Numeral.orZero days * 86400 * nanosPerSecond := by
  cases cs with
  | nil =>
    simp only [daysPart?, Option.some.injEq]
    constructor
    · rintro rfl
      exact ⟨none, rfl, rfl⟩
    · rintro ⟨_ | days, hchars, hnanos⟩
      · exact Duration.ext hnanos.symm
      · simp [Numeral.before] at hchars
  | cons c tail =>
    rw [daysPart?]
    split
    · next hlast =>
      obtain ⟨digits, hcs⟩ := List.getLast?_eq_some_iff.1 hlast
      rw [hcs, List.dropLast_concat, wholeUnits?_eq_some_iff (by decide)]
      constructor
      · rintro ⟨m, rfl, hnanos⟩
        exact ⟨some m, rfl, hnanos⟩
      · rintro ⟨_ | m, hchars, hnanos⟩
        · simp [Numeral.before] at hchars
        · exact ⟨m, List.append_cancel_right hchars, hnanos⟩
    · next hlast =>
      constructor
      · rintro ⟨⟩
      · rintro ⟨_ | m, hchars, -⟩
        · simp [Numeral.before] at hchars
        · exact absurd (List.getLast?_eq_some_iff.2 ⟨m.digits, hchars.symm⟩) hlast

/-- The part before the time has no T in it. -/
theorem Numeral.isT_eq_false (days : Option Numeral) :
    ∀ c ∈ before days 'D', (c == 'T') = false := by
  cases days with
  | none => simp [before]
  | some m =>
    intro c hc
    rw [beq_eq_false_iff_ne]
    rintro rfl
    have hdigit := m.isDigit 'T' (by simpa [before] using hc)
    cases hdigit

/-- What the reader does with days only, and with a time of day behind them. -/
theorem duration?_of_days {days : List Char} (hdays : ∀ c ∈ days, (c == 'T') = false) :
    duration? ('P' :: days) = if days = [] then none else daysPart? days := by
  have hdrop : days.dropWhile (· != 'T') = [] := dropWhile_unsplit hdays
  have htake : days.takeWhile (· != 'T') = days := takeWhile_unsplit hdays
  simp only [duration?, hdrop, htake, List.isEmpty_iff]

/-- A text with a T is read in two parts, and the second must not be empty. -/
theorem duration?_of_time {days time : List Char} (hdays : ∀ c ∈ days, (c == 'T') = false) :
    duration? ('P' :: (days ++ 'T' :: time)) =
      if time = [] then none
      else (daysPart? days).bind fun dayPart =>
        (timeOnto? .zero TimeUnit.ordered time).bind fun timePart => dayPart.add? timePart := by
  have hdrop : (days ++ 'T' :: time).dropWhile (· != 'T') = 'T' :: time :=
    dropWhile_split hdays (beq_self_eq_true _)
  have htake : (days ++ 'T' :: time).takeWhile (· != 'T') = days :=
    takeWhile_split hdays (beq_self_eq_true _)
  simp only [duration?, hdrop, htake, List.isEmpty_iff, Option.bind_eq_bind]

/-- A text with a T is read as days and a time that are written so. -/
theorem duration?_of_timePart {days time : List Char} {d : Duration}
    (hdays : ∀ c ∈ days, (c == 'T') = false) :
    duration? ('P' :: (days ++ 'T' :: time)) = some d ↔
      ∃ (m : Option Numeral) (t : Time), Numeral.before m 'D' = days ∧ t.chars = time ∧
        d.nanos = Numeral.orZero m * 86400 * nanosPerSecond + t.nanos := by
  rw [duration?_of_time hdays]
  split
  · next hempty =>
    constructor
    · rintro ⟨⟩
    · rintro ⟨m, t, -, rfl, -⟩
      exact absurd hempty t.chars_ne_nil
  · next hne =>
    simp only [Option.bind_eq_some_iff, daysPart?_eq_some_iff,
      timeOnto?_eq_some_iff nodup_letters,
      components_ordered_iff hne, Duration.add?, Duration.ofNanos?_eq_some]
    constructor
    · rintro ⟨dayPart, ⟨m, hm, hday⟩, timePart, ⟨_, ⟨t, ht, rfl⟩, htime⟩, hd⟩
      refine ⟨m, t, hm, ht, ?_⟩
      rw [hd, hday, htime]
      simp [Duration.zero]
    · rintro ⟨m, t, hm, ht, hd⟩
      have hlimit := d.lt_limit
      exact ⟨⟨_, by omega⟩, ⟨m, hm, rfl⟩, ⟨t.nanos, by omega⟩, ⟨_, ⟨t, ht, rfl⟩, by
        simp [Duration.zero]⟩, hd⟩

/-- A form is read exactly if it is a written duration that is not too long. -/
theorem duration?_eq_some_iff {cs : List Char} {d : Duration} :
    duration? cs = some d ↔ ∃ w : Written, w.chars = cs ∧ w.nanos = d.nanos := by
  constructor
  · intro h
    obtain ⟨body, rfl⟩ : ∃ body, cs = 'P' :: body := by
      unfold duration? at h
      split at h
      · exact ⟨_, rfl⟩
      · cases h
    rcases split_or (· == 'T') body with hdays | ⟨days, t, time, rfl, hdays, ht⟩
    · rw [duration?_of_days hdays] at h
      split at h
      · cases h
      · next hne =>
        obtain ⟨m, rfl, hnanos⟩ := daysPart?_eq_some_iff.1 h
        have hsome : m.isSome := by
          cases m <;> simp [Numeral.before] at hne ⊢
        exact ⟨⟨m, none, .inl hsome⟩, by simp [Written.chars], by simp [Written.nanos, hnanos]⟩
    · obtain rfl := eq_of_beq ht
      obtain ⟨m, time, rfl, rfl, hnanos⟩ := (duration?_of_timePart hdays).1 h
      exact ⟨⟨m, some time, .inr rfl⟩, rfl, by rw [hnanos, Written.nanos, Option.elim_some]⟩
  · rintro ⟨⟨m, time, hsome⟩, rfl, hnanos⟩
    have hdays := Numeral.isT_eq_false m
    cases time with
    | none =>
      have hne : Numeral.before m 'D' ≠ [] := by
        cases m <;> simp [Numeral.before] at hsome ⊢
      simp only [Written.chars, Option.elim_none, List.append_nil]
      rw [Written.nanos, Option.elim_none, Nat.add_zero] at hnanos
      rw [duration?_of_days hdays, if_neg hne, daysPart?_eq_some_iff]
      exact ⟨m, rfl, hnanos.symm⟩
    | some t =>
      rw [Written.nanos, Option.elim_some] at hnanos
      exact (duration?_of_timePart hdays).2 ⟨m, t, rfl, rfl, hnanos.symm⟩

/-- Days that are written alike are as many. -/
theorem Numeral.orZero_unique {i i' : Option Numeral} {letter : Char}
    (h : before i letter = before i' letter) : orZero i = orZero i' := by
  cases i <;> cases i' <;> simp_all [before, orZero, value]

/-- Durations that are written alike are as long. -/
theorem Written.nanos_unique {w w' : Written} (h : w.chars = w'.chars) : w.nanos = w'.nanos := by
  obtain ⟨days, time, hw⟩ := w
  obtain ⟨days', time', hw'⟩ := w'
  simp only [chars, List.cons.injEq, true_and] at h
  have hdays := Numeral.isT_eq_false days
  have hdays' := Numeral.isT_eq_false days'
  cases time with
  | none =>
    cases time' with
    | none =>
      simp only [Option.elim_none, List.append_nil] at h
      simp only [nanos, Numeral.orZero_unique h]
    | some t' =>
      simp only [Option.elim_none, List.append_nil, Option.elim_some] at h
      simpa using hdays 'T' (by simp [h])
  | some t =>
    cases time' with
    | none =>
      simp only [Option.elim_none, List.append_nil, Option.elim_some] at h
      simpa using hdays' 'T' (by simp [← h])
    | some t' =>
      obtain ⟨hday, -, htime⟩ := split_inj hdays (beq_self_eq_true _) hdays' (beq_self_eq_true _) h
      have hcomponents : Components TimeUnit.ordered t.chars t.nanos :=
        (components_ordered_iff t.chars_ne_nil).2 ⟨t, rfl, rfl⟩
      have hcomponents' : Components TimeUnit.ordered t.chars t'.nanos :=
        (components_ordered_iff t.chars_ne_nil).2 ⟨t', htime.symm, rfl⟩
      rw [nanos, nanos, Numeral.orZero_unique hday, Option.elim_some, Option.elim_some,
        hcomponents.unique nodup_letters hcomponents']

/-! ## Texts -/

/-- A character that neither trimming nor upper case changes. -/
def IsPlain (c : Char) : Prop := isBlank c = false ∧ c.isLower = false

/-- A number has only plain characters. -/
theorem Numeral.isPlain (n : Numeral) : ∀ c ∈ n.digits, IsPlain c := by
  intro c hc
  have hdigit := n.isDigit c hc
  exact ⟨(of_isDigit hdigit).2, isLower_of_isDigit hdigit⟩

/-- A number before a letter has only plain characters. -/
theorem Numeral.isPlain_before {letter : Char} (hletter : IsPlain letter) (n : Option Numeral) :
    ∀ c ∈ before n letter, IsPlain c := by
  cases n with
  | none => simp [before]
  | some n =>
    intro c hc
    simp only [before, Option.elim_some, List.mem_append, List.mem_singleton] at hc
    rcases hc with hc | rfl
    · exact n.isPlain c hc
    · exact hletter

/-- Written seconds have only plain characters. -/
theorem Seconds.isPlain (s : Seconds) : ∀ c ∈ s.chars, IsPlain c := by
  obtain ⟨whole, _ | p⟩ := s
  · simpa [chars] using whole.isPlain
  · have hmark : IsPlain p.mark := by
      rcases p.mark_ok with h | h <;> rw [h] <;> exact ⟨by decide, by decide⟩
    intro c hc
    simp only [chars, Option.elim_some, List.mem_append, List.mem_cons] at hc
    rcases hc with hc | rfl | hc
    · exact whole.isPlain c hc
    · exact hmark
    · exact p.number.isPlain c hc

/-- A written time has only plain characters. -/
theorem Time.isPlain (t : Time) : ∀ c ∈ t.chars, IsPlain c := by
  intro c hc
  simp only [chars, List.mem_append] at hc
  rcases hc with hc | hc | hc
  · exact Numeral.isPlain_before ⟨by decide, by decide⟩ _ c hc
  · exact Numeral.isPlain_before ⟨by decide, by decide⟩ _ c hc
  · cases hseconds : t.seconds with
    | none => simp [hseconds] at hc
    | some s =>
      simp only [hseconds, Option.elim_some, List.mem_append, List.mem_singleton] at hc
      rcases hc with hc | rfl
      · exact s.isPlain c hc
      · exact ⟨by decide, by decide⟩

namespace Written

variable {w : Written} {text : String}

/-- A written duration has only plain characters. -/
theorem isPlain (w : Written) : ∀ c ∈ w.chars, IsPlain c := by
  intro c hc
  simp only [chars, List.mem_cons, List.mem_append] at hc
  rcases hc with rfl | hc | hc
  · exact ⟨by decide, by decide⟩
  · exact Numeral.isPlain_before ⟨by decide, by decide⟩ _ c hc
  · cases htime : w.time with
    | none => simp [htime] at hc
    | some t =>
      simp only [htime, Option.elim_some, List.mem_cons] at hc
      rcases hc with rfl | hc
      · exact ⟨by decide, by decide⟩
      · exact t.isPlain c hc

/-- A written duration stands in a text exactly if it is what trimming and upper case make of it. -/
theorem standsIn_iff : w.StandsIn text ↔ (upper (trim text)).toList = w.chars := by
  have hmade : (upper (trim text)).toList = (trimmed text.toList).map Char.toUpper := by
    simp [upper, trim]
  rw [hmade]
  constructor
  · rintro ⟨before, core, after, htext, hbefore, hafter, hcore⟩
    have hplain : ∀ c ∈ core, isBlank c = false := by
      intro c hc
      have hmem : c.toUpper ∈ w.chars := hcore ▸ List.mem_map_of_mem hc
      exact isBlank_of_isBlank_toUpper (w.isPlain _ hmem).1
    have hne : core ≠ [] := by
      rintro rfl
      cases hcore
    rw [htext, trimmed_eq hbefore hplain hafter hne, hcore]
  · intro h
    obtain ⟨before, after, htext, hbefore, hafter⟩ := exists_trimmed text.toList
    exact ⟨before, _, after, htext, hbefore, hafter, h⟩

end Written

/-- A text is read as a duration exactly if the duration is written in it. -/
theorem parse?_eq_some_iff {text : String} {d : Duration} :
    parse? text = some d ↔ ∃ w : Written, w.StandsIn text ∧ w.nanos = d.nanos := by
  rw [parse?, duration?_eq_some_iff]
  simp only [Written.standsIn_iff, eq_comm (b := Written.chars _)]

/-- A text is accepted when a duration is read in it. -/
theorem parse_eq_ok_iff {text : String} {d : Duration} :
    parse text = .ok d ↔ parse? text = some d := by
  unfold parse
  split <;> simp_all

/-- A text is refused, and named in the error, when none is read in it. -/
theorem parse_eq_error_iff {text : String} :
    parse text = .error ⟨text⟩ ↔ parse? text = none := by
  unfold parse
  split <;> simp_all

/-- Something is read exactly if a written duration that is not too long stands in the text. -/
theorem isSome_parse?_iff {text : String} :
    (parse? text).isSome ↔
      ∃ w : Written, w.StandsIn text ∧ w.nanos ≤ Duration.longest.nanos := by
  rw [Option.isSome_iff_exists]
  simp only [parse?_eq_some_iff]
  constructor
  · rintro ⟨d, w, hstands, hnanos⟩
    exact ⟨w, hstands, hnanos ▸ d.nanos_le_longest⟩
  · rintro ⟨w, hstands, hle⟩
    exact ⟨⟨w.nanos, Nat.lt_of_le_of_lt hle Duration.longest.lt_limit⟩, w, hstands, rfl⟩

/-- Reading gives exactly the time of the written duration in the text, if there is one and the
longest duration is not shorter, and refuses the text otherwise.  All written durations in one text
are as long. -/
theorem parse_eq_written (text : String) :
    (∀ d, parse text = .ok d ↔ ∃ w : Written, w.StandsIn text ∧ w.nanos = d.nanos) ∧
    ((∃ d, parse text = .ok d) ↔
      ∃ w : Written, w.StandsIn text ∧ w.nanos ≤ Duration.longest.nanos) ∧
    (parse text = .error ⟨text⟩ ↔
      ¬ ∃ w : Written, w.StandsIn text ∧ w.nanos ≤ Duration.longest.nanos) ∧
    ∀ w w' : Written, w.StandsIn text → w'.StandsIn text → w.nanos = w'.nanos := by
  refine ⟨fun d => parse_eq_ok_iff.trans parse?_eq_some_iff, ?_, ?_, fun w w' hw hw' => ?_⟩
  · simp only [parse_eq_ok_iff, ← isSome_parse?_iff, Option.isSome_iff_exists]
  · rw [parse_eq_error_iff, ← isSome_parse?_iff, Option.not_isSome_iff_eq_none]
  · rw [Written.standsIn_iff] at hw hw'
    exact Written.nanos_unique (hw.symm.trans hw')

/-- A day, two hours and half a second, in every part of the form but minutes. -/
def dayAndHours : Written where
  days := some ⟨['1'], by decide, by simp⟩
  time := some {
    hours := some ⟨['0', '2'], by decide, by simp⟩
    minutes := none
    seconds := some ⟨⟨['0'], by decide, by simp⟩,
      some ⟨',', .inr rfl, ⟨['5'], by decide, by simp⟩, by decide⟩⟩
    some_unit := .inl rfl }
  some_part := .inl rfl

/-- What `parse_eq_written` says of a text with this duration in it. -/
theorem parse_dayAndHours :
    dayAndHours.StandsIn " p1dT02h0,5s\n" ∧
    parse " p1dT02h0,5s\n" = .ok (.ofMillis 93600500) ∧
    dayAndHours.nanos = (Duration.ofMillis 93600500).nanos := by
  have hstands : dayAndHours.StandsIn " p1dT02h0,5s\n" :=
    ⟨[' '], "p1dT02h0,5s".toList, ['\n'], by decide, List.all_eq_true.1 rfl, List.all_eq_true.1 rfl,
      by decide⟩
  have hread : parse " p1dT02h0,5s\n" = .ok (.ofMillis 93600500) := rfl
  obtain ⟨hexact, -, -, hunique⟩ := parse_eq_written " p1dT02h0,5s\n"
  obtain ⟨w, hw, hnanos⟩ := (hexact _).1 hread
  exact ⟨hstands, hread, (hunique _ _ hstands hw).trans hnanos⟩

end LeaseQueue.Iso
