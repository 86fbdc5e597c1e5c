import Mathlib.Data.List.TakeWhile
import LeaseQueue.Text.Blank
import LeaseQueue.Text.Numeral

/-!
# Splitting, trimming and numerals

What the readers of settings and durations do to a text before they look at its parts: they cut it
at the first character of some kind, they take the blanks off its ends, they put its letters in
upper case, and they read rows of digits up to a bound.

A text with blanks around a middle that has none is trimmed to this middle (`trimmed_eq`), and
every text is its trimmed form with blanks around it (`exists_trimmed`).  A row of digits is read
exactly if its value is within the bound, however many zeros it begins with
(`readDigits_eq_ok_iff`).
-/

set_option autoImplicit false

namespace LeaseQueue.Text

/-- A value comes out of a success and of nothing else. -/
theorem toOption_eq_some_iff {ε α : Type} {x : Except ε α} {a : α} :
    x.toOption = some a ↔ x = .ok a := by
  cases x <;> simp [Except.toOption]

/-! ## The first character of some kind -/

section Split

variable {p : Char → Bool} {before after : List Char} {c : Char}

/-- A text has no character of some kind, or it is split by the first one. -/
theorem split_or (p : Char → Bool) (cs : List Char) :
    (∀ c ∈ cs, p c = false) ∨ ∃ before c after,
      cs = before ++ c :: after ∧ (∀ b ∈ before, p b = false) ∧ p c = true := by
  induction cs with
  | nil => simp
  | cons c rest ih =>
    cases hc : p c with
    | true => exact .inr ⟨[], c, rest, rfl, by simp, hc⟩
    | false =>
      rcases ih with hnone | ⟨before, mark, after, rfl, hbefore, hmark⟩
      · left
        simpa [hc] using hnone
      · right
        refine ⟨c :: before, mark, after, rfl, ?_, hmark⟩
        simpa [hc] using hbefore

/-- The part before the first mark is what is taken. -/
theorem takeWhile_split (hbefore : ∀ b ∈ before, p b = false) (hc : p c = true) :
    (before ++ c :: after).takeWhile (fun c => !p c) = before := by
  rw [List.takeWhile_append_of_pos (by simpa using hbefore)]
  simp [hc]

/-- The part from the first mark on is what is left. -/
theorem dropWhile_split (hbefore : ∀ b ∈ before, p b = false) (hc : p c = true) :
    (before ++ c :: after).dropWhile (fun c => !p c) = c :: after := by
  rw [List.dropWhile_append_of_pos (by simpa using hbefore)]
  simp [hc]

/-- There is only one first character of some kind. -/
theorem split_inj {before' after' : List Char} {c' : Char} (hbefore : ∀ b ∈ before, p b = false)
    (hc : p c = true) (hbefore' : ∀ b ∈ before', p b = false) (hc' : p c' = true)
    (h : before ++ c :: after = before' ++ c' :: after') :
    before = before' ∧ c = c' ∧ after = after' := by
  have hfront : before = before' := by
    have htake := congrArg (List.takeWhile fun c => !p c) h
    rwa [takeWhile_split hbefore hc, takeWhile_split hbefore' hc'] at htake
  subst hfront
  simpa using h

/-- Without a mark nothing is left. -/
theorem dropWhile_unsplit {cs : List Char} (h : ∀ c ∈ cs, p c = false) :
    cs.dropWhile (fun c => !p c) = [] := by
  rw [List.dropWhile_eq_nil_iff]
  simpa using h

/-- Without a mark everything is taken. -/
theorem takeWhile_unsplit {cs : List Char} (h : ∀ c ∈ cs, p c = false) :
    cs.takeWhile (fun c => !p c) = cs := by
  rw [List.takeWhile_eq_self_iff]
  simpa using h

/-- A text is what is left of it without some character at its end, with this character behind it as
often as it stood there. -/
theorem exists_ending (mark : Char) (cs : List Char) : ∃ k,
    cs = (cs.reverse.dropWhile (· == mark)).reverse ++ List.replicate k mark := by
  refine ⟨(cs.reverse.takeWhile (· == mark)).length, ?_⟩
  have hmarks : cs.reverse.takeWhile (· == mark) =
      List.replicate (cs.reverse.takeWhile (· == mark)).length mark := by
    rw [List.eq_replicate_iff]
    refine ⟨rfl, fun c hc => ?_⟩
    have hmark := List.mem_takeWhile_imp (p := fun c : Char => c == mark) hc
    simpa using hmark
  calc cs = cs.reverse.reverse := cs.reverse_reverse.symm
    _ = (cs.reverse.dropWhile (· == mark)).reverse ++
        (cs.reverse.takeWhile (· == mark)).reverse := by
      rw [← List.reverse_append, List.takeWhile_append_dropWhile]
    _ = _ := by rw [hmarks, List.reverse_replicate, List.length_replicate]

end Split

/-! ## Letters -/

/-- The small letters are those from a to z. -/
theorem isLower_iff {c : Char} : c.isLower = true ↔ 97 ≤ c.toNat ∧ c.toNat ≤ 122 := by
  have hrange : c.isLower = (decide (c.val ≥ 'a'.val) && decide (c.val ≤ 'z'.val)) := rfl
  rw [hrange, Bool.and_eq_true, decide_eq_true_eq, decide_eq_true_eq]
  rfl

/-- The large letters are those from A to Z. -/
theorem isUpper_iff {c : Char} : c.isUpper = true ↔ 65 ≤ c.toNat ∧ c.toNat ≤ 90 := by
  have hrange : c.isUpper = decide (c.val ≥ 'A'.val ∧ c.val ≤ 'Z'.val) := rfl
  rw [hrange, decide_eq_true_eq]
  rfl

/-- The letters are the large and the small ones. -/
theorem isAlpha_iff {c : Char} : c.isAlpha = true ↔
    (65 ≤ c.toNat ∧ c.toNat ≤ 90) ∨ (97 ≤ c.toNat ∧ c.toNat ≤ 122) := by
  have hcase : c.isAlpha = (c.isUpper || c.isLower) := rfl
  rw [hcase, Bool.or_eq_true, isUpper_iff, isLower_iff]

/-! ## Blanks and letter case -/

section Trim

variable {before core after cs : List Char}

/-- Without blanks of its own a text loses those in front of it. -/
theorem dropWhile_isBlank_append (hbefore : ∀ c ∈ before, isBlank c = true)
    (hcore : ∀ c ∈ core, isBlank c = false) (hne : core ≠ []) :
    (before ++ (core ++ after)).dropWhile isBlank = core ++ after := by
  rw [List.dropWhile_append_of_pos hbefore]
  cases core with
  | nil => exact absurd rfl hne
  | cons c rest => simp [hcore c List.mem_cons_self]

/-- A text without blanks is what trimming leaves of it, whatever blanks stand around it. -/
theorem trimmed_eq (hbefore : ∀ c ∈ before, isBlank c = true)
    (hcore : ∀ c ∈ core, isBlank c = false) (hafter : ∀ c ∈ after, isBlank c = true)
    (hne : core ≠ []) : trimmed (before ++ core ++ after) = core := by
  have hback : (after.reverse ++ (core.reverse ++ [])).dropWhile isBlank = core.reverse ++ [] :=
    dropWhile_isBlank_append (by simpa using hafter) (by simpa using hcore) (by simpa using hne)
  rw [trimmed, List.append_assoc, dropWhile_isBlank_append hbefore hcore hne, List.reverse_append]
  simpa using congrArg List.reverse hback

/-- A text without a blank is trimmed to itself. -/
theorem trim_of_forall {text : String} (h : ∀ c ∈ text.toList, isBlank c = false)
    (hne : text.toList ≠ []) : trim text = text := by
  have htrimmed : trimmed ([] ++ text.toList ++ []) = text.toList :=
    trimmed_eq (by simp) h (by simp) hne
  rw [trim, ← String.toList_inj, String.toList_ofList]
  simpa using htrimmed

/-- Trimming takes nothing but blanks off the ends. -/
theorem exists_trimmed (cs : List Char) : ∃ before after, cs = before ++ trimmed cs ++ after ∧
    (∀ c ∈ before, isBlank c = true) ∧ ∀ c ∈ after, isBlank c = true := by
  let rest := cs.dropWhile isBlank
  refine ⟨cs.takeWhile isBlank, (rest.reverse.takeWhile isBlank).reverse, ?_,
    fun c hc => List.mem_takeWhile_imp hc, fun c hc => ?_⟩
  · have hrest : rest = trimmed cs ++ (rest.reverse.takeWhile isBlank).reverse := by
      rw [trimmed, ← List.reverse_append, List.takeWhile_append_dropWhile, List.reverse_reverse]
    rw [List.append_assoc, ← hrest, List.takeWhile_append_dropWhile]
  · rw [List.mem_reverse] at hc
    exact List.mem_takeWhile_imp hc

/-- Nothing is left of blanks and only of them. -/
theorem trimmed_eq_nil_iff : trimmed cs = [] ↔ ∀ c ∈ cs, isBlank c = true := by
  rw [trimmed, List.reverse_eq_nil_iff, List.dropWhile_eq_nil_iff]
  constructor
  · intro h c hc
    rw [← List.takeWhile_append_dropWhile (p := isBlank) (l := cs), List.mem_append] at hc
    rcases hc with hc | hc
    · exact List.mem_takeWhile_imp hc
    · exact h c (by simpa using hc)
  · intro h c hc
    rw [List.mem_reverse] at hc
    exact h c (List.dropWhile_subset _ hc)

/-- Only a small letter is changed to a large one. -/
theorem toUpper_of_isLower_eq_false {c : Char} (h : c.isLower = false) : c.toUpper = c := by
  unfold Char.toUpper
  split
  · next hrange =>
    have hlower : c.isLower = true := by
      show (decide (c.val ≥ 'a'.val) && decide (c.val ≤ 'z'.val)) = true
      simpa using hrange
    simp [hlower] at h
  · rfl

/-- A small letter is not blank. -/
theorem isBlank_of_isLower {c : Char} (h : c.isLower = true) : isBlank c = false := by
  rw [isLower_iff] at h
  simp only [isBlank, Bool.or_eq_false_iff, Bool.and_eq_false_iff, beq_eq_false_iff_ne,
    decide_eq_false_iff_not, ne_eq, ← UInt32.toNat_inj, UInt32.le_iff_toNat_le, UInt32.reduceToNat,
    Char.toNat_val]
  omega

/-- No blank becomes another character in upper case. -/
theorem isBlank_of_isBlank_toUpper {c : Char} (h : isBlank c.toUpper = false) :
    isBlank c = false := by
  cases hlower : c.isLower with
  | false => rwa [toUpper_of_isLower_eq_false hlower] at h
  | true => exact isBlank_of_isLower hlower

end Trim

/-! ## Numerals -/

/-- A digit is no letter and no blank. -/
theorem of_isDigit {c : Char} (h : c.isDigit = true) : c.isAlpha = false ∧ isBlank c = false := by
  obtain ⟨hfirst, hlast⟩ := Char.isDigit_iff_toNat.1 h
  have hzero : '0'.toNat = 48 := rfl
  have hnine : '9'.toNat = 57 := rfl
  constructor
  · rw [Bool.eq_false_iff, ne_eq, isAlpha_iff]
    omega
  · simp only [isBlank, Bool.or_eq_false_iff, Bool.and_eq_false_iff, beq_eq_false_iff_ne,
      decide_eq_false_iff_not, ne_eq, ← UInt32.toNat_inj, UInt32.le_iff_toNat_le,
      UInt32.reduceToNat, Char.toNat_val]
    omega

/-- A digit is no small letter. -/
theorem isLower_of_isDigit {c : Char} (h : c.isDigit = true) : c.isLower = false := by
  have hletter := (of_isDigit h).1
  rw [Bool.eq_false_iff, ne_eq, isAlpha_iff] at hletter
  rw [Bool.eq_false_iff, ne_eq, isLower_iff]
  omega

/-- More digits do not make a number smaller. -/
theorem le_ofDigitChars (cs : List Char) (value : Nat) : value ≤ Nat.ofDigitChars 10 cs value := by
  rw [Nat.ofDigitChars_eq_ofDigitChars_zero]
  have hpow : 0 < 10 ^ cs.length := Nat.pow_pos (by decide)
  calc value ≤ 10 ^ cs.length * value := Nat.le_mul_of_pos_left _ hpow
    _ ≤ _ := Nat.le_add_right _ _

/-- A row of digits makes a number of at most so many digits. -/
theorem ofDigitChars_lt {cs : List Char} (h : ∀ c ∈ cs, c.isDigit = true) (value : Nat) :
    Nat.ofDigitChars 10 cs value < (value + 1) * Nat.pow 10 cs.length := by
  induction cs generalizing value with
  | nil => simp
  | cons c rest ih =>
    have hdigit := Char.isDigit_iff_toNat.1 (h c List.mem_cons_self)
    have hzero : '0'.toNat = 48 := rfl
    have hnine : '9'.toNat = 57 := rfl
    rw [Nat.ofDigitChars_cons]
    calc Nat.ofDigitChars 10 rest (10 * value + (c.toNat - '0'.toNat))
        < (10 * value + (c.toNat - '0'.toNat) + 1) * Nat.pow 10 rest.length :=
          ih (fun c hc => h c (List.mem_cons_of_mem _ hc)) _
      _ ≤ (10 * (value + 1)) * Nat.pow 10 rest.length := Nat.mul_le_mul_right _ (by omega)
      _ = (value + 1) * (Nat.pow 10 rest.length * 10) := by
        rw [Nat.mul_comm 10, Nat.mul_assoc, Nat.mul_comm 10]

/-- Digits are read exactly if the number that they make is within the bound. -/
theorem readDigits_eq_ok_iff {bound value n : Nat} {cs : List Char} (h : value ≤ bound) :
    readDigits bound value cs = .ok n ↔
      (∀ c ∈ cs, c.isDigit = true) ∧ n ≤ bound ∧ Nat.ofDigitChars 10 cs value = n := by
  induction cs generalizing value with
  | nil =>
    simp only [readDigits, Nat.ofDigitChars_nil]
    constructor
    · rintro ⟨⟩
      exact ⟨by simp, h, rfl⟩
    · rintro ⟨-, -, rfl⟩
      rfl
  | cons c rest ih =>
    rw [Nat.ofDigitChars_cons, Nat.mul_comm, readDigits, digitValue?]
    cases hc : c.isDigit with
    | false => simp [hc]
    | true =>
      simp only [if_true, List.mem_cons, forall_eq_or_imp, hc, true_and]
      split
      · next hlarge =>
        have hle := le_ofDigitChars rest (value * 10 + (c.toNat - '0'.toNat))
        constructor
        · rintro ⟨⟩
        · omega
      · next hfits => exact ih (Nat.not_lt.1 hfits)

end LeaseQueue.Text
