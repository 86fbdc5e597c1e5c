import LeaseQueue.Proofs.WrittenDurations

/-!
# Printing durations

A printed duration is a written duration of the same length (`exists_written_printed`): a component
that is zero is left out, the zeros at the end of the places are taken off, and what is left of a
duration above its hours stays in the hours.  So it is read back exactly (`parse_print`), up to the
longest one.
-/

set_option autoImplicit false

namespace LeaseQueue.Iso

open Text

/-! ## Numbers -/

namespace Numeral

/-- A number without zeros in front. -/
def ofNat (n : Nat) : Numeral where
  digits := Nat.toDigits 10 n
  ne_nil := Nat.toDigits_ne_nil
  isDigit := fun _ hc => Nat.isDigit_of_mem_toDigits (by decide) (by decide) hc

/-- The value of the digits of a number is the number. -/
@[simp]
theorem value_ofNat (n : Nat) : (ofNat n).value = n :=
  Nat.ofDigitChars_ten_toDigits

/-- A number, or nothing for zero. -/
def unlessZero (n : Nat) : Option Numeral :=
  if n = 0 then none else some (ofNat n)

/-- A part that is left out when it is zero counts as zero. -/
@[simp]
theorem orZero_unlessZero (n : Nat) : orZero (unlessZero n) = n := by
  unfold unlessZero
  split
  · next h => simp [orZero, h]
  · simp [orZero]

/-- Only zero is left out. -/
theorem unlessZero_eq_none {n : Nat} : unlessZero n = none ↔ n = 0 := by
  simp [unlessZero]

/-- A part of the printed text is a number before its letter, or nothing. -/
theorem component_eq (n : Nat) (letter : Char) :
    component n letter = before (unlessZero n) letter := by
  unfold component unlessZero
  split <;> rfl

end Numeral

/-! ## Places -/

/-- Zeros in front do not change a number. -/
theorem ofDigitChars_padded (width n : Nat) : Nat.ofDigitChars 10 (padded width n) 0 = n := by
  simp [padded, Nat.ofDigitChars_append]

/-- A padded number has only digits. -/
theorem isDigit_of_mem_padded {width n : Nat} {c : Char} (hc : c ∈ padded width n) :
    c.isDigit = true := by
  rcases List.mem_append.1 hc with hc | hc
  · obtain rfl := List.eq_of_mem_replicate hc
    decide
  · exact Nat.isDigit_of_mem_toDigits (by decide) (by decide) hc

/-- A number of nanoseconds below a second is printed with nine digits. -/
theorem length_padded {n : Nat} (h : n < nanosPerSecond) : (padded 9 n).length = 9 := by
  have hlength : (Nat.toDigits 10 n).length ≤ 9 :=
    (Nat.length_toDigits_le_iff (by decide) (by decide)).2 h
  simp only [padded, List.length_append, List.length_replicate]
  omega

/-- The part of a second that is printed behind a point is one to nine places. -/
theorem exists_places {f : Nat} (hpos : f ≠ 0) (hlt : f < nanosPerSecond) :
    ∃ p : Places, fractionText 9 f = p.mark :: p.number.digits ∧ p.nanos = f := by
  obtain ⟨k, hk⟩ := exists_ending '0' (padded 9 f)
  generalize hdigits : ((padded 9 f).reverse.dropWhile (· == '0')).reverse = digits at hk
  have hvalue : Nat.ofDigitChars 10 digits 0 * Nat.pow 10 k = f := by
    rw [← ofDigitChars_filled, ← hk, ofDigitChars_padded]
  have hlength : digits.length + k = 9 := by
    rw [← length_padded hlt, hk, List.length_append, List.length_replicate]
  have hle : digits.length ≤ 9 := by omega
  have hne : digits ≠ [] := by
    rintro rfl
    simp only [Nat.ofDigitChars_nil, Nat.zero_mul] at hvalue
    exact hpos hvalue.symm
  have hall : ∀ c ∈ digits, c.isDigit = true := fun c hc =>
    isDigit_of_mem_padded (hk ▸ List.mem_append_left _ hc)
  refine ⟨⟨'.', .inl rfl, ⟨digits, hne, hall⟩, hle⟩, ?_, ?_⟩
  · rw [fractionText, if_neg hpos, hdigits]
  · rw [Places.nanos, Numeral.value]
    simp only [← hlength, Nat.add_sub_cancel_left]
    exact hvalue

/-! ## Whole durations -/

/-- The seconds that are printed, if any, are as long as the part of a minute that they show. -/
theorem exists_seconds (whole : Nat) {f : Nat} (hlt : f < nanosPerSecond) :
    ∃ s : Option Seconds,
      (s.elim [] fun s => s.chars ++ ['S']) =
        (if f = 0 then component whole 'S'
        else Nat.toDigits 10 whole ++ fractionText 9 f ++ ['S']) ∧
      s.elim 0 Seconds.nanos = whole * nanosPerSecond + f := by
  by_cases hf : f = 0
  · subst hf
    refine ⟨(Numeral.unlessZero whole).map (⟨·, none⟩), ?_, ?_⟩
    · rw [if_pos rfl, Numeral.component_eq]
      cases Numeral.unlessZero whole <;> simp [Numeral.before, Seconds.chars]
    · have hvalue := Numeral.orZero_unlessZero whole
      cases hwhole : Numeral.unlessZero whole <;> rw [hwhole] at hvalue <;>
        simp [Seconds.nanos, ← hvalue, Numeral.orZero]
  · obtain ⟨p, hchars, hnanos⟩ := exists_places hf hlt
    refine ⟨some ⟨.ofNat whole, some p⟩, ?_, ?_⟩
    · rw [if_neg hf, hchars]
      simp [Seconds.chars, Numeral.ofNat]
    · simp [Seconds.nanos, hnanos]

/-- Hours, minutes and seconds make up the whole. -/
theorem nanos_eq (d : Duration) : d.nanos = d.seconds / 3600 * 3600 * nanosPerSecond +
    (d.seconds % 3600 / 60 * 60 * nanosPerSecond +
      (d.seconds % 60 * nanosPerSecond + d.fraction)) := by
  have hwhole : d.seconds = d.seconds / 3600 * 3600 + (d.seconds % 3600 / 60 * 60 +
      d.seconds % 60) := by omega
  calc d.nanos = d.seconds * nanosPerSecond + d.fraction := by
        rw [Duration.seconds, Duration.fraction, Nat.div_add_mod']
    _ = (d.seconds / 3600 * 3600 + (d.seconds % 3600 / 60 * 60 + d.seconds % 60)) *
        nanosPerSecond + d.fraction := by rw [← hwhole]
    _ = _ := by rw [Nat.add_mul, Nat.add_mul, Nat.add_assoc, Nat.add_assoc]

/-- A duration that is not zero is printed in the components of its hours, minutes and seconds. -/
theorem exists_time_printed {d : Duration} (hd : d.nanos ≠ 0) :
    ∃ t : Time, printed d = 'P' :: 'T' :: t.chars ∧ t.nanos = d.nanos := by
  have hfraction : d.fraction < nanosPerSecond := Nat.mod_lt _ (by decide)
  obtain ⟨seconds, hchars, hnanos⟩ := exists_seconds (d.seconds % 60) hfraction
  have hsum := nanos_eq d
  rw [← hnanos] at hsum
  -- Without a component the duration would be zero.
  have hsome : (Numeral.unlessZero (d.seconds / 3600)).isSome ∨
      (Numeral.unlessZero (d.seconds % 3600 / 60)).isSome ∨ seconds.isSome := by
    by_contra hnone
    simp only [not_or, Bool.not_eq_true, Option.isSome_eq_false_iff, Option.isNone_iff_eq_none,
      Numeral.unlessZero_eq_none] at hnone
    obtain ⟨hhours, hminutes, rfl⟩ := hnone
    rw [hhours, hminutes, Option.elim_none] at hsum
    exact hd (hsum.trans (by decide))
  refine ⟨⟨_, _, seconds, hsome⟩, ?_, ?_⟩
  · rw [printed, if_neg hd]
    simp only [← hchars]
    simp [Time.chars, Numeral.component_eq, Numeral.before]
  · rw [Time.nanos, Numeral.orZero_unlessZero, Numeral.orZero_unlessZero, hsum]

/-- What is printed is a written duration of the same length. -/
theorem exists_written_printed (d : Duration) :
    ∃ w : Written, w.chars = printed d ∧ w.nanos = d.nanos := by
  by_cases hd : d.nanos = 0
  · refine ⟨⟨none, some ⟨none, none, some ⟨.ofNat 0, none⟩, .inr (.inr rfl)⟩, .inr rfl⟩, ?_, ?_⟩
    · rw [printed, if_pos hd]
      decide
    · rw [hd]
      decide
  · obtain ⟨t, hchars, hnanos⟩ := exists_time_printed hd
    refine ⟨⟨none, some t, .inr rfl⟩, hchars.symm, ?_⟩
    rw [Written.nanos, Option.elim_some, hnanos, Numeral.orZero, Option.elim_none, Nat.zero_mul,
      Nat.zero_add]

/-- A printed duration is read back as it was. -/
theorem parse_print (d : Duration) : parse (print d) = .ok d := by
  obtain ⟨w, hchars, hnanos⟩ := exists_written_printed d
  rw [parse_eq_ok_iff, parse?_eq_some_iff]
  refine ⟨w, ⟨[], printed d, [], by simp [print], by simp, by simp, ?_⟩, hnanos⟩
  rw [← hchars]
  calc w.chars.map Char.toUpper = w.chars.map id :=
        List.map_congr_left fun c hc => toUpper_of_isLower_eq_false (w.isPlain c hc).2
    _ = w.chars := List.map_id _

end LeaseQueue.Iso
