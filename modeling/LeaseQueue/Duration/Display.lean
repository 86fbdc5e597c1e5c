import LeaseQueue.Duration
import LeaseQueue.Text.Numeral

/-!
# Durations in messages

A message gives a duration in the largest of the units second, millisecond, microsecond and
nanosecond of which it holds at least one.  The fraction is exact and has no zeros at its end.
-/

set_option autoImplicit false

namespace LeaseQueue

open Text

/-- A fraction of `width` digits behind a point, without the zeros at its end; nothing for zero. -/
def fractionText (width : Nat) (value : Nat) : List Char :=
  if value = 0 then []
  else '.' :: ((padded width value).reverse.dropWhile (· == '0')).reverse

/-- The duration in its unit. -/
def Duration.display (d : Duration) : String :=
  let inUnit (unit : Nat) (width : Nat) (suffix : List Char) : String :=
    String.ofList
      (Nat.toDigits 10 (d.nanos / unit) ++ fractionText width (d.nanos % unit) ++ suffix)
  if nanosPerSecond ≤ d.nanos then inUnit nanosPerSecond 9 ['s']
  else if nanosPerMilli ≤ d.nanos then inUnit nanosPerMilli 6 ['m', 's']
  else if nanosPerMicro ≤ d.nanos then inUnit nanosPerMicro 3 ['\u00b5', 's']
  else inUnit 1 0 ['n', 's']

end LeaseQueue
