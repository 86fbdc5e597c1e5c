/-!
# Durations

A duration is a number of nanoseconds of at most 2^64 seconds less one nanosecond.  Sums and
products that would be longer stop at the longest duration; `add?` and `ofNanos?` refuse them
instead.
-/

set_option autoImplicit false

namespace LeaseQueue

/-- Nanoseconds in a second. -/
def nanosPerSecond : Nat := 1000000000

/-- Nanoseconds in a millisecond. -/
def nanosPerMilli : Nat := 1000000

/-- Nanoseconds in a microsecond. -/
def nanosPerMicro : Nat := 1000

/-- The first number of nanoseconds that is too long: 2^64 seconds. -/
def Duration.limit : Nat := 18446744073709551616 * nanosPerSecond

/-- A length of time in whole nanoseconds. -/
structure Duration where
  nanos : Nat
  lt_limit : nanos < Duration.limit
deriving DecidableEq, Repr

namespace Duration

/-- No time at all. -/
def zero : Duration := ⟨0, by decide⟩

/-- The longest duration: 2^64 seconds less one nanosecond. -/
def longest : Duration := ⟨limit - 1, by decide⟩

instance : Inhabited Duration := ⟨zero⟩

/-- The duration of a number of nanoseconds, unless that is too long. -/
def ofNanos? (n : Nat) : Option Duration :=
  if h : n < limit then some ⟨n, h⟩ else none

/-- The duration of a number of nanoseconds, or the longest one if that is too long. -/
def ofNanos (n : Nat) : Duration :=
  if h : n < limit then ⟨n, h⟩ else longest

/-- The duration of a number of seconds, or the longest one if that is too long. -/
def ofSeconds (n : Nat) : Duration := ofNanos (n * nanosPerSecond)

/-- The duration of a number of milliseconds, or the longest one if that is too long. -/
def ofMillis (n : Nat) : Duration := ofNanos (n * nanosPerMilli)

/-- The whole seconds of a duration. -/
def seconds (d : Duration) : Nat := d.nanos / nanosPerSecond

/-- The nanoseconds of a duration beyond its whole seconds. -/
def fraction (d : Duration) : Nat := d.nanos % nanosPerSecond

/-- The whole milliseconds of a duration. -/
def millis (d : Duration) : Nat := d.nanos / nanosPerMilli

/-- The whole milliseconds of a duration as a number of 64 bits: the excess is dropped. -/
def millisWord (d : Duration) : Nat := d.millis % 18446744073709551616

/-- The sum of two durations, unless it is too long. -/
def add? (a b : Duration) : Option Duration := ofNanos? (a.nanos + b.nanos)

/-- The sum of two durations, or the longest one if it is too long. -/
def add (a b : Duration) : Duration := ofNanos (a.nanos + b.nanos)

/-- A multiple of a duration, or the longest one if it is too long. -/
def scale (d : Duration) (n : Nat) : Duration := ofNanos (d.nanos * n)

/-- The shorter of two durations. -/
def shorter (a b : Duration) : Duration := if b.nanos < a.nanos then b else a

/-- No duration is longer than the longest one. -/
theorem nanos_le_longest (d : Duration) : d.nanos ≤ longest.nanos :=
  Nat.le_pred_of_lt d.lt_limit

/-- Durations of the same number of nanoseconds are the same. -/
@[ext]
theorem ext {a b : Duration} (h : a.nanos = b.nanos) : a = b := by
  cases a; cases b; cases h; rfl

/-- Too many nanoseconds are cut down to the longest duration. -/
theorem nanos_ofNanos (n : Nat) : (ofNanos n).nanos = min n longest.nanos := by
  unfold ofNanos
  split
  · next h => exact (Nat.min_eq_left (Nat.le_pred_of_lt h)).symm
  · next h => exact (Nat.min_eq_right (Nat.le_trans (Nat.sub_le _ _) (Nat.not_lt.mp h))).symm

/-- A number of nanoseconds that is a duration is its number of nanoseconds. -/
theorem ofNanos?_eq_some {n : Nat} {d : Duration} : ofNanos? n = some d ↔ d.nanos = n := by
  unfold ofNanos?
  constructor
  · intro h
    split at h
    · cases h; rfl
    · cases h
  · rintro rfl
    exact dif_pos d.lt_limit

/-- The shorter of two durations has the smaller number of nanoseconds. -/
theorem nanos_shorter (a b : Duration) : (shorter a b).nanos = min a.nanos b.nanos := by
  unfold shorter
  split <;> omega

end Duration

end LeaseQueue
