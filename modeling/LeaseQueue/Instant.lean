import LeaseQueue.Duration

/-!
# Instants and the clock

An instant is a number of nanoseconds since the start of 1970, inside a calendar that reaches from
the year -262143 to the year 262142.  A deadline beyond the calendar does not exist; a clock that
would leave it stays where it is.
-/

set_option autoImplicit false

namespace LeaseQueue

/-- The first nanosecond of the calendar. -/
def calendarStart : Int := -8334601228800000000000

/-- The last nanosecond of the calendar. -/
def calendarEnd : Int := 8210266876799999999999

/-- A point of time inside the calendar. -/
structure Instant where
  nanos : Int
  start_le : calendarStart ≤ nanos
  le_end : nanos ≤ calendarEnd
deriving DecidableEq

namespace Instant

/-- The start of 1970. -/
def epoch : Instant := ⟨0, by decide, by decide⟩

instance : Inhabited Instant := ⟨epoch⟩

/-- The instant of a number of nanoseconds, if it lies inside the calendar. -/
def ofNanos? (n : Int) : Option Instant :=
  if h : calendarStart ≤ n ∧ n ≤ calendarEnd then some ⟨n, h.1, h.2⟩ else none

/-- The instant of a number of nanoseconds, or the end of the calendar on its side. -/
def ofNanos (n : Int) : Instant :=
  if h : n < calendarStart then ⟨calendarStart, by decide, by decide⟩
  else if h' : calendarEnd < n then ⟨calendarEnd, by decide, by decide⟩
  else ⟨n, by omega, by omega⟩

/-- The instant one duration later, if the calendar reaches that far. -/
def after? (t : Instant) (d : Duration) : Option Instant :=
  ofNanos? (t.nanos + d.nanos)

/-- The instant one duration later, or the same one if the calendar ends before. -/
def advance (t : Instant) (d : Duration) : Instant :=
  (t.after? d).getD t

/-- The time from `since` to `t`, and none if `since` is the later one. -/
def elapsed (t since : Instant) : Duration :=
  Duration.ofNanos (t.nanos - since.nanos).toNat

/-- Instants of the same number of nanoseconds are the same. -/
@[ext]
theorem ext {a b : Instant} (h : a.nanos = b.nanos) : a = b := by
  cases a; cases b; cases h; rfl

/-- A number of nanoseconds inside the calendar is that of its instant. -/
theorem ofNanos?_eq_some {n : Int} {t : Instant} : ofNanos? n = some t ↔ t.nanos = n := by
  unfold ofNanos?
  constructor
  · intro h
    split at h
    · cases h; rfl
    · cases h
  · intro h
    subst h
    simp [t.start_le, t.le_end]

/-- The instant one duration later, if there is one, has the sum of the nanoseconds. -/
theorem after?_eq_some {t u : Instant} {d : Duration} :
    t.after? d = some u ↔ u.nanos = t.nanos + d.nanos :=
  ofNanos?_eq_some

/-- There is no instant one duration later just if the calendar ends before. -/
theorem after?_eq_none {t : Instant} {d : Duration} :
    t.after? d = none ↔ calendarEnd < t.nanos + d.nanos := by
  have := t.start_le
  unfold after? ofNanos?
  split <;> simp <;> omega

end Instant

end LeaseQueue
