import Mathlib

/-!
# Instants

A `time.Time` is an instant and the zone it is shown in.  The instant is
counted in nanoseconds from the zero time, 1 January of year 1, 00:00 UTC, and
the zone is its offset east of UTC in seconds.  Comparison looks at the instant
only.  A `time.Duration` is a signed 64-bit count of nanoseconds, and `Sub`
saturates at its ends.
-/

namespace Authorization.Foundation

structure Time where
  nanos : Int
  offset : Int := 0
deriving DecidableEq, Repr

/-- A `time.Duration`, in nanoseconds. -/
abbrev Duration := Int

def maxDuration : Int := 2 ^ 63 - 1
def minDuration : Int := -2 ^ 63

namespace Time

/-- The zero `Time`. -/
def zero : Time := ⟨0, 0⟩

def isZero (t : Time) : Bool := t.nanos == 0

def before (t u : Time) : Bool := decide (t.nanos < u.nanos)

def after (t u : Time) : Bool := decide (u.nanos < t.nanos)

def equal (t u : Time) : Bool := t.nanos == u.nanos

/-- `t.Sub(u)`. -/
def sub (t u : Time) : Duration := max minDuration (min maxDuration (t.nanos - u.nanos))

/-- `t.UTC()`. -/
def utc (t : Time) : Time := ⟨t.nanos, 0⟩

/-- Below the end of its range `Sub` bounds the difference. -/
theorem sub_le_of_sub_le {t u : Time} {d : Int} (hd : d < maxDuration) (h : t.sub u ≤ d) :
    t.nanos - u.nanos ≤ d := by
  rw [sub, max_le_iff, min_le_iff] at h
  exact h.2.resolve_left (not_le.mpr hd)

end Time

end Authorization.Foundation
