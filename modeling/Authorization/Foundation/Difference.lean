import Mathlib

/-!
# Differences of partial functions

How two partial functions differ at a point: the second has a value where the first
has none, the other way round, or both have values that differ.  Turning the pair
around exchanges the first two (`difference_swap`), and the points without a
difference are those where the functions agree (`difference_eq_none`), which is
symmetric and transitive.
-/

namespace Authorization.Foundation

inductive Difference
  | added | removed | changed
deriving DecidableEq, Repr

namespace Difference

def swap : Difference → Difference
  | .added => .removed
  | .removed => .added
  | .changed => .changed

@[simp] theorem swap_swap (d : Difference) : d.swap.swap = d := by
  cases d with
  | added => rfl
  | removed => rfl
  | changed => rfl

end Difference

section

variable {κ α : Type*} [DecidableEq α]

def difference (f g : κ → Option α) (k : κ) : Option Difference :=
  match f k, g k with
  | none, none => none
  | none, some _ => some .added
  | some _, none => some .removed
  | some a, some b => if a = b then none else some .changed

variable {f g h : κ → Option α} {k : κ}

theorem difference_eq_none : difference f g k = none ↔ f k = g k := by
  unfold difference
  cases f k with
  | none =>
    cases g k with
    | none => simp
    | some b => simp
  | some a =>
    cases g k with
    | none => simp
    | some b => simp

theorem difference_eq_added : difference f g k = some .added ↔ f k = none ∧ ∃ b, g k = some b := by
  unfold difference
  cases f k with
  | none =>
    cases g k with
    | none => simp
    | some b => simp
  | some a =>
    cases g k with
    | none => simp
    | some b => by_cases hab : a = b <;> simp [hab]

theorem difference_eq_changed : difference f g k = some .changed ↔
    ∃ a b, f k = some a ∧ g k = some b ∧ a ≠ b := by
  unfold difference
  cases f k with
  | none =>
    cases g k with
    | none => simp
    | some b => simp
  | some a =>
    cases g k with
    | none => simp
    | some b => by_cases hab : a = b <;> simp [hab]

/-- **Turning the pair around.** -/
theorem difference_swap : difference g f k = (difference f g k).map Difference.swap := by
  unfold difference
  cases f k with
  | none =>
    cases g k with
    | none => rfl
    | some b => rfl
  | some a =>
    cases g k with
    | none => rfl
    | some b =>
      by_cases hab : a = b
      · simp [hab]
      · simp [hab, Ne.symm hab, Difference.swap]

theorem difference_swap_iff {d : Difference} :
    difference g f k = some d ↔ difference f g k = some d.swap := by
  rw [difference_swap, Option.map_eq_some_iff]
  constructor
  · rintro ⟨e, he, rfl⟩
    rw [Difference.swap_swap]
    exact he
  · intro he
    exact ⟨_, he, Difference.swap_swap d⟩

/-- **What agrees twice agrees.** -/
theorem difference_trans (hfg : difference f g k = none) (hgh : difference g h k = none) :
    difference f h k = none :=
  difference_eq_none.mpr ((difference_eq_none.mp hfg).trans (difference_eq_none.mp hgh))

end

end Authorization.Foundation
