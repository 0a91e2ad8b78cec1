import Mathlib

/-!
# Metered computations

A computation that pays for its steps from a budget.  What it would do with enough
to spend is a `Priced` value; `Metered` says how a run that starts with some of the
budget spent can end: with that value, with the budget exhausted, or interrupted
from outside.  The rules compose runs the way `tick` and `bind` compose prices.
-/

namespace Authorization.Foundation

/-- A value and what it costs. -/
structure Priced (α : Type*) where
  value : α
  price : Nat

namespace Priced

variable {α β : Type*}

def free (a : α) : Priced α := ⟨a, 0⟩

/-- One more to pay, in advance. -/
def tick (p : Priced α) : Priced α := ⟨p.value, p.price + 1⟩

def bind (p : Priced α) (f : α → Priced β) : Priced β :=
  ⟨(f p.value).value, p.price + (f p.value).price⟩

@[simp] theorem free_value (a : α) : (free a).value = a := rfl
@[simp] theorem free_price (a : α) : (free a).price = 0 := rfl
@[simp] theorem tick_value (p : Priced α) : p.tick.value = p.value := rfl
@[simp] theorem tick_price (p : Priced α) : p.tick.price = p.price + 1 := rfl
@[simp] theorem bind_value (p : Priced α) (f : α → Priced β) :
    (p.bind f).value = (f p.value).value := rfl
@[simp] theorem bind_price (p : Priced α) (f : α → Priced β) :
    (p.bind f).price = p.price + (f p.value).price := rfl

end Priced

/-- How a metered run ends. -/
inductive Ending (α ε : Type*)
  | finished (value : α)
  | exhausted
  | interrupted (cause : ε)

/-- A run of `p` that starts at `spent` ends in this way, with the counter at `n`. -/
inductive Metered {α ε : Type*} (causes : ε → Prop) (p : Priced α) (budget : Int) (spent : Nat) :
    Ending α ε → Nat → Prop
  | finished : spent + p.price ≤ budget → Metered causes p budget spent (.finished p.value)
      (spent + p.price)
  | exhausted {n : Nat} : budget < spent + p.price → n = budget →
      Metered causes p budget spent .exhausted n
  | interrupted {n : Nat} {cause : ε} : causes cause → n ≤ budget →
      Metered causes p budget spent (.interrupted cause) n

namespace Metered

variable {α β ε : Type*} {causes : ε → Prop} {p : Priced α} {budget : Int} {spent n : Nat}

/-- The counter stays within the budget. -/
theorem le {ending : Ending α ε} (h : Metered causes p budget spent ending n) : n ≤ budget := by
  cases h with
  | finished h => exact h
  | exhausted _ h => omega
  | interrupted _ h => exact h

theorem free {a : α} (h : spent ≤ budget) :
    Metered causes (.free a) budget spent (.finished a) spent :=
  .finished (p := Priced.free a) h

/-- The first payment is made. -/
theorem tick {ending : Ending α ε} (h : Metered causes p budget (spent + 1) ending n) :
    Metered causes p.tick budget spent ending n := by
  have hprice : spent + 1 + p.price = spent + p.tick.price := by
    rw [Priced.tick_price]
    omega
  cases h with
  | finished h =>
    rw [hprice]
    refine .finished (p := p.tick) ?_
    omega
  | exhausted h hn => exact .exhausted (by omega) hn
  | interrupted h hn => exact .interrupted h hn

/-- There is nothing left for the first payment. -/
theorem tick_exhausted (h : (spent : Int) = budget) :
    Metered causes p.tick budget spent .exhausted spent := by
  refine .exhausted ?_ h
  rw [Priced.tick_price]
  omega

/-- What a finished run is followed by ends the whole. -/
theorem bind {f : α → Priced β} {a : α} {m : Nat} {ending : Ending β ε}
    (hp : Metered causes p budget spent (.finished a) n)
    (hf : Metered causes (f a) budget n ending m) : Metered causes (p.bind f) budget spent ending m := by
  cases hp
  have hprice : spent + p.price + (f p.value).price = spent + (p.bind f).price := by
    rw [Priced.bind_price]
    omega
  cases hf with
  | finished h =>
    rw [hprice]
    refine .finished (p := p.bind f) ?_
    omega
  | exhausted h hm => exact .exhausted (by omega) hm
  | interrupted h hm => exact .interrupted h hm

theorem bind_exhausted {f : α → Priced β} (hp : Metered causes p budget spent .exhausted n) :
    Metered causes (p.bind f) budget spent .exhausted n := by
  cases hp with
  | exhausted h hn =>
    refine .exhausted ?_ hn
    rw [Priced.bind_price]
    omega

theorem bind_interrupted {f : α → Priced β} {cause : ε}
    (hp : Metered causes p budget spent (.interrupted cause) n) :
    Metered causes (p.bind f) budget spent (.interrupted cause) n := by
  cases hp with
  | interrupted h hn => exact .interrupted h hn

/-- Without interruptions the budget alone decides how a run ends. -/
theorem settled {ending : Ending α ε} (h : Metered causes p budget spent ending n)
    (hquiet : ∀ cause, ¬ causes cause) :
    (spent + p.price ≤ budget ∧ ending = .finished p.value ∧ n = spent + p.price) ∨
      (budget < spent + p.price ∧ ending = .exhausted ∧ n = budget) := by
  cases h with
  | finished h => exact Or.inl ⟨h, rfl, rfl⟩
  | exhausted h hn => exact Or.inr ⟨h, rfl, hn⟩
  | interrupted h _ => exact absurd h (hquiet _)

end Metered

end Authorization.Foundation
