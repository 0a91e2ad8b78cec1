import Mathlib

/-!
# Guarded transition systems

A protocol is a set of initial states and a step function: `step s a` is the
state after action `a`, or `none` when `a` is not enabled in `s`.  Reachable
states and runs are defined once, with the two rules the protocols use:
an invariant is shown at the start and across one step (`Reachable.invariant`),
and a concrete run is evaluated (`Reachable.run`).
-/

namespace Authorization.Foundation

/-- Initial states and guarded steps. -/
structure System (σ α : Type*) where
  init : σ → Prop
  step : σ → α → Option σ

namespace System

variable {σ α : Type*} {S : System σ α}

/-- The states reached from an initial one. -/
inductive Reachable (S : System σ α) : σ → Prop
  | init {s : σ} : S.init s → Reachable S s
  | step {s s' : σ} {a : α} : Reachable S s → S.step s a = some s' → Reachable S s'

/-- **The invariant rule.**  The step case may use that the state is reachable. -/
theorem Reachable.invariant {P : σ → Prop} (hinit : ∀ s, S.init s → P s)
    (hstep : ∀ s a s', S.Reachable s → P s → S.step s a = some s' → P s') :
    ∀ {s : σ}, S.Reachable s → P s := by
  intro s h
  induction h with
  | init h => exact hinit _ h
  | step hr hs ih => exact hstep _ _ _ hr ih hs

/-- The state after a list of actions. -/
def run (S : System σ α) : σ → List α → Option σ
  | s, [] => some s
  | s, a :: as => (S.step s a).bind fun s' => S.run s' as

@[simp] theorem run_nil (s : σ) : S.run s [] = some s := rfl

theorem run_cons (s : σ) (a : α) (as : List α) :
    S.run s (a :: as) = (S.step s a).bind fun s' => S.run s' as := rfl

/-- A run begins with its first step. -/
theorem run_of_step {s s₁ s' : σ} {a : α} {as : List α} (hstep : S.step s a = some s₁)
    (hrun : S.run s₁ as = some s') : S.run s (a :: as) = some s' := by
  rw [run_cons, hstep, Option.bind_some, hrun]

/-- A run from a reachable state ends in one. -/
theorem Reachable.run : ∀ {as : List α} {s s' : σ}, S.Reachable s → S.run s as = some s' →
    S.Reachable s' := by
  intro as
  induction as with
  | nil => intro s s' h hr; rw [run_nil] at hr; cases hr; exact h
  | cons a as ih =>
    intro s s' h hr
    rw [run_cons] at hr
    obtain ⟨t, ht, hr⟩ := Option.bind_eq_some_iff.mp hr
    exact ih (h.step ht) hr

/-- A run that ends in a state with a checked property. -/
theorem Reachable.exists_of_run {s : σ} (h : S.Reachable s) (as : List α) {p : σ → Bool}
    (hrun : (S.run s as).any p = true) : ∃ s', S.Reachable s' ∧ p s' = true := by
  cases hs : S.run s as with
  | none => rw [hs] at hrun; cases hrun
  | some s' =>
    rw [hs] at hrun
    exact ⟨s', h.run hs, hrun⟩

/-- **The rule for what never goes back**: a relation that every step of a
reachable state keeps is kept along every run from one. -/
theorem Reachable.run_rel {R : σ → σ → Prop} (hrefl : ∀ s, R s s)
    (htrans : ∀ s t u, R s t → R t u → R s u)
    (hstep : ∀ s a s', S.Reachable s → S.step s a = some s' → R s s') :
    ∀ {as : List α} {s s' : σ}, S.Reachable s → S.run s as = some s' → R s s' := by
  intro as
  induction as with
  | nil => intro s s' _ hr; rw [run_nil] at hr; cases hr; exact hrefl s
  | cons a as ih =>
    intro s s' h hr
    rw [run_cons] at hr
    obtain ⟨t, ht, hr⟩ := Option.bind_eq_some_iff.mp hr
    exact htrans _ _ _ (hstep _ _ _ h ht) (ih (h.step ht) hr)

end System

/-! ### Processes kept in a list -/

section Processes

variable {α : Type*} {l : List α} {i j : Nat} {a b : α}

theorem getElem?_set_cases (h : (l.set i a)[j]? = some b) : (j = i ∧ b = a) ∨ l[j]? = some b := by
  rw [List.getElem?_set] at h
  split at h
  · rename_i hij
    split at h
    · cases h
      exact Or.inl ⟨hij.symm, rfl⟩
    · cases h
  · exact Or.inr h

theorem getElem?_concat_cases (h : (l ++ [a])[j]? = some b) :
    (j = l.length ∧ b = a) ∨ l[j]? = some b := by
  rw [List.getElem?_append] at h
  split at h
  · exact Or.inr h
  · rename_i hj
    obtain ⟨hlt, heq⟩ := List.getElem?_eq_some_iff.mp h
    have hlen : j - l.length < 1 := hlt
    have hj0 : j = l.length := by omega
    subst hj0
    refine Or.inl ⟨rfl, ?_⟩
    simpa using heq.symm

end Processes

end Authorization.Foundation
