import Mathlib.Data.List.Basic

/-!
# Binary search

The loop of `sort.Search` over a property that, once it holds of an index, holds of
all later ones.  What is known in each turn is that the property fails before the
interval and holds after it; the interval is halved, so as many turns as there are
indices are enough.  On a list this finds what a scan from the front finds
(`binarySearch_eq_findIdx`).
-/

namespace Authorization.Foundation

/-- The loop; the first index with the property is between `low` and `high`. -/
def binarySearchFrom (p : Nat → Bool) : Nat → Nat → Nat → Nat
  | 0, low, _ => low
  | fuel + 1, low, high =>
    if low < high then
      if !p ((low + high) / 2) then binarySearchFrom p fuel ((low + high) / 2 + 1) high
      else binarySearchFrom p fuel low ((low + high) / 2)
    else low

def binarySearch (n : Nat) (p : Nat → Bool) : Nat := binarySearchFrom p n 0 n

/-- The index divides those below `n` into the ones without and the ones with the
property. -/
structure Divides (p : Nat → Bool) (n index : Nat) : Prop where
  le : index ≤ n
  before : ∀ i < index, p i = false
  after : ∀ i, index ≤ i → i < n → p i = true

theorem binarySearchFrom_divides {p : Nat → Bool} {n : Nat}
    (hp : ∀ i j, i ≤ j → j < n → p i = true → p j = true) :
    ∀ (fuel low high : Nat), high - low ≤ fuel → low ≤ high → high ≤ n →
      (∀ i < low, p i = false) → (∀ i, high ≤ i → i < n → p i = true) →
      Divides p n (binarySearchFrom p fuel low high) := by
  intro fuel
  induction fuel with
  | zero =>
    intro low high hfuel hle hn hbefore hafter
    have heq : high = low := by omega
    subst heq
    exact ⟨hn, hbefore, hafter⟩
  | succ fuel ih =>
    intro low high hfuel hle hn hbefore hafter
    rw [binarySearchFrom]
    split
    · rename_i hlt
      have hmiddle : low ≤ (low + high) / 2 ∧ (low + high) / 2 < high := by omega
      generalize (low + high) / 2 = middle at hmiddle ⊢
      cases hfound : p middle with
      | false =>
        refine ih (middle + 1) high (by omega) (by omega) hn (fun i hi => ?_) hafter
        -- an index before the middle with the property would give it to the middle
        cases hi' : p i with
        | false => rfl
        | true =>
          rw [hp i middle (by omega) (by omega) hi'] at hfound
          exact hfound
      | true =>
        refine ih low middle (by omega) hmiddle.1 (by omega) hbefore (fun i hi hin => ?_)
        exact hp middle i hi hin hfound
    · have heq : high = low := by omega
      subst heq
      exact ⟨hn, hbefore, hafter⟩

theorem binarySearch_divides {p : Nat → Bool} {n : Nat}
    (hp : ∀ i j, i ≤ j → j < n → p i = true → p j = true) :
    Divides p n (binarySearch n p) :=
  binarySearchFrom_divides hp n 0 n (Nat.sub_le n 0) (Nat.zero_le n) (Nat.le_refl n)
    (fun i hi => absurd hi (Nat.not_lt_zero i)) (fun _ hi hin => absurd hin (Nat.not_lt.mpr hi))

/-- **Binary search finds the first.** -/
theorem binarySearch_eq_findIdx {α : Type*} {p : α → Bool} {l : List α}
    (hp : l.Pairwise fun a b => p a = true → p b = true) :
    binarySearch l.length (fun i => l[i]?.any p) = l.findIdx p := by
  have hindex : ∀ i (hi : i < l.length), l[i]?.any p = p l[i] := by
    intro i hi
    rw [List.getElem?_eq_getElem hi]
    rfl
  have hdivides : Divides (fun i => l[i]?.any p) l.length
      (binarySearch l.length fun i => l[i]?.any p) := by
    refine binarySearch_divides fun i j hij hj hi => ?_
    rw [hindex i (by omega)] at hi
    rw [hindex j hj]
    rcases Nat.lt_or_eq_of_le hij with hlt | rfl
    · exact List.pairwise_iff_getElem.mp hp i j (by omega) hj hlt hi
    · exact hi
  generalize (binarySearch l.length fun i => l[i]?.any p) = index at hdivides
  symm
  rcases Nat.lt_or_eq_of_le hdivides.le with hlt | rfl
  · refine (List.findIdx_eq hlt).mpr ⟨?_, fun j hj => ?_⟩
    · rw [← hindex index hlt]
      exact hdivides.after index (Nat.le_refl index) hlt
    · have hbefore := hdivides.before j hj
      rw [hindex j (by omega)] at hbefore
      exact hbefore
  · refine List.findIdx_eq_length_of_false fun x hx => ?_
    obtain ⟨i, hi, rfl⟩ := List.mem_iff_getElem.mp hx
    have hbefore := hdivides.before i hi
    rw [hindex i hi] at hbefore
    exact hbefore

end Authorization.Foundation
