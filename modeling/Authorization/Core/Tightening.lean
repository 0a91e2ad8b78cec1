import Authorization.Core.Law

/-!
# Tightening

When a list of laws is no more permissive than another on a request.  A law may be
replaced by one that keeps its denials and adds no allowance; a law that does not
allow may be added and one that does not deny taken away, anywhere in the list.

The order of the list and the first decisive ruling matter to three of the four
algorithms, and refusals end the evaluation.  Still no algorithm allows the request
after such a change if it did not before (`allow_of_tightened`).
-/

namespace Authorization.Core

open Authorization.Foundation

/-- What the first law admits the second admits, with a ruling no less permissive. -/
structure Law.TightensAt (law' law : Law) (request : Request) : Prop where
  admits : law'.Admits request → law.Admits request
  denies : law.ruling request = .deny → law'.ruling request = .deny
  allows : law'.ruling request = .allow → law.ruling request = .allow

/-- Laws in order, changed one by one. -/
inductive Tightened (request : Request) : List Law → List Law → Prop
  | nil : Tightened request [] []
  | keep {law' law : Law} {laws' laws : List Law} (tightens : law'.TightensAt law request)
      (rest : Tightened request laws' laws) : Tightened request (law' :: laws') (law :: laws)
  | add {law' : Law} {laws' laws : List Law} (ruling : law'.ruling request ≠ .allow)
      (rest : Tightened request laws' laws) : Tightened request (law' :: laws') laws
  | drop {law : Law} {laws' laws : List Law} (admits : law.Admits request)
      (ruling : law.ruling request ≠ .deny) (rest : Tightened request laws' laws) :
      Tightened request laws' (law :: laws)

/-- A law that lost no denial and gained no allowance. -/
theorem Law.tightensAt_of_items {law' law : Law} {request : Request}
    (hadmits : law'.Admits request → law.Admits request)
    (hkept : ∀ item ∈ law.matched request, item.2 = .deny → item ∈ law'.matched request)
    (hadded : ∀ item ∈ law'.matched request, item.2 ≠ .deny → item ∈ law.matched request) :
    law'.TightensAt law request := by
  refine ⟨hadmits, fun h => ?_, fun h => ?_⟩
  · obtain ⟨item, hitem, heffect⟩ := ruling_eq_deny.mp h
    exact ruling_eq_deny.mpr ⟨item, hkept item hitem heffect, heffect⟩
  · obtain ⟨⟨item, hitem⟩, hnone⟩ := ruling_eq_allow.mp h
    refine ruling_eq_allow.mpr ⟨⟨item, hadded item hitem (hnone item hitem)⟩, ?_⟩
    exact fun other hother heffect => hnone other (hkept other hother heffect) heffect

theorem Law.TightensAt.refl (law : Law) (request : Request) : law.TightensAt law request :=
  ⟨id, id, id⟩

variable {algorithm : CombiningAlgorithm} {request : Request}

theorem eq_allow_of_decisive {outcome : Outcome} (hle : outcome ≤ .deny)
    (hdecisive : isDecisive algorithm outcome = true) (hdeny : outcome ≠ .deny) :
    outcome = .allow := by
  rcases Outcome.cases_of_le_deny hle with h | h | h
  · exact absurd h (ne_notApplicable_of_isDecisive hdecisive)
  · exact h
  · exact absurd h hdeny

/-- The answers that are no denial: an applicable one is an allowance. -/
theorem eq_allow_of_applies {laws : List Law} {outcome : Outcome}
    (h : jointAnswer algorithm request laws = some outcome) (hdeny : outcome ≠ .deny)
    (happlies : outcome ≠ .notApplicable) : outcome = .allow := by
  rcases Outcome.cases_of_le_deny (le_deny_of_jointAnswer h) with h | h | h
  · exact absurd h happlies
  · exact h
  · exact absurd h hdeny

/-- What comes out of a first ruling and the others is no denial. -/
theorem ne_deny_of_others {outcome others : Outcome}
    (h : (if others = .notApplicable then outcome else others) ≠ .deny) : others ≠ .deny := by
  rintro rfl
  rw [if_neg (by decide)] at h
  exact h rfl

/-- **Tightening keeps every answer that is not a denial**, and an allowance was one
before. -/
theorem jointAnswer_of_tightened {laws' laws : List Law} (h : Tightened request laws' laws) :
    ∀ {outcome' : Outcome}, jointAnswer algorithm request laws' = some outcome' →
      outcome' ≠ .deny → ∃ outcome, jointAnswer algorithm request laws = some outcome ∧
        outcome ≠ .deny ∧ (outcome' = .allow → outcome = .allow) := by
  induction h with
  | nil =>
    intro outcome' h hdeny
    exact ⟨outcome', h, hdeny, id⟩
  | @keep law' law laws' laws tightens _ ih =>
    intro outcome' h hdeny
    obtain ⟨hadmits', ⟨hdecisive', rfl⟩ | ⟨hdecisive', others', hothers', rfl⟩⟩ :=
      jointAnswer_cons_eq_some.mp h
    · have hallow' := eq_allow_of_decisive (Law.ruling_le law' request) hdecisive' hdeny
      have hallow := tightens.allows hallow'
      refine ⟨.allow, jointAnswer_cons_eq_some.mpr ⟨tightens.admits hadmits', Or.inl ⟨?_, ?_⟩⟩,
        by decide, fun _ => rfl⟩
      · rw [hallow, ← hallow']
        exact hdecisive'
      · exact hallow.symm
    · obtain ⟨others, hothers, hnot, hallows⟩ := ih hothers' (ne_deny_of_others hdeny)
      by_cases hdecisive : isDecisive algorithm (law.ruling request) = true
      · -- a decisive ruling of the old law can only be an allowance
        have hallow : law.ruling request = .allow := by
          refine eq_allow_of_decisive (Law.ruling_le law request) hdecisive fun hdenied => ?_
          rw [tightens.denies hdenied, ← hdenied] at hdecisive'
          exact hdecisive' hdecisive
        exact ⟨.allow, jointAnswer_cons_eq_some.mpr
          ⟨tightens.admits hadmits', Or.inl ⟨hdecisive, hallow.symm⟩⟩, by decide, fun _ => rfl⟩
      · refine ⟨_, jointAnswer_cons_eq_some.mpr ⟨tightens.admits hadmits',
          Or.inr ⟨hdecisive, others, hothers, rfl⟩⟩, ?_, fun hallow => ?_⟩
        · split
          · rename_i hnone
            intro hdenied
            have hnone' : others' = .notApplicable := by
              by_contra happlies
              rw [hallows (eq_allow_of_applies hothers' (ne_deny_of_others hdeny) happlies)] at hnone
              exact absurd hnone (by decide)
            rw [if_pos hnone', tightens.denies hdenied] at hdeny
            exact hdeny rfl
          · exact hnot
        · by_cases hnone' : others' = .notApplicable
          · rw [if_pos hnone'] at hallow
            split
            · exact tightens.allows hallow
            · rename_i happlies
              exact eq_allow_of_applies hothers hnot happlies
          · rw [if_neg hnone'] at hallow
            rw [hallows hallow, if_neg (by decide)]
  | @add law' laws' laws ruling _ ih =>
    intro outcome' h hdeny
    obtain ⟨-, ⟨hdecisive', rfl⟩ | ⟨-, others', hothers', rfl⟩⟩ := jointAnswer_cons_eq_some.mp h
    · exact absurd (eq_allow_of_decisive (Law.ruling_le law' request) hdecisive' hdeny) ruling
    · obtain ⟨others, hothers, hnot, hallows⟩ := ih hothers' (ne_deny_of_others hdeny)
      refine ⟨others, hothers, hnot, fun hallow => ?_⟩
      by_cases hnone' : others' = .notApplicable
      · rw [if_pos hnone'] at hallow
        exact absurd hallow ruling
      · rw [if_neg hnone'] at hallow
        exact hallows hallow
  | @drop law laws' laws admits ruling _ ih =>
    intro outcome' h hdeny
    obtain ⟨others, hothers, hnot, hallows⟩ := ih h hdeny
    by_cases hdecisive : isDecisive algorithm (law.ruling request) = true
    · have hallow := eq_allow_of_decisive (Law.ruling_le law request) hdecisive ruling
      exact ⟨.allow, jointAnswer_cons_eq_some.mpr ⟨admits, Or.inl ⟨hdecisive, hallow.symm⟩⟩,
        by decide, fun _ => rfl⟩
    · refine ⟨_, jointAnswer_cons_eq_some.mpr ⟨admits, Or.inr ⟨hdecisive, others, hothers, rfl⟩⟩,
        ?_, fun hallow => ?_⟩
      · split
        · exact ruling
        · exact hnot
      · rw [hallows hallow, if_neg (by decide)]

/-- **No algorithm allows after a tightening what it did not allow before.** -/
theorem allow_of_tightened {laws' laws : List Law} (h : Tightened request laws' laws)
    (hallow : jointAnswer algorithm request laws' = some .allow) :
    jointAnswer algorithm request laws = some .allow := by
  obtain ⟨outcome, houtcome, -, hallows⟩ := jointAnswer_of_tightened h hallow (by decide)
  rw [houtcome, hallows rfl]

end Authorization.Core
