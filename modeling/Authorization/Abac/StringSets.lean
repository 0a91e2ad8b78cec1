import Authorization.Abac.Network
import Authorization.Core.StringSets
import Authorization.Foundation.BinarySearch

/-!
# Membership in string sets

`SetContains` searches the stored elements by halving.  They are strictly increasing,
so the search finds the first element that is not below the one asked for, and that
is it or it is not there (`searchStrings_finds`).
-/

namespace Authorization.Abac

open Authorization.Foundation Authorization.Core

/-- The loop of `sort.SearchStrings`. -/
def searchStringsLoop (set : List Bytes) (value : Bytes) : Nat :=
  binarySearch set.length fun i => set[i]?.any fun element => decide (value ≤ element)

theorem searchStrings_eq_loop {set : List Bytes} (h : set.Pairwise (· < ·)) (value : Bytes) :
    searchStrings set value = searchStringsLoop set value := by
  refine (binarySearch_eq_findIdx (h.imp fun {a b} hab hle => ?_)).symm
  exact decide_eq_true (le_trans (of_decide_eq_true hle) hab.le)

/-- **The search finds what is there.** -/
theorem searchStrings_finds {set : List Bytes} (h : set.Pairwise (· < ·)) {value : Bytes} :
    set[searchStrings set value]? = some value ↔ value ∈ set := by
  constructor
  · exact fun hfound => List.mem_of_getElem? hfound
  · intro hmem
    obtain ⟨index, hindex, rfl⟩ := List.mem_iff_getElem.mp hmem
    have hfirst : searchStrings set set[index] = index := by
      refine (List.findIdx_eq hindex).mpr ⟨decide_eq_true (le_refl _), fun j hj => ?_⟩
      have hlt := List.pairwise_iff_getElem.mp h j index (by omega) hindex hj
      exact decide_eq_false (not_le.mpr hlt)
    rw [hfirst]
    exact List.getElem?_eq_getElem hindex

/-- The test of `SetContains` on a set value. -/
theorem test_setContains (reference : Reference) (x : Bytes) (values : List Bytes) :
    (Condition.setContainsCondition reference x).test (stringSetValue values)
      = .ofMatched (decide (x ∈ values)) := by
  rw [Condition.test, stringSet?_stringSetValue]
  refine congrArg Answer.ofMatched (decide_eq_decide.mpr ?_)
  rw [searchStrings_finds (pairwise_stringSetElems values), mem_stringSetElems]

/-- The limit of a state counts distinct elements. -/
theorem validateValue_stringSetValue {W : Type} (state : EvaluationState W) (values : List Bytes) :
    state.validateValue (stringSetValue values)
      = if values.toFinset.card ≤ state.maxSetSize then none
        else some (.sentinel .abacErrSetLimitExceeded) := by
  rw [EvaluationState.validateValue, collectionLength_stringSetValue]
  dsimp only
  by_cases hle : (values.toFinset.card : Int) ≤ state.maxSetSize
  · rw [if_pos hle, if_neg (by omega)]
  · rw [if_neg hle, if_pos (by omega)]

theorem ask_setContains {reference : Reference} {x : Bytes} {values : List Bytes}
    {request : Request} (maxSetSize : Int)
    (hattribute : attributeOf request reference = some (stringSetValue values)) :
    (reading request maxSetSize).ask (.setContainsCondition reference x)
      = if values.toFinset.card ≤ maxSetSize then .ofMatched (decide (x ∈ values))
        else .returned {} (some (.sentinel .abacErrSetLimitExceeded)) := by
  have hpresent : (reading request maxSetSize).presentValue reference
      = some (stringSetValue values) := by
    have hread : (reading request maxSetSize).attribute reference = some (stringSetValue values) :=
      hattribute
    rw [EvaluationState.presentValue, hread]
    rfl
  have hsize : (reading request maxSetSize).maxSetSize = maxSetSize := rfl
  rw [EvaluationState.ask, EvaluationState.testLoaded, hpresent]
  dsimp only
  rw [validateValue_stringSetValue, hsize]
  by_cases hle : (values.toFinset.card : Int) ≤ maxSetSize
  · rw [if_pos hle, if_pos hle]
    exact test_setContains reference x values
  · rw [if_neg hle, if_neg hle]

/-- **String sets are sets.**  What `StringSetValue` stores is strictly increasing and
has the elements of its argument, although it is compacted in the array it is read
from.  `SetContains` therefore tests membership, `Equal` compares the elements, the
size counts distinct elements, also against the limit of an evaluation, and a set
value comes back from its elements. -/
theorem string_sets_canonical (values : List Bytes) :
    (∃ set, (stringSetValue values).stringSet? = some set ∧
      set = compactInPlace values.length 0 (sortBy (· ≤ ·) values) 0 ∧
      set.Pairwise (· < ·) ∧ (∀ x, x ∈ set ↔ x ∈ values) ∧
      ∀ x, searchStrings set x = searchStringsLoop set x) ∧
    (∀ {W : Type} (ctx : Context W) (reference : Reference) (x : Bytes) (request : Request)
      (limits : Limits) (w : W), ctx.Quiet → validateReference reference = none →
      attributeOf request reference = some (stringSetValue values) →
      (evaluateCondition ctx (.setContainsCondition reference x) request limits w).1
        = if values.toFinset.card ≤ (normalizedLimits limits).maxSetSize then
            (Answer.ofMatched (decide (x ∈ values))).withCost 1
          else .returned { cost := 1 } (some (.sentinel .abacErrSetLimitExceeded))) ∧
    (∀ others : List Bytes, (stringSetValue values).equal (stringSetValue others) = true ↔
      ∀ x, x ∈ values ↔ x ∈ others) ∧
    (stringSetValue values).collectionLength = some values.toFinset.card ∧
    ∀ (value : Value) (set : List Bytes), value.stringSet? = some set →
      (stringSetValue set).equal value = true := by
  refine ⟨⟨stringSetElems values, rfl, stringSetElems_eq_inPlace values,
    pairwise_stringSetElems values, fun x => mem_stringSetElems,
    searchStrings_eq_loop (pairwise_stringSetElems values)⟩, ?_, fun others => equal_stringSetValue,
    collectionLength_stringSetValue values, ?_⟩
  · intro W ctx reference x request limits w hctx hreference hattribute
    have hpos : 0 < (normalizedLimits limits).maxSetSize := overrideLimit_pos (by decide)
    have hvalid : (Condition.setContainsCondition reference x).validate = none := hreference
    rw [evaluateCondition_leaf hctx rfl hvalid hpos.le, ask_setContains _ hattribute]
    split <;> rfl
  · intro value set h
    rw [stringSetValue_of_stringSet? h]
    cases value with
    | stringSet stored => exact beq_self_eq_true _
    | _ => cases h

/-- A request whose roles are given twice and out of order. -/
def repeatedRoles : List Bytes := [str "writer", str "reader", str "writer"]

theorem string_sets_canonical_roles :
    (stringSetValue repeatedRoles).stringSet? = some [str "reader", str "writer"] ∧
    (evaluateCondition (.background (W := Unit))
      (.setContainsCondition (requested "roles") (str "reader"))
      (asking ((∅ : Attributes).insert (str "roles") (stringSetValue repeatedRoles)))
      { maxSetSize := 2 } ()).1
      = .returned { matched := true, status := .statusMatch, cost := 1 } none := by
  refine ⟨by decide +kernel, ?_⟩
  rw [(string_sets_canonical repeatedRoles).2.1 .background (requested "roles") (str "reader") _
    { maxSetSize := 2 } () Context.quiet_background (by decide) rfl]
  decide +kernel

end Authorization.Abac
