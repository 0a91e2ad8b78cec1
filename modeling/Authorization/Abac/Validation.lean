import Authorization.Abac.Meaning
import Authorization.Foundation.Worklist

/-!
# What the validator of conditions accepts

`validateConditionLimits` walks a tree with a stack of its own.  What it accepts is
said here by recursion: every node is valid (`wellFormed`), the nesting is at most
`MaxDepth` (`depth`), and the collections in the whole tree have at most
`MaxSetSize` members together (`cardinality`).  The loop is a `Walk`, so it returns
(`validateConditionLimits_returns`) and `validateConditionLimits_eq_none_iff` is the
library's account of a walk at these readings.
-/

namespace Authorization.Abac

open Authorization.Foundation Authorization.Core

/-! ### The readings of a tree -/

def Condition.wellFormed (condition : Condition) : Bool :=
  condition.everywhere fun node => node.validate.isNone

mutual

/-- The number of nested levels. -/
def Condition.depth : Condition → Nat
  | .allCondition conditions => depthOf conditions + 1
  | .anyCondition conditions => depthOf conditions + 1
  | .notCondition condition => condition.depth + 1
  | _ => 1

def depthOf : List Condition → Nat
  | [] => 0
  | condition :: rest => max condition.depth (depthOf rest)

end

mutual

/-- The candidates of `In` and the members of string sets in `Equal`, over the whole
tree. -/
def Condition.cardinality : Condition → Nat
  | .inCondition _ values => values.length
  | .equalCondition _ want => (want.stringSet?.map List.length).getD 0
  | .allCondition conditions => cardinalityOf conditions
  | .anyCondition conditions => cardinalityOf conditions
  | .notCondition condition => condition.cardinality
  | _ => 0

def cardinalityOf : List Condition → Nat
  | [] => 0
  | condition :: rest => condition.cardinality + cardinalityOf rest

end

theorem depthOf_le_iff {n : Nat} : ∀ {conditions : List Condition},
    depthOf conditions ≤ n ↔ ∀ condition ∈ conditions, condition.depth ≤ n := by
  intro conditions
  induction conditions with
  | nil => simp [depthOf]
  | cons condition rest ih => rw [depthOf, List.forall_mem_cons, ← ih]; omega

theorem cardinalityOf_eq : ∀ conditions : List Condition,
    cardinalityOf conditions = (conditions.map Condition.cardinality).sum := by
  intro conditions
  induction conditions with
  | nil => rfl
  | cons condition rest ih => rw [cardinalityOf, List.map_cons, List.sum_cons, ih]

theorem nodesOf_eq : ∀ conditions : List Condition,
    nodesOf conditions = (conditions.map Condition.nodes).sum := by
  intro conditions
  induction conditions with
  | nil => rfl
  | cons condition rest ih => rw [nodesOf, List.map_cons, List.sum_cons, ih]

theorem nodes_pos (condition : Condition) : 0 < condition.nodes := by
  cases condition <;> simp only [Condition.nodes] <;> omega

theorem nodesOf_children (condition : Condition) :
    nodesOf condition.children < condition.nodes := by
  cases condition with
  | allCondition conditions => simp only [Condition.children, Condition.nodes]; omega
  | anyCondition conditions => simp only [Condition.children, Condition.nodes]; omega
  | notCondition condition =>
    rw [Condition.children, Condition.nodes]
    split
    · simp only [nodesOf]; omega
    · simp only [nodesOf]; omega
  | _ => exact Nat.zero_lt_one

theorem depth_pos (condition : Condition) : 0 < condition.depth := by
  cases condition <;> simp only [Condition.depth] <;> omega

/-! ### By children -/

/-- The child of a valid negation is there. -/
theorem children_not {condition : Condition}
    (hvalid : (Condition.notCondition condition).validate = none) :
    (Condition.notCondition condition).children = [condition] := by
  rw [Condition.validate] at hvalid
  split at hvalid
  · cases hvalid
  · rename_i hnil
    exact if_neg hnil

theorem wellFormed_iff (condition : Condition) :
    condition.wellFormed = true ↔
      condition.validate = none ∧ ∀ child ∈ condition.children, child.wellFormed = true := by
  have hleaf : condition.validate.isNone = true ↔ condition.validate = none :=
    Option.isNone_iff_eq_none
  cases condition with
  | allCondition conditions =>
    rw [Condition.wellFormed, Condition.everywhere, Bool.and_eq_true, hleaf]
    exact and_congr_right fun _ => everywhereIn_iff
  | anyCondition conditions =>
    rw [Condition.wellFormed, Condition.everywhere, Bool.and_eq_true, hleaf]
    exact and_congr_right fun _ => everywhereIn_iff
  | notCondition condition =>
    rw [Condition.wellFormed, Condition.everywhere, Bool.and_eq_true, hleaf]
    refine and_congr_right fun hvalid => ?_
    rw [children_not hvalid, List.forall_mem_singleton]
    rfl
  | _ => exact hleaf.trans (and_iff_left fun _ hchild => absurd hchild List.not_mem_nil).symm

theorem depth_le_succ_iff {condition : Condition} (hvalid : condition.validate = none) (n : Nat) :
    condition.depth ≤ n + 1 ↔ ∀ child ∈ condition.children, child.depth ≤ n := by
  cases condition with
  | allCondition conditions =>
    rw [Condition.depth, Nat.add_le_add_iff_right]
    exact depthOf_le_iff
  | anyCondition conditions =>
    rw [Condition.depth, Nat.add_le_add_iff_right]
    exact depthOf_le_iff
  | notCondition condition =>
    rw [Condition.depth, Nat.add_le_add_iff_right, children_not hvalid, List.forall_mem_singleton]
  | _ => exact iff_of_true (Nat.le_add_left 1 n) fun _ hchild => absurd hchild List.not_mem_nil

theorem cardinality_eq (condition : Condition) :
    condition.cardinality
      = condition.localCardinality + (condition.children.map Condition.cardinality).sum := by
  cases condition with
  | allCondition conditions => exact (cardinalityOf_eq conditions).trans (Nat.zero_add _).symm
  | anyCondition conditions => exact (cardinalityOf_eq conditions).trans (Nat.zero_add _).symm
  | notCondition condition =>
    rw [Condition.children]
    split
    · rename_i hnil
      cases condition with
      | nil => rfl
      | _ => cases hnil
    · simp only [Condition.cardinality, Condition.localCardinality, List.map_cons, List.map_nil,
        List.sum_cons, List.sum_nil]
      omega
  | _ => rfl

/-! ### The walk -/

/-- The loop of `validateConditionLimits` as a walk. -/
def conditionWalk (limits : Limits) : Walk Condition GoError where
  children := Condition.children
  check := Condition.validate
  weight := Condition.localCardinality
  maxDepth := limits.maxDepth
  maxWeight := limits.maxSetSize
  tooDeep := .sentinel .abacErrDepthExceeded
  tooHeavy := .sentinel .abacErrSetLimitExceeded

theorem conditionWalk_tree (limits : Limits) :
    (conditionWalk limits).Tree Condition.nodes Condition.depth Condition.cardinality
      (fun condition => condition.wellFormed = true) where
  size_children condition := by
    show (condition.children.map Condition.nodes).sum < condition.nodes
    rw [← nodesOf_eq]
    exact nodesOf_children condition
  sound_iff := wellFormed_iff
  depth_pos := depth_pos
  depth_le_iff _ hvalid n := depth_le_succ_iff hvalid n
  total_eq := cardinality_eq

/-- One more unit of fuel is one more turn. -/
theorem validateStack_succ (limits : Limits) (fuel : Nat) (s : List (Condition × Int) × Int) :
    validateStack limits (fuel + 1) s.1 s.2
      = ((conditionWalk limits).turn s).elim id fun s => validateStack limits fuel s.1 s.2 := by
  obtain ⟨stack, cardinality⟩ := s
  cases stack with
  | nil => rfl
  | cons frame stack =>
    obtain ⟨condition, level⟩ := frame
    have hcheck : (conditionWalk limits).check condition = condition.validate := rfl
    rw [validateStack, (conditionWalk limits).elim_turn_cons, hcheck]
    cases condition.validate <;> rfl

/-- **The validator terminates**: the loop returns what the function does. -/
theorem validateConditionLimits_returns (condition : Condition) (limits : Limits) :
    Returns (conditionWalk limits).turn ([(condition, 1)], 0)
      (validateConditionLimits condition limits) := by
  have hreturns := returns_of_fuel (I := fun _ => True)
    (f := fun fuel s => validateStack limits fuel s.1 s.2) (fun _ _ _ _ => trivial)
    (fun fuel s _ => validateStack_succ limits fuel s) (conditionWalk_tree limits).size_lt
    (condition.nodes + 1) ([(condition, 1)], 0) trivial
  refine hreturns ?_
  show condition.nodes + 0 < condition.nodes + 1
  omega

/-- **What the validator accepts.** -/
theorem validateConditionLimits_eq_none_iff {condition : Condition} {limits : Limits} :
    validateConditionLimits condition limits = none ↔ condition.wellFormed = true ∧
      condition.depth ≤ limits.maxDepth ∧ condition.cardinality ≤ limits.maxSetSize := by
  have hreturns := validateConditionLimits_returns condition limits
  have hiff := (conditionWalk_tree limits).returns_none_iff condition
  constructor
  · intro h
    rw [h] at hreturns
    exact hiff.mp hreturns
  · intro h
    exact hreturns.unique (hiff.mpr h)

theorem wellFormed_of_valid {condition : Condition} {limits : Limits}
    (h : validateConditionLimits condition limits = none) : condition.wellFormed = true :=
  (validateConditionLimits_eq_none_iff.mp h).1

/-! ### What a valid node has -/

theorem isNil_of_validate {condition : Condition} (h : condition.validate = none) :
    condition.isNil = false := by
  cases condition with
  | nil => cases h
  | _ => rfl

/-- A valid `In` has candidates. -/
theorem candidates_of_validate {condition : Condition} (h : condition.validate = none) :
    ∀ reference, condition ≠ .inCondition reference [] := by
  rintro reference rfl
  simp [Condition.validate] at h

/-- `Compare` orders the values a valid comparison gets to it. -/
theorem compare_of_validate {reference : Reference} {want : Value} {operator : Comparison}
    (h : (Condition.comparisonCondition reference want operator).validate = none) {got : Value}
    (hkind : got.kind = want.kind) : (got.compare want).isSome = true := by
  rw [Condition.validate] at h
  split at h
  · cases h
  split at h
  · rename_i hordered
    cases want with
    | string | int | float | time =>
      cases got with
      | string | int | float | time => first | rfl | cases hkind
      | _ => cases hkind
    | _ => simp [Value.kind] at hordered
  · cases h

/-! ### Conditions about one attribute -/

theorem isNil_of_isLeaf {condition : Condition} (h : condition.isLeaf = true) :
    condition.isNil = false := by
  cases condition <;> first | rfl | cases h

theorem children_of_isLeaf {condition : Condition} (h : condition.isLeaf = true) :
    condition.children = [] := by
  cases condition <;> first | rfl | cases h

theorem depth_of_isLeaf {condition : Condition} (h : condition.isLeaf = true) :
    condition.depth = 1 := by
  cases condition <;> first | rfl | cases h

/-- A condition about one attribute is valid under any limits if it is by itself and
names no larger collection. -/
theorem validateConditionLimits_leaf {condition : Condition} {limits : Limits}
    (hleaf : condition.isLeaf = true) (hvalid : condition.validate = none)
    (hdepth : 0 < limits.maxDepth) (hset : condition.localCardinality ≤ limits.maxSetSize) :
    validateConditionLimits condition limits = none := by
  have hchildren := children_of_isLeaf hleaf
  refine validateConditionLimits_eq_none_iff.mpr ⟨?_, ?_, ?_⟩
  · rw [wellFormed_iff, hchildren]
    exact ⟨hvalid, fun child hchild => absurd hchild List.not_mem_nil⟩
  · rw [depth_of_isLeaf hleaf]
    exact hdepth
  · rw [cardinality_eq, hchildren]
    exact hset

/-- **A condition about one attribute, evaluated by itself**, costs one visit and says
what it says of the attribute. -/
theorem evaluateCondition_leaf {W : Type} {ctx : Context W} (hctx : ctx.Quiet)
    {condition : Condition} (hleaf : condition.isLeaf = true) (hvalid : condition.validate = none)
    {limits : Limits} (hset : condition.localCardinality ≤ (normalizedLimits limits).maxSetSize)
    (request : Request) (w : W) :
    (evaluateCondition ctx condition request limits w).1
      = ((reading request (normalizedLimits limits).maxSetSize).ask condition).withCost 1 := by
  obtain ⟨w', hw⟩ := hctx.err_eq w
  have hcost : ¬ ((0 : Nat) : Int) ≥ (normalizedLimits limits).maxCost := by
    have hpos := maxCost_pos limits
    omega
  have hlimits : validateConditionLimits condition (normalizedLimits limits) = none :=
    validateConditionLimits_leaf hleaf hvalid (overrideLimit_pos (by decide)) hset
  have hask : ∀ state : EvaluationState W, state.request = request →
      state.maxSetSize = (normalizedLimits limits).maxSetSize → state.ask condition
        = (reading request (normalizedLimits limits).maxSetSize).ask condition := by
    intro state hrequest hsize
    rw [← hrequest, ← hsize]
    rfl
  rw [evaluateCondition, isNil_of_isLeaf hleaf, if_neg Bool.false_ne_true]
  simp only [hlimits, evaluate_leaf hleaf, EvaluationState.consume, hw, if_neg hcost]
  rw [hask _ rfl rfl]
  cases (reading request (normalizedLimits limits).maxSetSize).ask condition <;> rfl

/-! ### Why it refuses -/

theorem validateReference_eq_some {reference : Reference} {err : GoError}
    (h : validateReference reference = some err) : err = .sentinel .abacErrInvalidCondition := by
  rw [validateReference] at h
  split at h
  · exact (Option.some.inj h).symm
  · cases h

theorem validateChildren_eq_some {children : List Condition} {err : GoError}
    (h : validateChildren children = some err) : err = .sentinel .abacErrInvalidCondition := by
  rw [validateChildren] at h
  split at h
  · exact (Option.some.inj h).symm
  · cases h

/-- A node is refused with `ErrInvalidCondition`. -/
theorem validate_eq_some {condition : Condition} {err : GoError}
    (h : condition.validate = some err) : err = .sentinel .abacErrInvalidCondition := by
  cases condition with
  | nil => exact (Option.some.inj h).symm
  | allCondition conditions => exact validateChildren_eq_some h
  | anyCondition conditions => exact validateChildren_eq_some h
  | existsCondition reference => exact validateReference_eq_some h
  | nullCondition reference => exact validateReference_eq_some h
  | setContainsCondition reference value => exact validateReference_eq_some h
  | stringCondition reference value operator => exact validateReference_eq_some h
  | notCondition condition =>
    rw [Condition.validate] at h
    split at h
    · exact (Option.some.inj h).symm
    · cases h
  | equalCondition reference want =>
    rw [Condition.validate] at h
    split at h
    · rename_i failure hreference
      cases h
      exact validateReference_eq_some hreference
    · split at h
      · exact (Option.some.inj h).symm
      · cases h
  | comparisonCondition reference want operator =>
    rw [Condition.validate] at h
    split at h
    · rename_i failure hreference
      cases h
      exact validateReference_eq_some hreference
    · split at h
      · cases h
      · exact (Option.some.inj h).symm
  | inCondition reference values =>
    cases hreference : validateReference reference with
    | some failure =>
      simp only [Condition.validate, hreference] at h
      exact (Option.some.inj h).symm
    | none =>
      cases values with
      | nil =>
        simp only [Condition.validate, hreference] at h
        exact (Option.some.inj h).symm
      | cons first rest =>
        simp only [Condition.validate, hreference] at h
        split at h
        · exact (Option.some.inj h).symm
        split at h
        · cases h
        · exact (Option.some.inj h).symm
  | ipCondition reference network =>
    rw [Condition.validate] at h
    split at h
    · exact (Option.some.inj h).symm
    · exact validateReference_eq_some h

/-- **A condition that is not too deep** is not refused for its depth. -/
theorem validateConditionLimits_of_depth_le {condition : Condition} {limits : Limits}
    {err : GoError} (hdepth : condition.depth ≤ limits.maxDepth)
    (h : validateConditionLimits condition limits = some err) :
    GoError.is (.sentinel .abacErrDepthExceeded) err = false := by
  have hreturns := validateConditionLimits_returns condition limits
  rw [h] at hreturns
  have hwithin : ∀ frame ∈ [(condition, (1 : Int))],
      (conditionWalk limits).Within Condition.depth frame := by
    rw [List.forall_mem_singleton]
    show (1 : Int) + condition.depth ≤ limits.maxDepth + 1
    omega
  rcases (conditionWalk_tree limits).returns_some hreturns hwithin with rfl | ⟨node, hnode⟩
  · rfl
  · rw [validate_eq_some hnode]
    rfl

end Authorization.Abac
