import Authorization.Abac.ReadBack
import Authorization.Abac.Table

/-!
# The depth check of documents

`Build` walks every condition document with a stack before it builds one by
recursion.  A document may carry children that its operator does not select; neither
the walk nor the recursion follows them, so both go as deep as the built condition
does (`depth_build`, `buildWithin_eq`).  The check before building and the validator
of `New` therefore agree on depth: what passed the first is not refused by the
second for its depth (`new_of_depth_le`).
-/

namespace Authorization.Abac

open Authorization.Foundation Authorization.Core

/-! ### The depth of a document -/

mutual

/-- The number of nested levels, along the selected children. -/
def ConditionDocument.depth : ConditionDocument → Nat
  | ⟨operator, _, _, _, _, conditions, condition, _, _⟩ =>
    if operator = operatorAll ∨ operator = operatorAny then depthOfSlice conditions + 1
    else if operator = operatorNot then depthOfPointer condition + 1
    else 1

def depthOfSlice : Slice ConditionDocument → Nat
  | .nil => 0
  | .of elems _ => depthOfList elems

def depthOfList : List ConditionDocument → Nat
  | [] => 0
  | document :: rest => max document.depth (depthOfList rest)

def depthOfPointer : Option ConditionDocument → Nat
  | none => 0
  | some document => document.depth

end

theorem depthOfList_le_iff {n : Nat} : ∀ {documents : List ConditionDocument},
    depthOfList documents ≤ n ↔ ∀ document ∈ documents, document.depth ≤ n := by
  intro documents
  induction documents with
  | nil => simp [depthOfList]
  | cons document rest ih => rw [depthOfList, List.forall_mem_cons, ← ih]; omega

theorem ConditionDocument.depth_eq (document : ConditionDocument) :
    document.depth = depthOfList document.children + 1 := by
  obtain ⟨operator, source, attributeName, value, values, conditions, condition, text, ipPrefix⟩ :=
    document
  rw [ConditionDocument.depth, ConditionDocument.children]
  split
  · cases conditions with
    | nil => rfl
    | of elems spare => rfl
  split
  · cases condition with
    | none => rfl
    | some child => exact congrArg (· + 1) (Nat.max_zero child.depth).symm
  · rfl

theorem ConditionDocument.nodes_children (document : ConditionDocument) :
    (document.children.map ConditionDocument.nodes).sum < document.nodes := by
  have hnodes := document.nodes_eq
  rw [ConditionDocument.children]
  split
  · omega
  split
  · omega
  · show 0 < document.nodes
    omega

/-! ### The walk -/

/-- The loop of `validateConditionDocumentLimits` as a walk in which no node fails and
none weighs anything. -/
def documentWalk (limits : Limits) : Walk ConditionDocument GoError where
  children := ConditionDocument.children
  check _ := none
  weight _ := 0
  maxDepth := limits.maxDepth
  maxWeight := 0
  tooDeep := .sentinel .abacErrDepthExceeded
  tooHeavy := .sentinel .abacErrSetLimitExceeded

theorem documentWalk_tree (limits : Limits) :
    (documentWalk limits).Tree ConditionDocument.nodes ConditionDocument.depth (fun _ => 0)
      (fun _ => True) where
  size_children := ConditionDocument.nodes_children
  sound_iff _ := iff_of_true trivial ⟨rfl, fun _ _ => trivial⟩
  depth_pos document := by
    rw [document.depth_eq]
    exact Nat.succ_pos _
  depth_le_iff document _ n := by
    rw [document.depth_eq, Nat.add_le_add_iff_right]
    exact depthOfList_le_iff
  total_eq document := by
    show 0 = 0 + (document.children.map fun _ => 0).sum
    rw [List.map_const', List.sum_replicate]
    rfl

/-- The error of a check. -/
def failure : Except GoError Unit → Option GoError
  | .ok _ => none
  | .error err => some err

theorem failure_eq_none {x : Except GoError Unit} : failure x = none ↔ x = .ok () := by
  cases x with
  | error err => exact iff_of_false (Option.some_ne_none err) (fun h => by cases h)
  | ok _ => exact iff_of_true rfl rfl

theorem validateDocumentStack_succ (limits : Limits) (fuel : Nat)
    (s : List (ConditionDocument × Int) × Int) (hspent : s.2 = 0) :
    failure (validateDocumentStack limits.maxDepth (fuel + 1) s.1)
      = ((documentWalk limits).turn s).elim id
        fun s => failure (validateDocumentStack limits.maxDepth fuel s.1) := by
  obtain ⟨stack, spent⟩ := s
  cases stack with
  | nil => rfl
  | cons frame stack =>
    obtain ⟨document, level⟩ := frame
    have hlight : ¬ (0 : Int) > 0 - spent := by
      dsimp only at hspent
      omega
    rw [(documentWalk limits).elim_turn_cons, validateDocumentStack]
    refine Eq.trans ?_ (if_congr Iff.rfl rfl (if_neg hlight).symm)
    exact apply_ite failure _ _ _

theorem validateConditionDocumentLimits_returns (limits : Limits) (document : ConditionDocument) :
    Returns (documentWalk limits).turn ([(document, 1)], 0)
      (failure (validateConditionDocumentLimits limits document)) := by
  have hspent : ∀ s s' : List (ConditionDocument × Int) × Int, s.2 = 0 →
      (documentWalk limits).turn s = .inr s' → s'.2 = 0 := by
    intro s s' hs hturn
    obtain ⟨node, level, stack, -, -, -, rfl⟩ := Walk.turn_eq_inr hturn
    show s.2 + 0 = 0
    omega
  have hreturns := returns_of_fuel
    (f := fun fuel s => failure (validateDocumentStack limits.maxDepth fuel s.1)) hspent
    (validateDocumentStack_succ limits) (documentWalk_tree limits).size_lt
    (document.nodes + 1) ([(document, 1)], 0) rfl
  refine hreturns ?_
  show document.nodes + 0 < document.nodes + 1
  omega

/-- **What the check accepts.** -/
theorem validateConditionDocumentLimits_eq_ok_iff {limits : Limits}
    {document : ConditionDocument} :
    validateConditionDocumentLimits limits document = .ok () ↔
      document.depth ≤ limits.maxDepth := by
  have hreturns := validateConditionDocumentLimits_returns limits document
  have hiff := (documentWalk_tree limits).returns_none_iff document
  rw [← failure_eq_none]
  constructor
  · intro h
    rw [h] at hreturns
    exact (hiff.mp hreturns).2.1
  · intro h
    exact hreturns.unique (hiff.mpr ⟨trivial, h, le_refl 0⟩)

/-! ### What is built -/

section Build

variable (literals : Literals)

/-- The error is not `ErrDepthExceeded`. -/
def NotDepth (err : GoError) : Prop := GoError.is (.sentinel .abacErrDepthExceeded) err = false

/-- A value with the property, or another error than `ErrDepthExceeded`. -/
def Outcome {α : Type} (P : α → Prop) : Except GoError α → Prop
  | .ok value => P value
  | .error err => NotDepth err

theorem Outcome.map {α β : Type} {P : α → Prop} {Q : β → Prop} {x : Except GoError α} {f : α → β}
    (h : Outcome P x) (hf : ∀ value, P value → Q (f value)) : Outcome Q (x.map f) := by
  cases x with
  | error err => exact h
  | ok value => exact hf value h

theorem Outcome.ite {α : Type} {P : α → Prop} {c : Prop} [Decidable c] {x y : Except GoError α}
    (hx : Outcome P x) (hy : Outcome P y) : Outcome P (if c then x else y) := by
  split
  · exact hx
  · exact hy

theorem Outcome.notDepth {α : Type} {P : α → Prop} {x : Except GoError α} {err : GoError}
    (h : Outcome P x) (hx : x = .error err) : NotDepth err := by
  rw [hx] at h
  exact h

theorem outcome_parsed {α : Type} (value : Option α) : Outcome (fun _ => True) (parsed value) := by
  cases value with
  | none => exact rfl
  | some value => exact trivial

theorem ValueDocument.outcome_build (document : ValueDocument) :
    Outcome (fun _ => True) (document.build literals) := by
  unfold ValueDocument.build
  refine .ite trivial ?_
  refine .ite trivial ?_
  refine .ite trivial ?_
  refine .ite trivial ?_
  refine .ite ?_ ?_
  · rw [floatValue]
    split
    · exact trivial
    · exact rfl
  refine .ite ((outcome_parsed _).map fun _ _ => trivial) ?_
  refine .ite ((outcome_parsed _).map fun _ _ => trivial) ?_
  exact .ite trivial rfl

theorem outcome_buildList {α β : Type} {build : α → Except GoError β}
    (h : ∀ item, Outcome (fun _ => True) (build item)) (items : List α) :
    Outcome (fun _ => True) (buildList build items) := by
  cases hbuilt : buildList build items with
  | ok built => exact trivial
  | error err =>
    obtain ⟨item, -, hitem⟩ := buildList_eq_error hbuilt
    exact (h item).notDepth hitem

/-- The operators on one attribute build a condition on one attribute. -/
theorem ConditionDocument.outcome_buildLeaf (document : ConditionDocument) (reference : Reference) :
    Outcome (fun condition => condition.isLeaf = true) (document.buildLeaf literals reference) := by
  unfold ConditionDocument.buildLeaf
  refine .ite rfl ?_
  refine .ite rfl ?_
  refine .ite ?_ ?_
  · cases document.value with
    | none => exact rfl
    | some value =>
      refine (value.outcome_build literals).map fun built _ => ?_
      split
      · rfl
      split <;> rfl
  refine .ite ?_ ?_
  · exact (outcome_buildList (ValueDocument.outcome_build literals) _).map fun _ _ => rfl
  refine .ite rfl ?_
  refine .ite rfl ?_
  refine .ite rfl ?_
  refine .ite rfl ?_
  exact .ite ((outcome_parsed _).map fun _ _ => rfl) rfl

/-- **What a document is built to**: its operator over the built children. -/
inductive ConditionDocument.Built (document : ConditionDocument) : Condition → Prop
  | all {conditions : List Condition} :
      List.Forall₂ (fun child built => child.build literals = .ok built) document.children
        conditions → Built document (.allCondition conditions)
  | any {conditions : List Condition} :
      List.Forall₂ (fun child built => child.build literals = .ok built) document.children
        conditions → Built document (.anyCondition conditions)
  | not {child : ConditionDocument} {condition : Condition} : document.children = [child] →
      child.build literals = .ok condition → Built document (.notCondition condition)
  | leaf {condition : Condition} : document.children = [] → condition.isLeaf = true →
      Built document condition

theorem ConditionDocument.built_of_build {document : ConditionDocument} {condition : Condition}
    (h : document.build literals = .ok condition) : document.Built literals condition := by
  rw [ConditionDocument.build_eq] at h
  split at h
  · rename_i hlist
    have hchildren : document.children = document.conditions.toList := if_pos hlist
    obtain ⟨conditions, hconditions, rfl⟩ := map_eq_ok.mp h
    have hbuilt := buildList_eq_ok hconditions
    rw [← hchildren] at hbuilt
    split
    · exact .all hbuilt
    · exact .any hbuilt
  rename_i hlist
  split at h
  · rename_i hnot
    have hchildren : document.children = document.condition.toList := by
      rw [ConditionDocument.children, if_neg hlist, if_pos hnot]
    obtain ⟨built, hbuilt, rfl⟩ := map_eq_ok.mp h
    cases hchild : document.condition with
    | none => rw [hchild] at hbuilt; cases hbuilt
    | some child =>
      rw [hchild] at hbuilt hchildren
      exact .not hchildren hbuilt
  · rename_i hnot
    have hchildren : document.children = [] := by
      rw [ConditionDocument.children, if_neg hlist, if_neg hnot]
    split at h
    · cases h
    · rename_i reference hreference
      have hleaf := document.outcome_buildLeaf literals reference
      rw [h] at hleaf
      exact .leaf hchildren hleaf

theorem depthOf_built {documents : List ConditionDocument} {conditions : List Condition}
    (h : List.Forall₂ (fun child built => ConditionDocument.build literals child = .ok built)
      documents conditions)
    (hdepth : ∀ child ∈ documents, ∀ built, child.build literals = .ok built →
      built.depth = child.depth) : depthOf conditions = depthOfList documents := by
  induction h with
  | nil => rfl
  | cons hbuilt _ ih =>
    rw [depthOf, depthOfList, hdepth _ List.mem_cons_self _ hbuilt,
      ih fun child hchild => hdepth child (List.mem_cons_of_mem _ hchild)]

theorem ConditionDocument.children_subset {document : ConditionDocument}
    {P : ConditionDocument → Prop} (hslice : ∀ child ∈ document.conditions.toList, P child)
    (hpointer : ∀ child ∈ document.condition.toList, P child) :
    ∀ child ∈ document.children, P child := by
  rw [ConditionDocument.children]
  split
  · exact hslice
  split
  · exact hpointer
  · exact fun child hchild => absurd hchild List.not_mem_nil

/-- **The walk and the recursion go as deep** as the condition that is built. -/
theorem ConditionDocument.depth_build (document : ConditionDocument) :
    ∀ condition, document.build literals = .ok condition → condition.depth = document.depth := by
  induction document using ConditionDocument.rule with
  | step document ihslice ihpointer =>
    have ih := ConditionDocument.children_subset ihslice ihpointer
    intro condition h
    rw [document.depth_eq]
    cases ConditionDocument.built_of_build literals h with
    | all hbuilt => rw [Condition.depth, depthOf_built literals hbuilt ih]
    | any hbuilt => rw [Condition.depth, depthOf_built literals hbuilt ih]
    | @not child built hchildren hbuilt =>
      rw [hchildren] at ih ⊢
      rw [Condition.depth, ih child (List.mem_singleton.mpr rfl) built hbuilt, depthOfList,
        depthOfList, Nat.max_zero]
    | leaf hchildren hleaf => rw [hchildren, depth_of_isLeaf hleaf]; rfl

/-! ### Why building fails -/

theorem ConditionDocument.reference_notDepth {document : ConditionDocument} {err : GoError}
    (h : document.reference = .error err) : NotDepth err := by
  unfold ConditionDocument.reference at h
  dsimp only at h
  split at h
  · cases h
    rfl
  split at h
  · cases h
    rfl
  · cases h

theorem ConditionDocument.build_notDepth (document : ConditionDocument) :
    ∀ err, document.build literals = .error err → NotDepth err := by
  induction document using ConditionDocument.rule with
  | step document ihslice ihpointer =>
    intro err h
    rw [ConditionDocument.build_eq] at h
    split at h
    · obtain ⟨child, hchild, hfails⟩ := buildList_eq_error (map_eq_error.mp h)
      exact ihslice child hchild err hfails
    split at h
    · have hpointer := map_eq_error.mp h
      cases hcondition : document.condition with
      | none =>
        rw [hcondition] at hpointer
        cases hpointer
        rfl
      | some child =>
        rw [hcondition] at hpointer ihpointer
        exact ihpointer child (List.mem_singleton.mpr rfl) err hpointer
    split at h
    · rename_i failure hreference
      cases h
      exact ConditionDocument.reference_notDepth hreference
    · rename_i reference hreference
      exact (document.outcome_buildLeaf literals reference).notDepth h

theorem RuleDocument.build_notDepth {rule : RuleDocument} {err : GoError}
    (h : rule.build literals = .error err) : NotDepth err := by
  unfold RuleDocument.build at h
  split at h
  · rename_i failure heffect
    cases h
    rw [DocumentErrors.parseEffect] at heffect
    split at heffect
    · cases heffect
    split at heffect
    · cases heffect
    · cases heffect
      rfl
  · have hcondition := map_eq_error.mp h
    rw [RuleDocument.buildCondition] at hcondition
    split at hcondition
    · cases hcondition
    · exact ConditionDocument.build_notDepth literals _ err hcondition

/-! ### How deep building recurses -/

/-- The loop over the children, each built on the given number of calls. -/
def buildListWithin (build : ConditionDocument → Option (Except GoError Condition)) :
    List ConditionDocument → Option (Except GoError (List Condition))
  | [] => some (.ok [])
  | child :: rest =>
    match build child with
    | none => none
    | some (.error err) => some (.error err)
    | some (.ok built) =>
      (buildListWithin build rest).map fun others => others.map fun others => built :: others

/-- `build` on a stack for so many nested calls, without an answer if it needs more. -/
def ConditionDocument.buildWithin : Nat → ConditionDocument → Option (Except GoError Condition)
  | 0, _ => none
  | calls + 1, document =>
    if document.operator = operatorAll ∨ document.operator = operatorAny then
      (buildListWithin (ConditionDocument.buildWithin calls) document.conditions.toList).map
        fun built => built.map fun conditions =>
          if document.operator = operatorAll then .allCondition conditions
          else .anyCondition conditions
    else if document.operator = operatorNot then
      match document.condition with
      | none => some (.error (.sentinel documentErrors.invalidDocument))
      | some child => (child.buildWithin calls).map fun built => built.map .notCondition
    else
      match document.reference with
      | .error err => some (.error err)
      | .ok reference => some (document.buildLeaf literals reference)

theorem buildListWithin_eq {calls : Nat} : ∀ {documents : List ConditionDocument},
    (∀ child ∈ documents, child.buildWithin literals calls = some (child.build literals)) →
    buildListWithin (ConditionDocument.buildWithin literals calls) documents
      = some (buildList (ConditionDocument.build literals) documents) := by
  intro documents
  induction documents with
  | nil => intro _; rfl
  | cons child rest ih =>
    intro h
    obtain ⟨hchild, hrest⟩ := List.forall_mem_cons.mp h
    rw [buildListWithin, buildList, hchild, ih hrest]
    cases child.build literals <;> rfl

/-- **Building nests no deeper than the document.** -/
theorem ConditionDocument.buildWithin_eq : ∀ (calls : Nat) (document : ConditionDocument),
    document.depth ≤ calls → document.buildWithin literals calls = some (document.build literals) := by
  intro calls
  induction calls with
  | zero =>
    intro document h
    rw [document.depth_eq] at h
    omega
  | succ calls ih =>
    intro document h
    rw [document.depth_eq, Nat.add_le_add_iff_right, depthOfList_le_iff] at h
    have hchildren : ∀ child ∈ document.children,
        child.buildWithin literals calls = some (child.build literals) :=
      fun child hchild => ih child (h child hchild)
    rw [ConditionDocument.build_eq, ConditionDocument.buildWithin]
    rw [ConditionDocument.children] at hchildren
    split
    · rename_i hlist
      rw [if_pos hlist] at hchildren
      rw [buildListWithin_eq literals hchildren]
      rfl
    rename_i hlist
    rw [if_neg hlist] at hchildren
    split
    · rename_i hnot
      rw [if_pos hnot] at hchildren
      cases hchild : document.condition with
      | none => rfl
      | some child =>
        rw [hchild] at hchildren
        show (child.buildWithin literals calls).map _ = some ((child.build literals).map _)
        rw [hchildren child (List.mem_singleton.mpr rfl)]
        rfl
    · cases document.reference <;> rfl

end Build

/-! ### Building and `New` -/

theorem configured_singleton (limits : Limits) : configured [limits] = normalizedLimits limits := by
  have hdefault : normalizedLimits {} = {} := by decide
  show limits.withLimits (normalizedLimits {}) = limits.withLimits {}
  rw [hdefault]

theorem notDepth_of_map {checked : Option GoError} {parts : List ErrorPart} {err : GoError}
    (hchecked : ∀ failure, checked = some failure → NotDepth failure)
    (h : checked.map (.errorf parts) = some err) : NotDepth err := by
  obtain ⟨failure, hfailure, rfl⟩ := Option.map_eq_some_iff.mp h
  exact hchecked failure hfailure

section Depth

variable {limits : Limits} {err : GoError}

theorem checkNamed_of_depth_le {index : Nat} {seen : List NamedKey} {definition : NamedCondition}
    (hdepth : definition.condition.depth ≤ limits.maxDepth)
    (h : checkNamed limits index seen definition = some err) :
    NotDepth err := by
  rw [checkNamed] at h
  split at h
  · cases h
    rfl
  split at h
  · cases h
    rfl
  · exact notDepth_of_map (fun _ => validateConditionLimits_of_depth_le hdepth) h

theorem checkRule_of_depth_le {named : GoMap NamedKey Condition} {index : Nat}
    {ruleIDs : List PolicyID} {rule : Rule}
    (hdepth : (rule.bound named).isNil = false → (rule.bound named).depth ≤ limits.maxDepth)
    (h : checkRule limits named index ruleIDs rule = some err) :
    NotDepth err := by
  rw [checkRule] at h
  split at h
  · rename_i failure hbinding
    cases h
    rw [checkBinding] at hbinding
    split at hbinding
    · split at hbinding
      · cases hbinding
        rfl
      split at hbinding
      · cases hbinding
        rfl
      · cases hbinding
    · split at hbinding
      · cases hbinding
        rfl
      · cases hbinding
  · split at h
    · cases h
      rfl
    rename_i hfields
    have hpresent : (rule.bound named).isNil = false := by
      simp only [not_or, Bool.not_eq_true] at hfields
      exact hfields.2.2.2.2
    split at h
    · cases h
      rfl
    · exact notDepth_of_map (fun _ => validateConditionLimits_of_depth_le (hdepth hpresent)) h

end Depth

/-- **`New` and depth**: it does not refuse for their depth conditions that are not
too deep. -/
theorem new_of_depth_le {rules : List Rule} {namedConditions : List NamedCondition}
    {options : List Limits} {err : GoError}
    (hnamed : ∀ definition ∈ namedConditions,
      definition.condition.depth ≤ (configured options).maxDepth)
    (hrules : ∀ rule ∈ rules, rule.condition.isNil = false →
      rule.condition.depth ≤ (configured options).maxDepth)
    (h : new rules namedConditions options = .error err) :
    NotDepth err := by
  unfold new at h
  dsimp only at h
  split at h
  · cases h
    rfl
  split at h
  · cases h
    rfl
  split at h
  · rename_i failure hchecked
    cases h
    obtain ⟨definition, hdefinition, index, seen, hcheck⟩ := checkEach_eq_some hchecked
    exact checkNamed_of_depth_le (hnamed definition hdefinition) hcheck
  rename_i hchecked
  split at h
  · rename_i failure hfailed
    cases h
    obtain ⟨rule, hrule, index, ruleIDs, hcheck⟩ := checkEach_eq_some hfailed
    refine checkRule_of_depth_le (fun hpresent => ?_) hcheck
    have hnodup := ((checkEach_eq_none_iff (checkNamed_eq_none_iff _)).mp hchecked).1
    rw [Rule.bound] at hpresent ⊢
    split
    · rename_i hname
      rw [if_pos hname] at hpresent
      cases hfound : (namedMap namedConditions).lookup (rule.conditionName, rule.conditionVersion) with
      | none => rw [hfound] at hpresent; cases hpresent
      | some condition =>
        obtain ⟨definition, hdefinition, -, rfl⟩ := (lookup_namedMap hnodup).mp hfound
        exact hnamed definition hdefinition
    · rename_i hname
      rw [if_neg hname] at hpresent
      exact hrules rule hrule hpresent
  · cases h

/-- The condition documents of a document. -/
def Document.conditions (document : Document) : List ConditionDocument :=
  document.namedConditions.toList.map NamedConditionDocument.condition ++
    document.rules.toList.filterMap RuleDocument.condition

/-- The loops of `Build` that come before building. -/
def Document.checkDepths (document : Document) : Except GoError Unit := do
  let limits := normalizedLimits document.limits
  let _ ← buildEach "named condition "
    (fun definition : NamedConditionDocument =>
      validateConditionDocumentLimits limits definition.condition)
    0 document.namedConditions.toList
  let _ ← buildEach "rule " (RuleDocument.validateLimits limits) 0 document.rules.toList
  .ok ()

/-- **What the loops check.** -/
theorem Document.checkDepths_eq_ok_iff {document : Document} :
    document.checkDepths = .ok () ↔ ∀ condition ∈ document.conditions,
      condition.depth ≤ (normalizedLimits document.limits).maxDepth := by
  have hiff : document.checkDepths = .ok () ↔
      (∀ definition ∈ document.namedConditions.toList, validateConditionDocumentLimits
        (normalizedLimits document.limits) definition.condition = .ok ()) ∧
      ∀ rule ∈ document.rules.toList,
        rule.validateLimits (normalizedLimits document.limits) = .ok () := by
    unfold Document.checkDepths
    constructor
    · intro h
      obtain ⟨checkedNamed, hnamed, h⟩ := bind_eq_ok.mp h
      obtain ⟨checkedRules, hrules, -⟩ := bind_eq_ok.mp h
      exact ⟨exists_buildEach_iff.mp ⟨checkedNamed, hnamed⟩,
        exists_buildEach_iff.mp ⟨checkedRules, hrules⟩⟩
    · rintro ⟨hnamed, hrules⟩
      obtain ⟨checkedNamed, hnamed⟩ := exists_buildEach_iff.mpr hnamed
      obtain ⟨checkedRules, hrules⟩ := exists_buildEach_iff.mpr hrules
      exact bind_eq_ok.mpr ⟨checkedNamed, hnamed, bind_eq_ok.mpr ⟨checkedRules, hrules, rfl⟩⟩
  rw [hiff, Document.conditions, List.forall_mem_append, List.forall_mem_map]
  refine and_congr ?_ ?_
  · simp only [validateConditionDocumentLimits_eq_ok_iff]
  · simp only [List.mem_filterMap, forall_exists_index, and_imp]
    constructor
    · intro h condition rule hrule hcondition
      have hchecked := h rule hrule
      rw [RuleDocument.validateLimits, hcondition] at hchecked
      exact validateConditionDocumentLimits_eq_ok_iff.mp hchecked
    · intro h rule hrule
      rw [RuleDocument.validateLimits]
      split
      · rfl
      · rename_i condition hcondition
        exact validateConditionDocumentLimits_eq_ok_iff.mpr (h condition rule hrule hcondition)

section Document

variable {literals : Literals} {document : Document}

/-- An error of the loops is what `Build` returns. -/
theorem Document.build_of_checkDepths {err : GoError} (hversion : document.version = documentVersion)
    (h : document.checkDepths = .error err) : document.build literals = .error err := by
  unfold Document.checkDepths at h
  unfold Document.build
  rw [if_neg (not_not.mpr hversion)]
  dsimp only at h ⊢
  cases hnamed : buildEach "named condition " (fun definition : NamedConditionDocument =>
      validateConditionDocumentLimits (normalizedLimits document.limits) definition.condition)
      0 document.namedConditions.toList with
  | error failure =>
    rw [hnamed] at h
    cases h
    rfl
  | ok checked =>
    rw [hnamed] at h
    cases hrules : buildEach "rule " (RuleDocument.validateLimits
        (normalizedLimits document.limits)) 0 document.rules.toList with
    | error failure =>
      rw [hrules] at h
      cases h
      rfl
    | ok checkedRules =>
      rw [hrules] at h
      cases h

/-- The built conditions are as deep as their documents. -/
theorem Document.new_notDepth {named : List NamedCondition} {rules : List Rule} {err : GoError}
    (hdepths : ∀ condition ∈ document.conditions,
      condition.depth ≤ (normalizedLimits document.limits).maxDepth)
    (hnamed : List.Forall₂ (fun (definition : NamedConditionDocument) built =>
      definition.build literals = .ok built) document.namedConditions.toList named)
    (hrules : List.Forall₂ (fun (rule : RuleDocument) built => rule.build literals = .ok built)
      document.rules.toList rules)
    (h : new rules named [document.limits] = .error err) : NotDepth err := by
  rw [Document.conditions, List.forall_mem_append, List.forall_mem_map] at hdepths
  refine new_of_depth_le ?_ ?_ h
  · intro built hbuilt
    obtain ⟨definition, hdefinition, hbuild⟩ := exists_item_of_built hnamed built hbuilt
    obtain ⟨condition, hcondition, rfl⟩ := map_eq_ok.mp hbuild
    rw [configured_singleton, ConditionDocument.depth_build literals _ condition hcondition]
    exact hdepths.1 definition hdefinition
  · intro built hbuilt hpresent
    obtain ⟨rule, hrule, hbuild⟩ := exists_item_of_built hrules built hbuilt
    unfold RuleDocument.build at hbuild
    split at hbuild
    · cases hbuild
    obtain ⟨condition, hcondition, rfl⟩ := map_eq_ok.mp hbuild
    rw [RuleDocument.buildCondition] at hcondition
    split at hcondition
    · cases hcondition
      cases hpresent
    · rename_i child hchild
      rw [configured_singleton]
      dsimp only
      rw [ConditionDocument.depth_build literals _ condition hcondition]
      exact hdepths.2 child (List.mem_filterMap.mpr ⟨rule, hrule, hchild⟩)

/-- **`Build` and depth**: it refuses for depth only what has a condition too deep. -/
theorem Document.build_notDepth {err : GoError}
    (hdepths : ∀ condition ∈ document.conditions,
      condition.depth ≤ (normalizedLimits document.limits).maxDepth)
    (h : document.build literals = .error err) : NotDepth err := by
  have hchecked := Document.checkDepths_eq_ok_iff.mpr hdepths
  unfold Document.checkDepths at hchecked
  obtain ⟨checkedNamed, hcheckedNamed, hchecked⟩ := bind_eq_ok.mp hchecked
  obtain ⟨checkedRules, hcheckedRules, -⟩ := bind_eq_ok.mp hchecked
  unfold Document.build at h
  split at h
  · cases h
    rfl
  dsimp only at h
  rw [hcheckedNamed, hcheckedRules] at h
  change (buildEach _ _ _ _ >>= _) = _ at h
  rcases bind_eq_error.mp h with hfails | ⟨named, hnamed, h⟩
  · obtain ⟨definition, -, parts, failure, hfailure, rfl⟩ := buildEach_eq_error hfails
    exact ConditionDocument.build_notDepth literals _ failure (map_eq_error.mp hfailure)
  rcases bind_eq_error.mp h with hfails | ⟨rules, hrules, h⟩
  · obtain ⟨rule, -, parts, failure, hfailure, rfl⟩ := buildEach_eq_error hfails
    show NotDepth failure
    exact RuleDocument.build_notDepth literals hfailure
  · exact Document.new_notDepth hdepths (buildEach_eq_ok_iff.mp hnamed)
      (buildEach_eq_ok_iff.mp hrules) h

end Document

/-- **The validators and the recursion agree.**  The validator of conditions returns,
and accepts exactly the well-formed trees that are not too deep and whose collections
are not too large together.  The check of a document accepts exactly what builds to a
condition that is not too deep.  `Build` therefore gets no depth error from `New`
after its own check, refuses for depth no document whose conditions `New` would
accept, and builds nothing nested deeper than allowed. -/
theorem validators_agree (literals : Literals) :
    (∀ (condition : Condition) (limits : Limits), condition.isNil = false →
      Returns (conditionWalk limits).turn ([(condition, 1)], 0)
        (validateConditionLimits condition limits) ∧
      (validateConditionLimits condition limits = none ↔ condition.wellFormed = true ∧
        condition.depth ≤ limits.maxDepth ∧ condition.cardinality ≤ limits.maxSetSize)) ∧
    (∀ (document : ConditionDocument) (condition : Condition) (limits : Limits),
      document.build literals = .ok condition →
      Returns (documentWalk limits).turn ([(document, 1)], 0)
        (failure (validateConditionDocumentLimits limits document)) ∧
      (validateConditionDocumentLimits limits document = .ok () ↔
        condition.depth ≤ limits.maxDepth)) ∧
    ∀ document : Document,
      (document.checkDepths = .ok () → ∀ named rules,
        List.Forall₂ (fun (definition : NamedConditionDocument) built =>
          definition.build literals = .ok built) document.namedConditions.toList named →
        List.Forall₂ (fun (rule : RuleDocument) built => rule.build literals = .ok built)
          document.rules.toList rules →
        ∀ err, new rules named [document.limits] = .error err →
          GoError.is (.sentinel .abacErrDepthExceeded) err = false) ∧
      ((∀ condition ∈ document.conditions, ∃ built, condition.build literals = .ok built ∧
          validateConditionLimits built (configured [document.limits]) = none) →
        ∀ err, document.build literals = .error err →
          GoError.is (.sentinel .abacErrDepthExceeded) err = false) ∧
      (document.version = documentVersion →
        (∃ err, document.checkDepths = .error err ∧ document.build literals = .error err) ∨
        ∀ condition ∈ document.conditions, condition.buildWithin literals
          (normalizedLimits document.limits).maxDepth.toNat = some (condition.build literals)) := by
  refine ⟨fun condition limits _ => ⟨validateConditionLimits_returns condition limits,
    validateConditionLimits_eq_none_iff⟩, ?_, fun document => ⟨?_, ?_, ?_⟩⟩
  · intro document condition limits h
    refine ⟨validateConditionDocumentLimits_returns limits document, ?_⟩
    rw [validateConditionDocumentLimits_eq_ok_iff, document.depth_build literals condition h]
  · intro hchecked named rules hnamed hrules err h
    exact Document.new_notDepth (Document.checkDepths_eq_ok_iff.mp hchecked) hnamed hrules h
  · intro haccepted err h
    refine Document.build_notDepth (fun condition hcondition => ?_) h
    obtain ⟨built, hbuilt, hvalid⟩ := haccepted condition hcondition
    rw [← condition.depth_build literals built hbuilt, ← configured_singleton]
    exact (validateConditionLimits_eq_none_iff.mp hvalid).2.1
  · intro hversion
    cases hchecked : document.checkDepths with
    | error err => exact Or.inl ⟨err, rfl, Document.build_of_checkDepths hversion hchecked⟩
    | ok checked =>
      refine Or.inr fun condition hcondition => ?_
      have hdepth := Document.checkDepths_eq_ok_iff.mp hchecked condition hcondition
      exact condition.buildWithin_eq literals _ (by omega)

/-- A negated condition on the department of the subject. -/
def negatedDocument : ConditionDocument where
  operator := operatorNot
  condition := some
    { operator := operatorExists, source := sourceSubject, attributeName := str "department" }

/-- The same with a child that its operator does not select. -/
def carryingDocument : ConditionDocument :=
  { negatedDocument with conditions := .of [negatedDocument] [] }

def noLiterals : Literals := ⟨fun _ => none, fun _ => none, fun _ => none⟩

def negatedCondition : Condition :=
  .notCondition (.existsCondition ⟨.subject, str "department"⟩)

theorem validators_agree_negated :
    validateConditionLimits negatedCondition { maxDepth := 2 } = none ∧
    validateConditionDocumentLimits { maxDepth := 2 } carryingDocument = .ok () ∧
    validateConditionDocumentLimits { maxDepth := 1 } carryingDocument ≠ .ok () ∧
    ∀ err, Document.build noLiterals
      { version := documentVersion, limits := { maxDepth := 2 },
        namedConditions := .of [⟨str "deep", 1, carryingDocument⟩] [] } = .error err →
      GoError.is (.sentinel .abacErrDepthExceeded) err = false := by
  have hbuild : carryingDocument.build noLiterals = .ok negatedCondition := rfl
  have hvalid : validateConditionLimits negatedCondition { maxDepth := 2 } = none :=
    ((validators_agree noLiterals).1 negatedCondition { maxDepth := 2 } rfl).2.mpr
      ⟨by decide, by decide, by decide⟩
  refine ⟨hvalid, ?_, ?_, ?_⟩
  · exact ((validators_agree noLiterals).2.1 _ _ _ hbuild).2.mpr (by decide)
  · exact fun h => absurd (((validators_agree noLiterals).2.1 _ _ _ hbuild).2.mp h) (by decide)
  · refine ((validators_agree noLiterals).2.2 _).2.1 ?_
    exact List.forall_mem_singleton.mpr ⟨negatedCondition, hbuild, hvalid⟩

end Authorization.Abac
