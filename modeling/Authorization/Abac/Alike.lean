import Authorization.Abac.Meaning
import Authorization.Foundation.Json.Codec

/-!
# Literals that compare alike

Conditions see a literal through its kind, through comparisons and through the size
of a set.  A change of literals that keeps these (`ComparesAlike`) changes nothing
else: a condition is validated and evaluated as before, and rules with changed
literals are accepted by `New` as before and give the same decisions.

The sign of zero is such a difference: `comparesAlike_unsignZero`.
-/

namespace Authorization.Abac

open Authorization.Foundation Authorization.Core

/-- A change of literals that conditions do not see. -/
structure ComparesAlike (f : Value → Value) : Prop where
  kind : ∀ want, (f want).kind = want.kind
  equal : ∀ got want : Value, got.equal (f want) = got.equal want
  compare : ∀ got want : Value, got.compare (f want) = got.compare want
  stringSet : ∀ want, (f want).stringSet? = want.stringSet?

/-! ### Conditions with changed literals -/

mutual

def Condition.mapValues (f : Value → Value) : Condition → Condition
  | .nil => .nil
  | .equalCondition reference want => .equalCondition reference (f want)
  | .allCondition conditions => .allCondition (mapValuesIn f conditions)
  | .existsCondition reference => .existsCondition reference
  | .nullCondition reference => .nullCondition reference
  | .anyCondition conditions => .anyCondition (mapValuesIn f conditions)
  | .notCondition condition => .notCondition (condition.mapValues f)
  | .comparisonCondition reference want operator =>
    .comparisonCondition reference (f want) operator
  | .inCondition reference values => .inCondition reference (values.map f)
  | .setContainsCondition reference value => .setContainsCondition reference value
  | .stringCondition reference value operator => .stringCondition reference value operator
  | .ipCondition reference network => .ipCondition reference network

def mapValuesIn (f : Value → Value) : List Condition → List Condition
  | [] => []
  | condition :: rest => condition.mapValues f :: mapValuesIn f rest

end

theorem mapValuesIn_eq_map (f : Value → Value) : ∀ conditions : List Condition,
    mapValuesIn f conditions = conditions.map (Condition.mapValues f) := by
  intro conditions
  induction conditions with
  | nil => rfl
  | cons condition rest ih => rw [mapValuesIn, List.map_cons, ih]

section Mapped

variable {f : Value → Value}

@[simp] theorem isNil_mapValues (condition : Condition) :
    (condition.mapValues f).isNil = condition.isNil := by
  cases condition <;> rfl

theorem children_mapValues (condition : Condition) :
    (condition.mapValues f).children = condition.children.map (Condition.mapValues f) := by
  cases condition with
  | allCondition conditions => exact mapValuesIn_eq_map f conditions
  | anyCondition conditions => exact mapValuesIn_eq_map f conditions
  | notCondition condition =>
    rw [Condition.mapValues, Condition.children, Condition.children, isNil_mapValues]
    split <;> rfl
  | _ => rfl

theorem nodes_mapValues (condition : Condition) :
    (condition.mapValues f).nodes = condition.nodes := by
  have hnodes : ∀ conditions : List Condition,
      (∀ condition ∈ conditions, (condition.mapValues f).nodes = condition.nodes) →
      nodesOf (mapValuesIn f conditions) = nodesOf conditions := by
    intro conditions
    induction conditions with
    | nil => intro _; rfl
    | cons condition rest ih =>
      intro h
      rw [mapValuesIn, nodesOf, nodesOf, h condition List.mem_cons_self,
        ih fun other ho => h other (List.mem_cons_of_mem _ ho)]
  induction condition using Condition.rule with
  | nil => rfl
  | leaf condition hleaf => cases condition <;> first | rfl | cases hleaf
  | all conditions ih =>
    rw [Condition.mapValues, Condition.nodes, Condition.nodes, hnodes conditions ih]
  | any conditions ih =>
    rw [Condition.mapValues, Condition.nodes, Condition.nodes, hnodes conditions ih]
  | not condition ih => rw [Condition.mapValues, Condition.nodes, Condition.nodes, ih]

/-! ### Validation -/

theorem validateChildren_mapValuesIn (conditions : List Condition) :
    validateChildren (mapValuesIn f conditions) = validateChildren conditions := by
  have hnil : (mapValuesIn f conditions).any Condition.isNil = conditions.any Condition.isNil := by
    rw [mapValuesIn_eq_map, List.any_map]
    congr 1
    funext condition
    exact isNil_mapValues condition
  have hempty : mapValuesIn f conditions = [] ↔ conditions = [] := by
    rw [mapValuesIn_eq_map, List.map_eq_nil_iff]
  simp only [validateChildren, hnil, hempty]

section Loops

variable {W : Type}

theorem evaluateAll_mapValuesIn : ∀ conditions : List Condition,
    (∀ condition ∈ conditions, ∀ (state : EvaluationState W) (w : W),
      (condition.mapValues f).evaluate state w = condition.evaluate state w) →
    ∀ (state : EvaluationState W) (w : W),
      evaluateAll state w (mapValuesIn f conditions) = evaluateAll state w conditions := by
  intro conditions
  induction conditions with
  | nil => intro _ state w; rfl
  | cons child rest ih =>
    intro h state w
    have hrest := ih fun other ho => h other (List.mem_cons_of_mem _ ho)
    rw [mapValuesIn, evaluateAll, evaluateAll, h child List.mem_cons_self]
    simp only [hrest]

theorem evaluateAny_mapValuesIn : ∀ conditions : List Condition,
    (∀ condition ∈ conditions, ∀ (state : EvaluationState W) (w : W),
      (condition.mapValues f).evaluate state w = condition.evaluate state w) →
    ∀ (state : EvaluationState W) (w : W) (status : Status),
      evaluateAny state w status (mapValuesIn f conditions)
        = evaluateAny state w status conditions := by
  intro conditions
  induction conditions with
  | nil => intro _ state w status; rfl
  | cons child rest ih =>
    intro h state w status
    have hrest := ih fun other ho => h other (List.mem_cons_of_mem _ ho)
    rw [mapValuesIn, evaluateAny, evaluateAny, h child List.mem_cons_self]
    simp only [hrest]

end Loops

section Alike

variable (hf : ComparesAlike f)

include hf

theorem validate_mapValues (condition : Condition) :
    (condition.mapValues f).validate = condition.validate := by
  cases condition with
  | equalCondition reference want =>
    rw [Condition.mapValues, Condition.validate, Condition.validate, hf.kind]
  | allCondition conditions => exact validateChildren_mapValuesIn conditions
  | anyCondition conditions => exact validateChildren_mapValuesIn conditions
  | notCondition condition =>
    rw [Condition.mapValues, Condition.validate, Condition.validate, isNil_mapValues]
  | comparisonCondition reference want operator =>
    rw [Condition.mapValues, Condition.validate, Condition.validate, hf.kind]
  | inCondition reference values =>
    rw [Condition.mapValues]
    cases values with
    | nil => rfl
    | cons first rest =>
      have hkinds : ∀ l : List Value, (l.map f).all (fun value => value.kind = first.kind)
          = l.all fun value => value.kind = first.kind := by
        intro l
        rw [List.all_map]
        congr 1
        funext value
        exact congrArg (fun kind => decide (kind = first.kind)) (hf.kind value)
      have hall := hkinds (first :: rest)
      rw [List.map_cons] at hall ⊢
      simp only [Condition.validate]
      cases validateReference reference with
      | some err => rfl
      | none =>
        dsimp only
        rw [hf.kind, hall]
  | _ => rfl

theorem localCardinality_mapValues (condition : Condition) :
    (condition.mapValues f).localCardinality = condition.localCardinality := by
  cases condition with
  | equalCondition reference want =>
    rw [Condition.mapValues, Condition.localCardinality, Condition.localCardinality, hf.stringSet]
  | inCondition reference values =>
    rw [Condition.mapValues, Condition.localCardinality, Condition.localCardinality,
      List.length_map]
  | _ => rfl

theorem validateStack_mapValues (limits : Limits) : ∀ (fuel : Nat)
    (stack : List (Condition × Int)) (cardinality : Int),
      validateStack limits fuel (stack.map fun frame => (frame.1.mapValues f, frame.2)) cardinality
        = validateStack limits fuel stack cardinality := by
  intro fuel
  induction fuel with
  | zero => intro stack cardinality; rfl
  | succ fuel ih =>
    intro stack cardinality
    cases stack with
    | nil => rfl
    | cons frame stack =>
      obtain ⟨condition, depth⟩ := frame
      have hstack : (condition.mapValues f).children.map (fun child => (child, depth + 1)) ++
            stack.map (fun frame => (frame.1.mapValues f, frame.2))
          = (condition.children.map (fun child => (child, depth + 1)) ++ stack).map
            fun frame => (frame.1.mapValues f, frame.2) := by
        rw [children_mapValues, List.map_append, List.map_map, List.map_map]
        rfl
      rw [List.map_cons, validateStack, validateStack, validate_mapValues hf,
        localCardinality_mapValues hf, hstack, ih]

theorem validateConditionLimits_mapValues (condition : Condition) (limits : Limits) :
    validateConditionLimits (condition.mapValues f) limits
      = validateConditionLimits condition limits := by
  rw [validateConditionLimits, validateConditionLimits, nodes_mapValues]
  exact validateStack_mapValues hf limits _ [(condition, 1)] 0

/-! ### Evaluation -/

section Evaluate

variable {W : Type}

theorem test_mapValues (got : Value) (condition : Condition) :
    (condition.mapValues f).test got = condition.test got := by
  cases condition with
  | comparisonCondition reference want operator =>
    have hholds : operator.holds got (f want) = operator.holds got want := by
      unfold Comparison.holds
      rw [hf.compare]
    rw [Condition.mapValues, Condition.test, Condition.test, hf.kind, hholds]
  | inCondition reference values =>
    rw [Condition.mapValues]
    cases values with
    | nil => rfl
    | cons first rest =>
      have hany : ∀ l : List Value, (l.map f).any got.equal = l.any got.equal := by
        intro l
        rw [List.any_map]
        congr 1
        funext want
        exact hf.equal got want
      have hfirst := hany (first :: rest)
      rw [List.map_cons] at hfirst ⊢
      simp only [Condition.test, hf.kind, hfirst]
  | _ => rfl

theorem testEqual_mapValues (state : EvaluationState W) (reference : Reference) (want : Value) :
    state.testEqual reference (f want) = state.testEqual reference want := by
  unfold EvaluationState.testEqual
  simp only [hf.kind, hf.equal]

theorem evaluateLoaded_mapValues (condition : Condition) (reference : Reference)
    (state : EvaluationState W) (w : W) :
    (condition.mapValues f).evaluateLoaded reference state w
      = condition.evaluateLoaded reference state w := by
  unfold Condition.evaluateLoaded
  simp only [test_mapValues hf]

/-- **A condition evaluates as before.** -/
theorem evaluate_mapValues (condition : Condition) : ∀ (state : EvaluationState W) (w : W),
    (condition.mapValues f).evaluate state w = condition.evaluate state w := by
  induction condition using Condition.rule with
  | nil => intro state w; rfl
  | leaf condition hleaf =>
    intro state w
    cases condition with
    | nil => cases hleaf
    | allCondition => cases hleaf
    | anyCondition => cases hleaf
    | notCondition => cases hleaf
    | existsCondition => rfl
    | nullCondition => rfl
    | equalCondition reference want =>
      simp only [Condition.mapValues, Condition.evaluate, testEqual_mapValues hf]
    | comparisonCondition reference want operator =>
      exact evaluateLoaded_mapValues hf (.comparisonCondition reference want operator) reference
        state w
    | inCondition reference values =>
      exact evaluateLoaded_mapValues hf (.inCondition reference values) reference state w
    | setContainsCondition => rfl
    | stringCondition => rfl
    | ipCondition => rfl
  | all conditions ih =>
    intro state w
    simp only [Condition.mapValues, Condition.evaluate, evaluateAll_mapValuesIn conditions ih]
  | any conditions ih =>
    intro state w
    simp only [Condition.mapValues, Condition.evaluate, evaluateAny_mapValuesIn conditions ih]
  | not condition ih =>
    intro state w
    simp only [Condition.mapValues, Condition.evaluate, ih]

end Evaluate

end Alike

end Mapped

/-! ### Rules with changed literals -/

def Rule.mapValues (f : Value → Value) (rule : Rule) : Rule :=
  { rule with condition := rule.condition.mapValues f }

def NamedCondition.mapValues (f : Value → Value) (definition : NamedCondition) : NamedCondition :=
  { definition with condition := definition.condition.mapValues f }

def Evaluator.mapValues (f : Value → Value) (evaluator : Evaluator) : Evaluator :=
  { evaluator with rules := evaluator.rules.map (Rule.mapValues f) }

section MappedRules

variable {f : Value → Value}

theorem lookup_namedMap_mapValues (namedConditions : List NamedCondition) (key : NamedKey) :
    (namedMap (namedConditions.map (NamedCondition.mapValues f))).lookup key
      = ((namedMap namedConditions).lookup key).map (Condition.mapValues f) := by
  unfold namedMap
  rw [List.foldl_map]
  have hchanged := lookup_foldl_insert_map NamedCondition.key
    (fun definition => definition.condition.mapValues f) key namedConditions ∅ ∅ rfl
  have hbefore := lookup_foldl_insert_map NamedCondition.key NamedCondition.condition key
    namedConditions ∅ ∅ rfl
  rw [hbefore, Option.map_map]
  exact hchanged

theorem bound_mapValues (namedConditions : List NamedCondition) (rule : Rule) :
    (rule.mapValues f).bound (namedMap (namedConditions.map (NamedCondition.mapValues f)))
      = (rule.bound (namedMap namedConditions)).mapValues f := by
  unfold Rule.bound
  show (if rule.conditionName ≠ [] then
    ((namedMap (namedConditions.map (NamedCondition.mapValues f))).lookup
      (rule.conditionName, rule.conditionVersion)).getD Condition.nil
    else rule.condition.mapValues f) = _
  rw [lookup_namedMap_mapValues]
  split
  · cases (namedMap namedConditions).lookup (rule.conditionName, rule.conditionVersion) <;> rfl
  · rfl

variable (hf : ComparesAlike f)

include hf

theorem NamedOk.mapValues {limits : Limits} {definition : NamedCondition}
    (h : NamedOk limits definition) : NamedOk limits (definition.mapValues f) where
  name_ne := h.name_ne
  version_ne := h.version_ne
  present := by
    show (definition.condition.mapValues f).isNil = false
    rw [isNil_mapValues, h.present]
  valid := by
    show validateConditionLimits (definition.condition.mapValues f) limits = none
    rw [validateConditionLimits_mapValues hf, h.valid]

theorem RuleOk.mapValues {limits : Limits} {namedConditions : List NamedCondition} {rule : Rule}
    (h : RuleOk limits (namedMap namedConditions) rule) :
    RuleOk limits (namedMap (namedConditions.map (NamedCondition.mapValues f)))
      (rule.mapValues f) where
  binding := by
    refine ⟨h.binding.inline, fun hname => ?_⟩
    obtain ⟨hnil, hversion, hfound⟩ := h.binding.reference hname
    refine ⟨?_, hversion, ?_⟩
    · show (rule.condition.mapValues f).isNil = true
      rw [isNil_mapValues, hnil]
    · rw [lookup_namedMap_mapValues, Option.isSome_map]
      exact hfound
  id_ne := h.id_ne
  action_ne := h.action_ne
  resourceType_ne := h.resourceType_ne
  effect := h.effect
  present := by rw [bound_mapValues, isNil_mapValues, h.present]
  valid := by rw [bound_mapValues, validateConditionLimits_mapValues hf, h.valid]

/-- **`New` accepts rules with changed literals as before.** -/
theorem new_mapValues {rules : List Rule} {namedConditions : List NamedCondition}
    {options : List Limits} {evaluator : Evaluator}
    (h : new rules namedConditions options = .ok evaluator) :
    new (rules.map (Rule.mapValues f)) (namedConditions.map (NamedCondition.mapValues f)) options
      = .ok (evaluator.mapValues f) := by
  obtain ⟨haccepted, rfl⟩ := new_eq_ok_iff.mp h
  refine new_eq_ok_iff.mpr ⟨⟨?_, ?_, ?_, ?_, ?_, ?_⟩, ?_⟩
  · rw [List.length_map]
    exact haccepted.rules_le
  · rw [List.length_map]
    exact haccepted.named_le
  · rw [List.map_map]
    exact haccepted.named_nodup
  · intro changed hchanged
    obtain ⟨definition, hd, rfl⟩ := List.mem_map.mp hchanged
    exact (haccepted.named_ok definition hd).mapValues hf
  · rw [List.map_map]
    exact haccepted.rules_nodup
  · intro changed hchanged
    obtain ⟨rule, hr, rfl⟩ := List.mem_map.mp hchanged
    exact (haccepted.rules_ok rule hr).mapValues hf
  · have hbind : (rules.map (Rule.mapValues f)).map
          (Rule.bind (namedMap (namedConditions.map (NamedCondition.mapValues f))))
        = (rules.map (Rule.bind (namedMap namedConditions))).map (Rule.mapValues f) := by
      rw [List.map_map, List.map_map]
      refine List.map_congr_left fun rule _ => ?_
      show { rule with condition := Rule.bound _ (rule.mapValues f) } = _
      rw [bound_mapValues]
      rfl
    unfold boundEvaluator Evaluator.mapValues
    dsimp only
    have hsort := map_sortBy (PriorityLe Rule.priority Rule.id)
      (PriorityLe Rule.priority Rule.id) (Rule.mapValues f)
      (l := rules.map (Rule.bind (namedMap namedConditions))) fun _ _ _ _ => Iff.rfl
    rw [hbind, hsort]

section Evaluate

variable {W : Type}

theorem evaluateRules_mapValues (maxMatches : Int) (request : Request) : ∀ (rules : List Rule)
    (state : EvaluationState W) (decision : Decision) (w : W),
      evaluateRules maxMatches request state decision (rules.map (Rule.mapValues f)) w
        = evaluateRules maxMatches request state decision rules w := by
  intro rules
  induction rules with
  | nil => intro state decision w; rfl
  | cons rule rest ih =>
    intro state decision w
    have hscope : (rule.mapValues f).inScope request = rule.inScope request := rfl
    have hevaluate : (rule.mapValues f).condition.evaluate state w
        = rule.condition.evaluate state w := evaluate_mapValues hf rule.condition state w
    rw [List.map_cons, evaluateRules, evaluateRules, hscope, hevaluate]
    simp only [ih]
    rfl

/-- **An evaluator with changed literals decides as before.** -/
theorem evaluator_mapValues (evaluator : Evaluator) (ctx : Context W) (request : Request) (w : W) :
    (evaluator.mapValues f).evaluate ctx request w = evaluator.evaluate ctx request w :=
  evaluateRules_mapValues hf _ request evaluator.rules _ _ w

theorem evaluateBatch_mapValues (evaluator : Evaluator) (ctx : Context W)
    (requests : List Request) (w : W) :
    (evaluator.mapValues f).evaluateBatch ctx requests w
      = evaluator.evaluateBatch ctx requests w := by
  unfold Evaluator.evaluateBatch
  simp only [evaluator_mapValues hf]
  rfl

end Evaluate

end MappedRules

/-! ### The sign of zero -/

theorem floatFinite_unsignZero {bits : UInt64} (h : floatFinite bits = true) :
    floatFinite (Json.unsignZero bits) = true := by
  unfold Json.unsignZero
  split
  · rfl
  · exact h

/-- A literal without the sign of zero. -/
def Value.unsignZero : Value → Value
  | .float value => .float ⟨Json.unsignZero value.bits, floatFinite_unsignZero value.finite⟩
  | value => value

theorem scaled_unsignZero (value : Float64) :
    Float64.scaled ⟨Json.unsignZero value.bits, floatFinite_unsignZero value.finite⟩
      = value.scaled := by
  obtain ⟨bits, hfinite⟩ := value
  by_cases hbits : bits = Json.negativeZero
  · subst hbits
    simp [Float64.scaled, floatExponent, Json.unsignZero, Json.negativeZero]
  · simp only [Json.unsignZero, if_neg hbits]

/-- **The sign of zero is not seen.** -/
theorem comparesAlike_unsignZero : ComparesAlike Value.unsignZero where
  kind want := by cases want <;> rfl
  equal got want := by
    cases want with
    | float value =>
      cases got with
      | float other =>
        show (other.scaled == Float64.scaled _) = (other.scaled == value.scaled)
        rw [scaled_unsignZero]
      | _ => rfl
    | _ => rfl
  compare got want := by
    cases want with
    | float value =>
      cases got with
      | float other =>
        show some (Value.compareOrdered other.scaled (Float64.scaled _)) = _
        rw [scaled_unsignZero]
        rfl
      | _ => rfl
    | _ => rfl
  stringSet want := by cases want <;> rfl

end Authorization.Abac
