import Authorization.Abac.Condition
import Authorization.Core.Match
import Authorization.Core.Snapshot

/-!
# Attribute-based access control

The rule half of `abac/abac.go`.  `New` binds each rule to its inline or named
condition, checks it and sorts the rules by descending priority and identifier.
An evaluation walks the sorted rules, skips those out of scope and pays for the
conditions of the others from one budget.

A rule out of scope costs nothing and changes nothing, so an evaluation sees the
rules of its own tenant only: `evaluate_eq_tenantRules`.
-/

namespace Authorization.Abac

open Authorization.Foundation Authorization.Core

def reasons : MatchReasons where
  allow := str "abac-allow"
  explicitDeny := str "abac-explicit-deny"
  limitExceeded := str "abac-limit-exceeded"

structure Rule where
  id : PolicyID
  priority : Int := 0
  tenant : TenantID := []
  action : Action
  resourceType : ResourceType
  /-- Empty for the whole type. -/
  resourceID : ResourceID := []
  effect : Outcome
  condition : Condition := .nil
  conditionName : Bytes := []
  conditionVersion : UInt64 := 0

structure NamedCondition where
  name : Bytes
  version : UInt64
  condition : Condition

abbrev NamedKey := Bytes × UInt64

def NamedCondition.key (definition : NamedCondition) : NamedKey :=
  (definition.name, definition.version)

structure Evaluator where
  rules : List Rule
  limits : Limits

/-- The only option of the package is `WithLimits`. -/
def configured (options : List Limits) : Limits :=
  options.foldl (fun limits override => override.withLimits limits) (normalizedLimits {})

/-! ### Construction -/

/-- The checks of `New` on one named condition. -/
def checkNamed (limits : Limits) (index : Nat) (seen : List NamedKey)
    (definition : NamedCondition) : Option GoError :=
  let parts := [.text "named condition ", .quoted definition.name, .text " version ",
    .num definition.version.toNat, .text ": "]
  if definition.name = [] ∨ definition.version = 0 ∨ definition.condition.isNil then
    some (.errorf [.text "named condition ", .num index, .text ": "]
      (.sentinel .abacErrInvalidCondition))
  else if definition.key ∈ seen then
    some (.errorf parts (.sentinel .abacErrDuplicateNamedCondition))
  else (validateConditionLimits definition.condition limits).map (.errorf parts)

/-- The map of named conditions. -/
def namedMap (namedConditions : List NamedCondition) : GoMap NamedKey Condition :=
  namedConditions.foldl (fun named definition => named.insert definition.key definition.condition) ∅

/-- The condition a rule is bound to, nil if there is none. -/
def Rule.bound (named : GoMap NamedKey Condition) (rule : Rule) : Condition :=
  if rule.conditionName ≠ [] then
    (named.lookup (rule.conditionName, rule.conditionVersion)).getD .nil
  else rule.condition

/-- A rule with its bound condition. -/
def Rule.bind (named : GoMap NamedKey Condition) (rule : Rule) : Rule :=
  { rule with condition := rule.bound named }

/-- The errors of binding a rule. -/
def checkBinding (named : GoMap NamedKey Condition) (index : Nat) (rule : Rule) : Option GoError :=
  let invalid := GoError.errorf [.text "rule ", .num index, .text ": "]
    (.sentinel .abacErrInvalidRule)
  if rule.conditionName ≠ [] then
    if !rule.condition.isNil ∨ rule.conditionVersion = 0 then some invalid
    else if (named.lookup (rule.conditionName, rule.conditionVersion)).isNone then
      some (.errorf [.text "rule ", .quoted rule.id, .text ": "]
        (.sentinel .abacErrUnknownNamedCondition))
    else none
  else if rule.conditionVersion ≠ 0 then some invalid
  else none

/-- The checks of `New` on one rule. -/
def checkRule (limits : Limits) (named : GoMap NamedKey Condition) (index : Nat)
    (ruleIDs : List PolicyID) (rule : Rule) : Option GoError :=
  match checkBinding named index rule with
  | some err => some err
  | none =>
    if rule.id = [] ∨ rule.action = [] ∨ rule.resourceType = [] ∨
        (rule.effect ≠ .allow ∧ rule.effect ≠ .deny) ∨ (rule.bound named).isNil then
      some (.errorf [.text "rule ", .num index, .text ": "] (.sentinel .abacErrInvalidRule))
    else if rule.id ∈ ruleIDs then
      some (.errorf [.text "rule ", .quoted rule.id, .text ": "] (.sentinel .abacErrInvalidRule))
    else (validateConditionLimits (rule.bound named) limits).map
      (.errorf [.text "rule ", .quoted rule.id, .text ": "])

/-- `New`. -/
def new (rules : List Rule) (namedConditions : List NamedCondition) (options : List Limits) :
    Except GoError Evaluator :=
  let limits := configured options
  if rules.length > limits.maxRules then .error (.sentinel .abacErrRuleLimitExceeded)
  else if namedConditions.length > limits.maxNamedConditions then
    .error (.sentinel .abacErrRuleLimitExceeded)
  else
    match checkEach NamedCondition.key (checkNamed limits) 0 [] namedConditions with
    | some err => .error err
    | none =>
      let named := namedMap namedConditions
      match checkEach Rule.id (checkRule limits named) 0 [] rules with
      | some err => .error err
      | none => .ok
          ⟨sortBy (PriorityLe Rule.priority Rule.id) (rules.map (Rule.bind named)), limits⟩

/-! ### Evaluation -/

/-- The scope test of the loop. -/
def Rule.inScope (rule : Rule) (request : Request) : Bool :=
  !(rule.tenant ≠ request.tenant || rule.action ≠ request.action ||
    rule.resourceType ≠ request.resource.type ||
    (rule.resourceID ≠ [] && rule.resourceID ≠ request.resource.id))

/-- The decision that comes with an error of a condition. -/
def failedDecision (err : GoError) : Decision where
  outcome := .deny
  reason :=
    if GoError.is .contextCanceled err || GoError.is .contextDeadlineExceeded err then
      reasonContextCanceled
    else reasons.limitExceeded

section Evaluate

variable {W : Type}

/-- The loop of `Evaluate`. -/
def evaluateRules (maxMatches : Int) (request : Request) :
    EvaluationState W → Decision → List Rule → W → CallResult × W
  | _, decision, [], w => (.returned decision none, w)
  | state, decision, rule :: rest, w =>
    if !rule.inScope request then evaluateRules maxMatches request state decision rest w
    else
      match rule.condition.evaluate state w with
      | (.panicked, _, w) => (.panicked, w)
      | (.returned _ (some err), _, w) => (.returned (failedDecision err) (some err), w)
      | (.returned result none, state, w) =>
        if result.matched then
          match recordMatch reasons maxMatches decision (rule.id, rule.effect) with
          | none =>
            (.returned reasons.limitDecision (some (.sentinel .abacErrMatchLimitExceeded)), w)
          | some decision => evaluateRules maxMatches request state decision rest w
        else evaluateRules maxMatches request state decision rest w

/-- The state an evaluation starts with. -/
def Evaluator.start (evaluator : Evaluator) (ctx : Context W) (request : Request) :
    EvaluationState W :=
  { ctx, request, maxCost := evaluator.limits.maxCost, maxSetSize := evaluator.limits.maxSetSize }

/-- `Evaluate`. -/
def Evaluator.evaluate (evaluator : Evaluator) (ctx : Context W) (request : Request) (w : W) :
    CallResult × W :=
  evaluateRules evaluator.limits.maxMatches request (evaluator.start ctx request) {}
    evaluator.rules w

/-- `EvaluateBatch`. -/
def Evaluator.evaluateBatch (evaluator : Evaluator) (ctx : Context W) (requests : List Request)
    (w : W) : BatchResult × W :=
  Core.evaluateBatch evaluator.limits.maxBatchSize .abacErrBatchLimitExceeded
    (fun _ request w => evaluator.evaluate ctx request w) requests w

/-- `EvaluateCondition`. -/
def evaluateCondition (ctx : Context W) (condition : Condition) (request : Request)
    (limits : Limits) (w : W) : Answer × W :=
  if condition.isNil then (.returned {} (some (.sentinel .abacErrInvalidCondition)), w)
  else
    let limits := normalizedLimits limits
    match validateConditionLimits condition limits with
    | some err => (.returned {} (some err), w)
    | none =>
      match condition.evaluate
          { ctx, request, maxCost := limits.maxCost, maxSetSize := limits.maxSetSize } w with
      | (.returned result err, state, w) => (.returned { result with cost := state.cost } err, w)
      | (.panicked, _, w) => (.panicked, w)

end Evaluate

/-! ### What `New` accepts -/

/-- What the check of a named condition looks for besides its name. -/
structure NamedOk (limits : Limits) (definition : NamedCondition) : Prop where
  name_ne : definition.name ≠ []
  version_ne : definition.version ≠ 0
  present : definition.condition.isNil = false
  valid : validateConditionLimits definition.condition limits = none

theorem checkNamed_eq_none_iff (limits : Limits) (index : Nat) (seen : List NamedKey)
    (definition : NamedCondition) :
    checkNamed limits index seen definition = none ↔
      NamedOk limits definition ∧ definition.key ∉ seen := by
  rw [checkNamed]
  constructor
  · intro h
    split at h
    · cases h
    · rename_i hfields
      split at h
      · cases h
      · rename_i hseen
        push Not at hfields
        exact ⟨⟨hfields.1, hfields.2.1, by simpa using hfields.2.2, Option.map_eq_none_iff.mp h⟩, hseen⟩
  · rintro ⟨h, hseen⟩
    rw [if_neg (by simp [h.name_ne, h.version_ne, h.present]), if_neg hseen, h.valid]
    rfl

/-- The binding of a rule finds its condition. -/
structure BindingOk (named : GoMap NamedKey Condition) (rule : Rule) : Prop where
  inline : rule.conditionName = [] → rule.conditionVersion = 0
  reference : rule.conditionName ≠ [] → rule.condition.isNil = true ∧ rule.conditionVersion ≠ 0 ∧
    (named.lookup (rule.conditionName, rule.conditionVersion)).isSome = true

theorem checkBinding_eq_none_iff {named : GoMap NamedKey Condition} {index : Nat} {rule : Rule} :
    checkBinding named index rule = none ↔ BindingOk named rule := by
  rw [checkBinding]
  by_cases hname : rule.conditionName = []
  · by_cases hversion : rule.conditionVersion = 0
    · simp only [hname, hversion, ne_eq, not_true_eq_false, if_false, true_iff]
      exact ⟨fun _ => hversion, fun h => absurd hname h⟩
    · simp only [hname, hversion, ne_eq, not_true_eq_false, if_false, not_false_eq_true, if_true,
        reduceCtorEq, false_iff]
      exact fun h => hversion (h.inline hname)
  · rw [if_pos hname]
    constructor
    · intro h
      split at h
      · cases h
      · rename_i hinline
        split at h
        · cases h
        · rename_i hfound
          push Not at hinline
          refine ⟨fun hn => absurd hn hname, fun _ => ⟨by simpa using hinline.1, hinline.2, ?_⟩⟩
          simpa [Option.isNone_iff_eq_none, Option.isSome_iff_ne_none] using hfound
    · intro h
      obtain ⟨hnil, hversion, hfound⟩ := h.reference hname
      rw [if_neg (by simp [hnil, hversion]), if_neg (by simp [← Option.not_isSome, hfound])]

/-- What the check of a rule looks for besides its identifier. -/
structure RuleOk (limits : Limits) (named : GoMap NamedKey Condition) (rule : Rule) : Prop where
  binding : BindingOk named rule
  id_ne : rule.id ≠ []
  action_ne : rule.action ≠ []
  resourceType_ne : rule.resourceType ≠ []
  effect : rule.effect = .allow ∨ rule.effect = .deny
  present : (rule.bound named).isNil = false
  valid : validateConditionLimits (rule.bound named) limits = none

theorem checkRule_eq_none_iff (limits : Limits) (named : GoMap NamedKey Condition) (index : Nat)
    (ruleIDs : List PolicyID) (rule : Rule) :
    checkRule limits named index ruleIDs rule = none ↔
      RuleOk limits named rule ∧ rule.id ∉ ruleIDs := by
  rw [checkRule]
  constructor
  · intro h
    split at h
    · cases h
    · rename_i hbinding
      split at h
      · cases h
      · rename_i hfields
        split at h
        · cases h
        · rename_i hseen
          push Not at hfields
          obtain ⟨hid, haction, htype, heffect, hnil⟩ := hfields
          refine ⟨⟨checkBinding_eq_none_iff.mp hbinding, hid, haction, htype, ?_, by simpa using hnil,
            Option.map_eq_none_iff.mp h⟩, hseen⟩
          by_cases hallow : rule.effect = .allow
          · exact Or.inl hallow
          · exact Or.inr (heffect hallow)
  · rintro ⟨h, hseen⟩
    rw [checkBinding_eq_none_iff.mpr h.binding]
    dsimp only
    have heffect : ¬ (rule.effect ≠ .allow ∧ rule.effect ≠ .deny) := by
      rcases h.effect with heq | heq
      · exact fun hne => hne.1 heq
      · exact fun hne => hne.2 heq
    rw [if_neg (by simp [h.id_ne, h.action_ne, h.resourceType_ne, h.present, heffect]),
      if_neg hseen, h.valid]
    rfl

/-- The rules and named conditions `New` accepts. -/
structure Accepted (rules : List Rule) (namedConditions : List NamedCondition)
    (options : List Limits) : Prop where
  rules_le : rules.length ≤ (configured options).maxRules
  named_le : namedConditions.length ≤ (configured options).maxNamedConditions
  named_nodup : (namedConditions.map NamedCondition.key).Nodup
  named_ok : ∀ definition ∈ namedConditions, NamedOk (configured options) definition
  rules_nodup : (rules.map Rule.id).Nodup
  rules_ok : ∀ rule ∈ rules, RuleOk (configured options) (namedMap namedConditions) rule

/-- The evaluator of accepted rules: bound and sorted. -/
def boundEvaluator (rules : List Rule) (namedConditions : List NamedCondition)
    (options : List Limits) : Evaluator :=
  ⟨sortBy (PriorityLe Rule.priority Rule.id) (rules.map (Rule.bind (namedMap namedConditions))),
    configured options⟩

/-- **What `New` accepts and what it builds.** -/
theorem new_eq_ok_iff {rules : List Rule} {namedConditions : List NamedCondition}
    {options : List Limits} {evaluator : Evaluator} :
    new rules namedConditions options = .ok evaluator ↔
      Accepted rules namedConditions options ∧
        evaluator = boundEvaluator rules namedConditions options := by
  rw [new]
  dsimp only
  constructor
  · intro h
    split at h
    · cases h
    rename_i hrules
    split at h
    · cases h
    rename_i hnamed
    split at h
    · cases h
    rename_i hnamedOk
    split at h
    · cases h
    rename_i hrulesOk
    injection h with h
    obtain ⟨hnnd, -, hnok⟩ := (checkEach_eq_none_iff (checkNamed_eq_none_iff _)).mp hnamedOk
    obtain ⟨hrnd, -, hrok⟩ := (checkEach_eq_none_iff (checkRule_eq_none_iff _ _)).mp hrulesOk
    exact ⟨⟨not_lt.mp hrules, not_lt.mp hnamed, hnnd, hnok, hrnd, hrok⟩, h.symm⟩
  · rintro ⟨h, rfl⟩
    rw [if_neg (not_lt.mpr h.rules_le), if_neg (not_lt.mpr h.named_le),
      (checkEach_eq_none_iff (checkNamed_eq_none_iff _)).mpr
        ⟨h.named_nodup, fun _ _ => List.not_mem_nil, h.named_ok⟩]
    dsimp only
    rw [(checkEach_eq_none_iff (checkRule_eq_none_iff _ _)).mpr
      ⟨h.rules_nodup, fun _ _ => List.not_mem_nil, h.rules_ok⟩]
    rfl

/-- **What `New` accepts is bound, checked and sorted.** -/
theorem new_eq_ok {rules : List Rule} {namedConditions : List NamedCondition}
    {options : List Limits} {evaluator : Evaluator}
    (h : new rules namedConditions options = .ok evaluator) :
    (rules.map Rule.id).Nodup ∧
      evaluator = ⟨sortBy (PriorityLe Rule.priority Rule.id)
        (rules.map (Rule.bind (namedMap namedConditions))), configured options⟩ := by
  obtain ⟨haccepted, heq⟩ := new_eq_ok_iff.mp h
  exact ⟨haccepted.rules_nodup, heq⟩

/-! ### What a tenant sees -/

section Scope

variable {W : Type}

/-- The loop sees the rules in scope only. -/
theorem evaluateRules_filter (maxMatches : Int) (request : Request) (p : Rule → Bool)
    (hp : ∀ rule : Rule, rule.inScope request = true → p rule = true) : ∀ (rules : List Rule)
    (state : EvaluationState W) (decision : Decision) (w : W),
      evaluateRules maxMatches request state decision rules w
        = evaluateRules maxMatches request state decision (rules.filter p) w := by
  intro rules
  induction rules with
  | nil => intro state decision w; rfl
  | cons rule rest ih =>
    intro state decision w
    by_cases hkeep : p rule = true
    · rw [List.filter_cons_of_pos hkeep, evaluateRules, evaluateRules]
      by_cases hscope : rule.inScope request = true
      · rw [if_neg (by simp [hscope]), if_neg (by simp [hscope])]
        rcases rule.condition.evaluate state w with ⟨⟨result, _ | err⟩ | _, state', w'⟩
        · dsimp only
          split
          · split
            · rfl
            · exact ih _ _ _
          · exact ih _ _ _
        · rfl
        · rfl
      · rw [if_pos (by simp [hscope]), if_pos (by simp [hscope])]
        exact ih _ _ _
    · rw [List.filter_cons_of_neg hkeep, evaluateRules,
        if_pos (by simpa using fun hscope => hkeep (hp rule hscope))]
      exact ih _ _ _

/-- The rules of a tenant, bound to their conditions. -/
def tenantRules (tenant : TenantID) (rules : List Rule) (namedConditions : List NamedCondition) :
    List Rule :=
  (rules.filter fun rule => rule.tenant = tenant).map (Rule.bind (namedMap namedConditions))

/-- An evaluation is one of the sorted rules of the request's tenant. -/
theorem evaluate_eq_tenantRules {rules : List Rule} {namedConditions : List NamedCondition}
    {options : List Limits} {evaluator : Evaluator}
    (h : new rules namedConditions options = .ok evaluator) (ctx : Context W) (request : Request)
    (w : W) :
    evaluator.evaluate ctx request w
      = Evaluator.evaluate ⟨sortBy (PriorityLe Rule.priority Rule.id)
          (tenantRules request.tenant rules namedConditions), configured options⟩ ctx request w := by
  obtain ⟨hnodup, rfl⟩ := new_eq_ok h
  have hscope : ∀ rule : Rule, rule.inScope request = true →
      decide (rule.tenant = request.tenant) = true := by
    intro rule hr
    simp only [Rule.inScope] at hr
    by_contra hne
    simp_all
  have hties : ((rules.map (Rule.bind (namedMap namedConditions))).map Rule.id).Nodup := by
    rw [List.map_map]
    exact hnodup
  have hscoped : (rules.map (Rule.bind (namedMap namedConditions))).filter
      (fun rule => rule.tenant = request.tenant) = tenantRules request.tenant rules namedConditions := by
    rw [List.filter_map]
    rfl
  unfold Evaluator.evaluate
  dsimp only
  rw [evaluateRules_filter _ request _ hscope, filter_sortBy _ _ (PriorityLe.eq_of_nodup hties),
    hscoped]
  rfl

end Scope

end Authorization.Abac
