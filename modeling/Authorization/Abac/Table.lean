import Authorization.Abac.Cost

/-!
# The decision table of the rules

An evaluation that neither runs out of budget nor meets a set that is too large is
the decision table on the rules that match: those whose scope covers the request and
whose bound condition holds, in the order of their priorities and identifiers.

Sorting and binding leave nothing of the order in which the rules and the named
conditions were given, and a rule keeps nothing of the name it was bound by but the
name itself, which an evaluation does not read.  Permuted and inlined rules are
therefore accepted too and answer every request alike, errors included.
-/

namespace Authorization.Abac

open Authorization.Foundation Authorization.Core

/-! ### Scope and match -/

/-- The rule is about the request. -/
structure Rule.Covers (rule : Rule) (request : Request) : Prop where
  tenant : rule.tenant = request.tenant
  action : rule.action = request.action
  resourceType : rule.resourceType = request.resource.type
  resourceID : rule.resourceID = [] ∨ rule.resourceID = request.resource.id

theorem inScope_iff {rule : Rule} {request : Request} :
    rule.inScope request = true ↔ rule.Covers request := by
  rw [Rule.inScope]
  constructor
  · intro h
    simp only [Bool.not_eq_true', Bool.or_eq_false_iff, Bool.and_eq_false_iff, decide_eq_false_iff_not,
      ne_eq, not_not] at h
    exact ⟨h.1.1.1, h.1.1.2, h.1.2, h.2⟩
  · intro h
    simp only [Bool.not_eq_true', Bool.or_eq_false_iff, Bool.and_eq_false_iff, decide_eq_false_iff_not,
      ne_eq, not_not]
    exact ⟨⟨⟨h.tenant, h.action⟩, h.resourceType⟩, h.resourceID⟩

/-- The condition matches, given a visit for each of its nodes. -/
def Condition.holds (condition : Condition) (request : Request) (limits : Limits) : Bool :=
  match (evaluateCondition (.background (W := Unit)) condition request
      (limits.withBudget condition.nodes) ()).1 with
  | .returned result none => result.matched
  | _ => false

/-! ### The limits of an evaluator -/

structure Limits.Positive (limits : Limits) : Prop where
  maxRules : 0 < limits.maxRules
  maxDepth : 0 < limits.maxDepth
  maxCost : 0 < limits.maxCost
  maxMatches : 0 < limits.maxMatches
  maxSetSize : 0 < limits.maxSetSize
  maxBatchSize : 0 < limits.maxBatchSize
  maxNamedConditions : 0 < limits.maxNamedConditions

theorem Limits.Positive.withLimits {current : Limits} (h : current.Positive) (override : Limits) :
    (override.withLimits current).Positive :=
  ⟨overrideLimit_pos h.maxRules, overrideLimit_pos h.maxDepth, overrideLimit_pos h.maxCost,
    overrideLimit_pos h.maxMatches, overrideLimit_pos h.maxSetSize, overrideLimit_pos h.maxBatchSize,
    overrideLimit_pos h.maxNamedConditions⟩

theorem configured_positive (options : List Limits) : (configured options).Positive := by
  refine List.foldlRecOn (motive := Limits.Positive) options _ ?_
    fun _ h override _ => h.withLimits override
  constructor <;> decide

theorem normalizedLimits_of_positive {limits : Limits} (h : limits.Positive) :
    normalizedLimits limits = limits := by
  have hkeep : ∀ {override current : Int}, 0 < override →
      overrideLimit override current = override := fun hpos => if_pos hpos
  simp only [normalizedLimits, Limits.withLimits, hkeep h.maxRules, hkeep h.maxDepth,
    hkeep h.maxCost, hkeep h.maxMatches, hkeep h.maxSetSize, hkeep h.maxBatchSize,
    hkeep h.maxNamedConditions]

/-- A condition holds when it means a match. -/
theorem holds_iff {condition : Condition} {request : Request} {limits : Limits}
    (hpositive : limits.Positive) (hvalid : validateConditionLimits condition limits = none) :
    condition.holds request limits = true ↔
      (condition.meaning request limits.maxSetSize).value = .decided .statusMatch := by
  have hnodes : (0 : Int) < condition.nodes := by
    have hpos := nodes_pos condition
    omega
  have hlimits : normalizedLimits (limits.withBudget condition.nodes)
      = limits.withBudget condition.nodes := by
    rw [normalizedLimits_withBudget limits hnodes, normalizedLimits_of_positive hpositive]
  obtain ⟨ending, n, w', hmetered, hout⟩ := evaluateCondition_runs
    (.background (W := Unit)) request ()
    (by rw [hlimits, validateConditionLimits_withBudget, hvalid])
  rw [hlimits] at hmetered
  have hprice : (condition.meaning request limits.maxSetSize).price ≤ condition.nodes :=
    meaning_price condition
  rw [Condition.holds, hout]
  rcases hmetered.settled (not_fails Context.quiet_background) with ⟨-, rfl, -⟩ | ⟨hshort, -, -⟩
  · have hvalue : (condition.meaning request (limits.withBudget condition.nodes).maxSetSize).value
        = (condition.meaning request limits.maxSetSize).value := rfl
    rw [hvalue]
    cases (condition.meaning request limits.maxSetSize).value with
    | decided status =>
      simp only [endingAnswer, Verdict.answer, Answer.withCost, decide_eq_true_eq,
        Verdict.decided.injEq]
    | tooLarge =>
      exact ⟨fun h => Bool.noConfusion h, fun h => Verdict.noConfusion h⟩
    | panicked =>
      exact ⟨fun h => Bool.noConfusion h, fun h => Verdict.noConfusion h⟩
  · have hshort' : (condition.nodes : Int)
        < 0 + ((condition.meaning request limits.maxSetSize).price : Int) := hshort
    omega

/-! ### The table -/

/-- The rules that match, in order. -/
def matchingRules (request : Request) (maxSetSize : Int) (rules : List Rule) : List Rule :=
  rules.filter fun rule => rule.inScope request &&
    (rule.condition.meaning request maxSetSize).value = .decided .statusMatch

/-- What a matching rule contributes. -/
def Rule.contribution (rule : Rule) : PolicyID × Outcome := (rule.id, rule.effect)

theorem matchingRules_cons_of_match {request : Request} {maxSetSize : Int} {rule : Rule}
    (hscope : rule.inScope request = true)
    (hmatch : (rule.condition.meaning request maxSetSize).value = .decided .statusMatch)
    (rest : List Rule) : matchingRules request maxSetSize (rule :: rest)
      = rule :: matchingRules request maxSetSize rest :=
  List.filter_cons_of_pos (by simp [hscope, hmatch])

theorem matchingRules_cons_of_not {request : Request} {maxSetSize : Int} {rule : Rule}
    (h : ¬ (rule.inScope request = true ∧
      (rule.condition.meaning request maxSetSize).value = .decided .statusMatch))
    (rest : List Rule) : matchingRules request maxSetSize (rule :: rest)
      = matchingRules request maxSetSize rest :=
  List.filter_cons_of_neg (by simpa using h)

/-- Without a set that is too large the loop records the matching rules. -/
theorem rulesMeaning_value (maxMatches : Int) (request : Request) (maxSetSize : Int) :
    ∀ (rules : List Rule) (decision decided : Decision) (err : Option GoError),
      (rulesMeaning maxMatches request maxSetSize decision rules).value = .returned decided err →
      err ≠ some (.sentinel .abacErrSetLimitExceeded) →
      (recordAll reasons maxMatches decision
          ((matchingRules request maxSetSize rules).map Rule.contribution) = some decided ∧
        err = none) ∨
      (recordAll reasons maxMatches decision
          ((matchingRules request maxSetSize rules).map Rule.contribution) = none ∧
        decided = reasons.limitDecision ∧ err = some (.sentinel .abacErrMatchLimitExceeded)) := by
  intro rules
  induction rules with
  | nil =>
    intro decision decided err h _
    cases h
    exact Or.inl ⟨rfl, rfl⟩
  | cons rule rest ih =>
    intro decision decided err h hset
    rw [rulesMeaning] at h
    by_cases hscope : rule.inScope request = true
    · rw [if_neg (by simp [hscope]), Priced.bind_value] at h
      by_cases hmatch : (rule.condition.meaning request maxSetSize).value = .decided .statusMatch
      · rw [matchingRules_cons_of_match hscope hmatch, List.map_cons, recordAll]
        rw [hmatch] at h
        simp only [if_true] at h
        rw [Rule.contribution]
        cases hrecord : recordMatch reasons maxMatches decision (rule.id, rule.effect) with
        | none =>
          rw [hrecord] at h
          cases h
          exact Or.inr ⟨rfl, rfl, rfl⟩
        | some decision' =>
          rw [hrecord] at h
          exact ih decision' decided err h hset
      · rw [matchingRules_cons_of_not fun h => hmatch h.2]
        cases hverdict : (rule.condition.meaning request maxSetSize).value with
        | panicked => rw [hverdict] at h; cases h
        | tooLarge =>
          rw [hverdict] at h
          cases h
          exact absurd rfl hset
        | decided status =>
          rw [hverdict] at h hmatch
          have hstatus : status ≠ .statusMatch := fun heq => hmatch (heq ▸ rfl)
          simp only [if_neg hstatus] at h
          exact ih decision decided err h hset
    · rw [if_pos (by simp [hscope])] at h
      rw [matchingRules_cons_of_not fun h => hscope h.1]
      exact ih decision decided err h hset

/-- **The table of one evaluation**, on the matching rules. -/
structure RuleTable (rules : List Rule) (namedConditions : List NamedCondition)
    (limits : Limits) (request : Request) (decision : Decision) (err : Option GoError)
    (matching : List Rule) : Prop where
  /-- The matching rules are those that cover the request and whose condition holds. -/
  mem_iff : ∀ bound, bound ∈ matching ↔ ∃ rule ∈ rules,
    bound = rule.bind (namedMap namedConditions) ∧ rule.Covers request ∧
      (rule.bound (namedMap namedConditions)).holds request limits = true
  sorted : matching.Pairwise (PriorityLt Rule.priority Rule.id)
  limit : err = some (.sentinel .abacErrMatchLimitExceeded) ↔ limits.maxMatches < matching.length
  limit_deny : err = some (.sentinel .abacErrMatchLimitExceeded) → decision.outcome = .deny
  table : (matching.length : Int) ≤ limits.maxMatches →
    err = none ∧ Decided reasons (matching.map Rule.contribution) decision

theorem mem_matchingRules {rules : List Rule} {namedConditions : List NamedCondition}
    {options : List Limits} (h : Accepted rules namedConditions options) {request : Request}
    {bound : Rule} :
    bound ∈ matchingRules request (configured options).maxSetSize
        (boundEvaluator rules namedConditions options).rules ↔
      ∃ rule ∈ rules, bound = rule.bind (namedMap namedConditions) ∧ rule.Covers request ∧
        (rule.bound (namedMap namedConditions)).holds request (configured options) = true := by
  rw [matchingRules, List.mem_filter, boundEvaluator, mem_sortBy, List.mem_map, Bool.and_eq_true,
    decide_eq_true_eq]
  constructor
  · rintro ⟨⟨rule, hrule, rfl⟩, hscope, hmatch⟩
    exact ⟨rule, hrule, rfl, inScope_iff.mp hscope,
      (holds_iff (configured_positive options) (h.rules_ok rule hrule).valid).mpr hmatch⟩
  · rintro ⟨rule, hrule, rfl, hcovers, hholds⟩
    have hscope : rule.inScope request = true := inScope_iff.mpr hcovers
    exact ⟨⟨rule, hrule, rfl⟩, hscope,
      (holds_iff (configured_positive options) (h.rules_ok rule hrule).valid).mp hholds⟩

theorem bind_ids_nodup {rules : List Rule} (h : (rules.map Rule.id).Nodup)
    (named : GoMap NamedKey Condition) : ((rules.map (Rule.bind named)).map Rule.id).Nodup := by
  rw [List.map_map]
  exact h

/-- What was recorded from the start is the table, up to the limit. -/
theorem recorded_table {matching : List Rule} {maxMatches : Int} (hpos : 0 < maxMatches)
    {decision : Decision} {err : Option GoError}
    (h : (recordAll reasons maxMatches {} (matching.map Rule.contribution) = some decision ∧
        err = none) ∨
      (recordAll reasons maxMatches {} (matching.map Rule.contribution) = none ∧
        decision = reasons.limitDecision ∧ err = some (.sentinel .abacErrMatchLimitExceeded))) :
    (err = some (.sentinel .abacErrMatchLimitExceeded) ↔ maxMatches < matching.length) ∧
    (err = some (.sentinel .abacErrMatchLimitExceeded) → decision.outcome = .deny) ∧
    ((matching.length : Int) ≤ maxMatches →
      err = none ∧ Decided reasons (matching.map Rule.contribution) decision) := by
  rw [recordAll_zero, List.length_map] at h
  by_cases hfits : (matching.length : Int) ≤ maxMatches
  · rw [if_pos (Or.inr hfits)] at h
    rcases h with ⟨hdecision, rfl⟩ | ⟨hnone, -, -⟩
    · cases hdecision
      exact ⟨⟨nofun, fun hlt => absurd hfits (not_le.mpr hlt)⟩, nofun,
        fun _ => ⟨rfl, decided_tableDecision reasons _⟩⟩
    · cases hnone
  · have hnil : matching.map Rule.contribution ≠ [] := by
      rw [Ne, List.map_eq_nil_iff]
      rintro rfl
      exact hfits hpos.le
    rw [if_neg (not_or.mpr ⟨hnil, hfits⟩)] at h
    rcases h with ⟨hsome, -⟩ | ⟨-, rfl, rfl⟩
    · cases hsome
    · exact ⟨⟨fun _ => not_le.mp hfits, fun _ => rfl⟩, fun _ => rfl, fun hle => absurd hle hfits⟩

theorem rule_table {W : Type} {ctx : Context W} (hctx : ctx.Quiet) {rules : List Rule}
    {namedConditions : List NamedCondition} {options : List Limits}
    (haccepted : Accepted rules namedConditions options) {request : Request} {w : W}
    {decision : Decision} {err : Option GoError}
    (h : ((boundEvaluator rules namedConditions options).evaluate ctx request w).1
      = .returned decision err)
    (hcost : err ≠ some (.sentinel .abacErrCostExceeded))
    (hset : err ≠ some (.sentinel .abacErrSetLimitExceeded)) :
    RuleTable rules namedConditions (configured options) request decision err
      (matchingRules request (configured options).maxSetSize
        (boundEvaluator rules namedConditions options).rules) := by
  have hpositive := configured_positive options
  obtain ⟨ending, n, w', hmetered, hloop, -⟩ := evaluateRules_metered
    (configured options).maxMatches (boundEvaluator rules namedConditions options).rules
    ((boundEvaluator rules namedConditions options).start ctx request) {} w hpositive.maxCost.le
  have hevaluate : (boundEvaluator rules namedConditions options).evaluate ctx request w
      = (endingCall ending, w') := hloop
  rw [hevaluate] at h
  rcases hmetered.settled (not_fails hctx) with ⟨-, rfl, -⟩ | ⟨-, rfl, -⟩
  · have hrecorded := rulesMeaning_value _ _ _ _ _ _ _ h hset
    have hsorted : (matchingRules request (configured options).maxSetSize
        (boundEvaluator rules namedConditions options).rules).Pairwise
        (PriorityLt Rule.priority Rule.id) :=
      (pairwise_priorityLt (bind_ids_nodup haccepted.rules_nodup _)).sublist List.filter_sublist
    obtain ⟨hlimit, hdeny, htable⟩ := recorded_table hpositive.maxMatches hrecorded
    exact ⟨fun bound => mem_matchingRules haccepted, hsorted, hlimit, hdeny, htable⟩
  · cases h
    exact absurd rfl hcost

/-! ### Reordering and inlining -/

theorem lookup_namedMap {namedConditions : List NamedCondition}
    (h : (namedConditions.map NamedCondition.key).Nodup) {key : NamedKey} {condition : Condition} :
    (namedMap namedConditions).lookup key = some condition ↔
      ∃ definition ∈ namedConditions, definition.key = key ∧ definition.condition = condition := by
  have hindex : (namedMap namedConditions).lookup key
      = ((indexBy NamedCondition.key namedConditions).lookup key).map NamedCondition.condition :=
    lookup_foldl_insert_map NamedCondition.key NamedCondition.condition key namedConditions ∅ ∅ rfl
  rw [hindex, Option.map_eq_some_iff]
  simp only [lookup_indexBy h, and_assoc]

/-- The map of named conditions does not depend on their order. -/
theorem lookup_namedMap_perm {namedConditions namedConditions' : List NamedCondition}
    (h : (namedConditions.map NamedCondition.key).Nodup)
    (hperm : namedConditions'.Perm namedConditions) (key : NamedKey) :
    (namedMap namedConditions').lookup key = (namedMap namedConditions).lookup key := by
  have h' : (namedConditions'.map NamedCondition.key).Nodup := (hperm.map _).nodup_iff.mpr h
  refine Option.ext fun condition => ?_
  rw [lookup_namedMap h, lookup_namedMap h']
  simp only [hperm.mem_iff]

section Binding

variable {named named' : GoMap NamedKey Condition}

theorem bound_congr (h : ∀ key, named'.lookup key = named.lookup key) (rule : Rule) :
    rule.bound named' = rule.bound named := by
  rw [Rule.bound, Rule.bound, h]

theorem bind_congr (h : ∀ key, named'.lookup key = named.lookup key) :
    Rule.bind named' = Rule.bind named := by
  funext rule
  rw [Rule.bind, Rule.bind, bound_congr h]

theorem RuleOk.congr (h : ∀ key, named'.lookup key = named.lookup key) {limits : Limits}
    {rule : Rule} (hok : RuleOk limits named rule) : RuleOk limits named' rule where
  binding := ⟨hok.binding.inline, fun hname => by
    rw [h]
    exact hok.binding.reference hname⟩
  id_ne := hok.id_ne
  action_ne := hok.action_ne
  resourceType_ne := hok.resourceType_ne
  effect := hok.effect
  present := by rw [bound_congr h]; exact hok.present
  valid := by rw [bound_congr h]; exact hok.valid

/-- A rule with the condition it names in place of the name. -/
def Rule.inlined (named : GoMap NamedKey Condition) (rule : Rule) : Rule :=
  if rule.conditionName ≠ [] then
    { rule with condition := rule.bound named, conditionName := [], conditionVersion := 0 }
  else rule

/-- A rule without the name of its condition. -/
def Rule.unnamed (rule : Rule) : Rule := { rule with conditionName := [], conditionVersion := 0 }

theorem inlined_id (rule : Rule) : (rule.inlined named).id = rule.id := by
  rw [Rule.inlined]
  split <;> rfl

/-- An accepted rule is bound alike when its condition is inline. -/
theorem bind_inlined {limits : Limits} {rule : Rule} (h : RuleOk limits named rule) :
    (rule.inlined named).bind named' = (rule.bind named).unnamed := by
  rw [Rule.inlined]
  by_cases hname : rule.conditionName = []
  · have hbound : ∀ named : GoMap NamedKey Condition, rule.bound named = rule.condition :=
      fun named => if_neg (not_not.mpr hname)
    have hversion := h.binding.inline hname
    rw [if_neg (not_not.mpr hname), Rule.bind, Rule.bind, Rule.unnamed, hbound, hbound, ← hname,
      ← hversion]
  · rw [if_pos hname]
    rfl

theorem RuleOk.inlined {limits : Limits} {rule : Rule} (h : RuleOk limits named rule) :
    RuleOk limits named' (rule.inlined named) := by
  have hbound : (rule.inlined named).bound named' = rule.bound named :=
    congrArg Rule.condition (bind_inlined h)
  have hfields := h
  rw [Rule.inlined] at hbound ⊢
  by_cases hname : rule.conditionName = []
  · rw [if_neg (not_not.mpr hname)] at hbound ⊢
    exact ⟨⟨h.binding.inline, fun hne => absurd hname hne⟩, h.id_ne, h.action_ne,
      h.resourceType_ne, h.effect, hbound ▸ h.present, hbound ▸ h.valid⟩
  · rw [if_pos hname] at hbound ⊢
    exact ⟨⟨fun _ => rfl, fun hne => absurd rfl hne⟩, h.id_ne, h.action_ne, h.resourceType_ne,
      h.effect, hbound.symm ▸ h.present, hbound.symm ▸ h.valid⟩

end Binding

/-- Evaluation does not read the name of a condition. -/
theorem evaluateRules_unnamed {W : Type} (maxMatches : Int) (request : Request) :
    ∀ (rules : List Rule) (state : EvaluationState W) (decision : Decision) (w : W),
      evaluateRules maxMatches request state decision (rules.map Rule.unnamed) w
        = evaluateRules maxMatches request state decision rules w := by
  intro rules
  induction rules with
  | nil => intro state decision w; rfl
  | cons rule rest ih =>
    intro state decision w
    rw [List.map_cons, evaluateRules, evaluateRules]
    have hscope : rule.unnamed.inScope request = rule.inScope request := rfl
    have hcondition : rule.unnamed.condition = rule.condition := rfl
    have hid : rule.unnamed.id = rule.id := rfl
    have heffect : rule.unnamed.effect = rule.effect := rfl
    rw [hscope, hcondition, hid, heffect]
    simp only [ih]

theorem Accepted.of_perm {rules rules' : List Rule}
    {namedConditions namedConditions' : List NamedCondition} {options : List Limits}
    (h : Accepted rules namedConditions options) (hrules : rules'.Perm rules)
    (hnamed : namedConditions'.Perm namedConditions) :
    Accepted rules' namedConditions' options where
  rules_le := hrules.length_eq ▸ h.rules_le
  named_le := hnamed.length_eq ▸ h.named_le
  named_nodup := (hnamed.map _).nodup_iff.mpr h.named_nodup
  named_ok definition hmem := h.named_ok definition (hnamed.mem_iff.mp hmem)
  rules_nodup := (hrules.map _).nodup_iff.mpr h.rules_nodup
  rules_ok rule hmem := (h.rules_ok rule (hrules.mem_iff.mp hmem)).congr
    (lookup_namedMap_perm h.named_nodup hnamed)

/-- The evaluator does not depend on the order of what it is made of. -/
theorem boundEvaluator_perm {rules rules' : List Rule}
    {namedConditions namedConditions' : List NamedCondition} {options : List Limits}
    (h : Accepted rules namedConditions options) (hrules : rules'.Perm rules)
    (hnamed : namedConditions'.Perm namedConditions) :
    boundEvaluator rules' namedConditions' options
      = boundEvaluator rules namedConditions options := by
  have hbind := bind_congr (lookup_namedMap_perm h.named_nodup hnamed)
  have hties := bind_ids_nodup h.rules_nodup (namedMap namedConditions)
  rw [boundEvaluator, boundEvaluator, hbind,
    sortBy_eq_of_perm _ (hrules.map (Rule.bind (namedMap namedConditions))).symm
      (PriorityLe.eq_of_nodup hties)]

theorem Accepted.inlined {rules : List Rule} {namedConditions : List NamedCondition}
    {options : List Limits} (h : Accepted rules namedConditions options) :
    Accepted (rules.map (Rule.inlined (namedMap namedConditions))) namedConditions options where
  rules_le := by rw [List.length_map]; exact h.rules_le
  named_le := h.named_le
  named_nodup := h.named_nodup
  named_ok := h.named_ok
  rules_nodup := by
    have hids : (rules.map (Rule.inlined (namedMap namedConditions))).map Rule.id
        = rules.map Rule.id := by
      rw [List.map_map]
      exact List.map_congr_left fun rule _ => inlined_id rule
    rw [hids]
    exact h.rules_nodup
  rules_ok := by
    intro rule hmem
    obtain ⟨source, hsource, rfl⟩ := List.mem_map.mp hmem
    exact (h.rules_ok source hsource).inlined

theorem boundEvaluator_inlined {rules : List Rule} {namedConditions : List NamedCondition}
    {options : List Limits} (h : Accepted rules namedConditions options) :
    (boundEvaluator (rules.map (Rule.inlined (namedMap namedConditions))) namedConditions
      options).rules = (boundEvaluator rules namedConditions options).rules.map Rule.unnamed := by
  have hbind : (rules.map (Rule.inlined (namedMap namedConditions))).map
      (Rule.bind (namedMap namedConditions))
        = (rules.map (Rule.bind (namedMap namedConditions))).map Rule.unnamed := by
    rw [List.map_map, List.map_map]
    exact List.map_congr_left fun rule hmem => bind_inlined (h.rules_ok rule hmem)
  rw [boundEvaluator, boundEvaluator, hbind]
  exact (map_sortBy _ _ Rule.unnamed fun _ _ _ _ => Iff.rfl).symm

/-- The evaluators answer every request alike, whatever the context. -/
def SameAnswers (evaluator evaluator' : Evaluator) : Prop :=
  ∀ {W : Type} (ctx : Context W) (request : Request) (w : W),
    evaluator'.evaluate ctx request w = evaluator.evaluate ctx request w

theorem sameAnswers_inlined {rules : List Rule} {namedConditions : List NamedCondition}
    {options : List Limits} (h : Accepted rules namedConditions options) :
    SameAnswers (boundEvaluator rules namedConditions options)
      (boundEvaluator (rules.map (Rule.inlined (namedMap namedConditions))) namedConditions
        options) := by
  intro W ctx request w
  rw [Evaluator.evaluate, boundEvaluator_inlined h, evaluateRules_unnamed]
  rfl

/-- **The rules are evaluated by the table**, whatever order they and the named
conditions come in and whether a condition is named or inline. -/
theorem rules_table {rules : List Rule} {namedConditions : List NamedCondition}
    {options : List Limits} {evaluator : Evaluator}
    (hnew : new rules namedConditions options = .ok evaluator) :
    (∀ {W : Type} (ctx : Context W), ctx.Quiet → ∀ request w decision err,
      (evaluator.evaluate ctx request w).1 = .returned decision err →
      err ≠ some (.sentinel .abacErrCostExceeded) →
      err ≠ some (.sentinel .abacErrSetLimitExceeded) →
      ∃ matching, RuleTable rules namedConditions evaluator.limits request decision err matching) ∧
    ∀ rules' namedConditions', (rules'.Perm rules ∨
        rules'.Perm (rules.map (Rule.inlined (namedMap namedConditions)))) →
      namedConditions'.Perm namedConditions →
      ∃ evaluator', new rules' namedConditions' options = .ok evaluator' ∧
        SameAnswers evaluator evaluator' := by
  obtain ⟨haccepted, rfl⟩ := new_eq_ok_iff.mp hnew
  refine ⟨fun ctx hctx request w decision err h hcost hset =>
    ⟨_, rule_table hctx haccepted h hcost hset⟩, ?_⟩
  intro rules' namedConditions' hrules hnamed
  refine ⟨_, new_eq_ok_iff.mpr ⟨?_, rfl⟩, ?_⟩
  · rcases hrules with hrules | hrules
    · exact haccepted.of_perm hrules hnamed
    · exact haccepted.inlined.of_perm hrules hnamed
  · intro W ctx request w
    rcases hrules with hrules | hrules
    · rw [boundEvaluator_perm haccepted hrules hnamed]
    · rw [boundEvaluator_perm haccepted.inlined hrules hnamed]
      exact sameAnswers_inlined haccepted ctx request w

/-- A named condition, a rule that refers to it and one with its own. -/
def levelConditions : List NamedCondition :=
  [⟨str "unlevelled", 1, .notCondition (.existsCondition (requested "level"))⟩]

def levelRules : List Rule :=
  [{ id := str "b", action := str "read", resourceType := str "doc", effect := .allow,
     conditionName := str "unlevelled", conditionVersion := 1 },
    { id := str "a", action := str "read", resourceType := str "doc", effect := .allow,
      priority := 1, condition := .notCondition (.existsCondition (requested "team")) }]

theorem rules_table_levels :
    (∃ decision matching, decision.matchedPolicyIDs = [str "a", str "b"] ∧
      RuleTable levelRules levelConditions (configured []) (asking ∅) decision none matching) ∧
    ∃ evaluator', new (levelRules.map (Rule.inlined (namedMap levelConditions))).reverse
        levelConditions [] = .ok evaluator' ∧
      SameAnswers (boundEvaluator levelRules levelConditions []) evaluator' := by
  have hnew : new levelRules levelConditions []
      = .ok (boundEvaluator levelRules levelConditions []) := rfl
  obtain ⟨htable, hsame⟩ := rules_table hnew
  refine ⟨?_, hsame _ _ (Or.inr (List.reverse_perm _)) (.refl _)⟩
  have hevaluate : ((boundEvaluator levelRules levelConditions []).evaluate
      (.background (W := Unit)) (asking ∅) ()).1
        = .returned (tableDecision reasons [(str "a", .allow), (str "b", .allow)]) none := by
    decide +kernel
  obtain ⟨matching, h⟩ := htable .background Context.quiet_background _ _ _ _ hevaluate nofun nofun
  exact ⟨_, matching, rfl, h⟩

end Authorization.Abac
