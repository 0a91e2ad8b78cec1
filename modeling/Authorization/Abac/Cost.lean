import Authorization.Abac.Validation

/-!
# What an evaluation costs

The price of a condition on a request is a number of visits that neither the budget
nor the context has a say in.  A budget that covers it changes nothing, and one that
does not is spent to the last and ends in `ErrCostExceeded`.  An evaluator pays for
the rules in scope, in order, from one counter, so the same holds of it with the
prices added up (`rulesMeaning`).

Conditions that `New` and `EvaluateCondition` accept do not panic, which leaves a
status or `ErrSetLimitExceeded` for a budget that suffices.
-/

namespace Authorization.Abac

open Authorization.Foundation Authorization.Core

/-! ### Accepted conditions do not panic -/

section Meaning

variable {request : Request} {maxSetSize : Int}

theorem ofMatched_ne_panicked (matched : Bool) :
    (Answer.ofMatched matched).verdict ≠ .panicked := by
  cases matched <;> exact fun h => Verdict.noConfusion h

theorem testLoaded_ne_panicked {condition : Condition} {reference : Reference}
    (htest : ∀ value, (condition.test value).verdict ≠ .panicked) :
    ((reading request maxSetSize).testLoaded condition reference).verdict ≠ .panicked := by
  rw [EvaluationState.testLoaded]
  split
  · exact fun h => Verdict.noConfusion h
  · split
    · exact fun h => Verdict.noConfusion h
    · split
      · exact fun h => Verdict.noConfusion h
      · exact htest _

theorem testEqual_ne_panicked (reference : Reference) (want : Value) :
    ((reading request maxSetSize).testEqual reference want).verdict ≠ .panicked := by
  rw [EvaluationState.testEqual]
  split
  · exact fun h => Verdict.noConfusion h
  · split
    · exact fun h => Verdict.noConfusion h
    · split
      · split <;> exact fun h => Verdict.noConfusion h
      · split
        · exact fun h => Verdict.noConfusion h
        · exact ofMatched_ne_panicked _

/-- Of the conditions about one attribute only an empty `In` panics. -/
theorem ask_ne_panicked {condition : Condition} (hleaf : condition.isLeaf = true)
    (hcandidates : ∀ reference, condition ≠ .inCondition reference []) :
    ((reading request maxSetSize).ask condition).verdict ≠ .panicked := by
  cases condition with
  | nil | allCondition | anyCondition | notCondition => cases hleaf
  | equalCondition reference want => exact testEqual_ne_panicked reference want
  | existsCondition reference => exact ofMatched_ne_panicked _
  | nullCondition reference => exact ofMatched_ne_panicked _
  | inCondition reference values =>
    refine testLoaded_ne_panicked fun value => ?_
    cases values with
    | nil => exact absurd rfl (hcandidates reference)
    | cons first rest =>
      rw [Condition.test]
      split
      · exact fun h => Verdict.noConfusion h
      · exact ofMatched_ne_panicked _
  | comparisonCondition | setContainsCondition | stringCondition | ipCondition =>
    refine testLoaded_ne_panicked fun value => ?_
    rw [Condition.test]
    split
    · exact fun h => Verdict.noConfusion h
    · exact ofMatched_ne_panicked _

/-- A verdict of `Any` that is no status is that of a child. -/
theorem meaningAny_eq_panicked : ∀ {conditions : List Condition} {status : Status},
    (meaningAny request maxSetSize status conditions).value = .panicked →
    ∃ condition ∈ conditions, (condition.meaning request maxSetSize).value = .panicked := by
  intro conditions
  induction conditions with
  | nil => intro status h; cases h
  | cons child rest ih =>
    intro status h
    rcases meaningAny_cons_cases status child rest with ⟨other, hother, hchild⟩ | ⟨-, hvalue⟩
    · rw [meaningAny_cons_decided hchild hother] at h
      obtain ⟨condition, hmem, hcondition⟩ := ih h
      exact ⟨condition, List.mem_cons_of_mem _ hmem, hcondition⟩
    · exact ⟨child, List.mem_cons_self, hvalue ▸ h⟩

/-- **A well-formed condition does not panic.** -/
theorem meaning_ne_panicked (condition : Condition) : condition.wellFormed = true →
    (condition.meaning request maxSetSize).value ≠ .panicked := by
  induction condition using Condition.rule with
  | nil => intro h; cases h
  | leaf condition hleaf =>
    intro h
    rw [meaning_leaf hleaf]
    exact ask_ne_panicked hleaf (candidates_of_validate ((wellFormed_iff condition).mp h).1)
  | all conditions ih =>
    intro h hpanic
    rw [Condition.meaning] at hpanic
    obtain ⟨child, hmem, hchild⟩ := meaningAll_eq_other (by decide) hpanic
    exact ih child hmem (Condition.everywhere_all h child hmem) hchild
  | any conditions ih =>
    intro h hpanic
    rw [Condition.meaning] at hpanic
    obtain ⟨child, hmem, hchild⟩ := meaningAny_eq_panicked hpanic
    exact ih child hmem (Condition.everywhere_any h child hmem) hchild
  | not condition ih =>
    intro h hpanic
    rw [Condition.meaning, Priced.tick_value, Priced.bind_value, Priced.free_value] at hpanic
    refine ih (Condition.everywhere_not h) ?_
    cases hverdict : (condition.meaning request maxSetSize).value with
    | panicked => rfl
    | decided | tooLarge => rw [hverdict] at hpanic; cases hpanic

/-! ### The price -/

theorem meaningAll_price : ∀ {conditions : List Condition},
    (∀ condition ∈ conditions,
      (condition.meaning request maxSetSize).price ≤ condition.nodes) →
    (meaningAll request maxSetSize conditions).price ≤ nodesOf conditions := by
  intro conditions
  induction conditions with
  | nil => intro _; exact Nat.le_refl 0
  | cons child rest ih =>
    intro h
    obtain ⟨hchild, hrest⟩ := List.forall_mem_cons.mp h
    have htail := ih hrest
    rw [meaningAll, Priced.bind_price, nodesOf]
    split
    · omega
    · rw [Priced.free_price]
      omega

theorem meaningAny_price : ∀ {conditions : List Condition},
    (∀ condition ∈ conditions,
      (condition.meaning request maxSetSize).price ≤ condition.nodes) →
    ∀ status, (meaningAny request maxSetSize status conditions).price ≤ nodesOf conditions := by
  intro conditions
  induction conditions with
  | nil => intro _ status; exact Nat.le_refl 0
  | cons child rest ih =>
    intro h status
    obtain ⟨hchild, hrest⟩ := List.forall_mem_cons.mp h
    have htail := ih hrest
    rw [meaningAny, Priced.bind_price, nodesOf]
    split
    · rw [Priced.free_price]
      omega
    · exact Nat.add_le_add hchild (htail _)
    · rw [Priced.free_price]
      omega

/-- **A node is visited at most once.** -/
theorem meaning_price (condition : Condition) :
    (condition.meaning request maxSetSize).price ≤ condition.nodes := by
  induction condition using Condition.rule with
  | nil => exact Nat.zero_le _
  | leaf condition hleaf =>
    rw [meaning_leaf hleaf]
    exact nodes_pos condition
  | all conditions ih =>
    have hall := meaningAll_price ih
    rw [Condition.meaning, Condition.nodes, Priced.tick_price]
    omega
  | any conditions ih =>
    have hany := meaningAny_price ih .statusNoMatch
    rw [Condition.meaning, Condition.nodes, Priced.tick_price]
    omega
  | not condition ih =>
    rw [Condition.meaning, Condition.nodes, Priced.tick_price, Priced.bind_price,
      Priced.free_price]
    omega

end Meaning

/-! ### The price of the rules -/

/-- What the loop of `Evaluate` comes to and the visits it takes. -/
def rulesMeaning (maxMatches : Int) (request : Request) (maxSetSize : Int) :
    Decision → List Rule → Priced CallResult
  | decision, [] => .free (.returned decision none)
  | decision, rule :: rest =>
    if !rule.inScope request then rulesMeaning maxMatches request maxSetSize decision rest
    else
      (rule.condition.meaning request maxSetSize).bind fun verdict =>
        match verdict with
        | .panicked => .free .panicked
        | .tooLarge => .free (.returned (failedDecision (.sentinel .abacErrSetLimitExceeded))
            (some (.sentinel .abacErrSetLimitExceeded)))
        | .decided status =>
          if status = .statusMatch then
            match recordMatch reasons maxMatches decision (rule.id, rule.effect) with
            | none => .free (.returned reasons.limitDecision
                (some (.sentinel .abacErrMatchLimitExceeded)))
            | some decision => rulesMeaning maxMatches request maxSetSize decision rest
          else rulesMeaning maxMatches request maxSetSize decision rest

/-- The nodes of the rules in scope. -/
def scopeNodes (request : Request) (rules : List Rule) : Nat :=
  nodesOf ((rules.filter fun rule => rule.inScope request).map Rule.condition)

theorem scopeNodes_cons (request : Request) (rule : Rule) (rest : List Rule) :
    scopeNodes request (rule :: rest)
      = (if rule.inScope request then rule.condition.nodes else 0) + scopeNodes request rest := by
  rw [scopeNodes, List.filter_cons]
  split
  · rfl
  · rw [Nat.zero_add]
    rfl

theorem rulesMeaning_price (maxMatches : Int) (request : Request) (maxSetSize : Int) :
    ∀ (rules : List Rule) (decision : Decision),
      (rulesMeaning maxMatches request maxSetSize decision rules).price
        ≤ scopeNodes request rules := by
  intro rules
  induction rules with
  | nil => intro decision; exact Nat.le_refl 0
  | cons rule rest ih =>
    intro decision
    rw [rulesMeaning, scopeNodes_cons]
    by_cases hscope : rule.inScope request = true
    · rw [if_neg (by simp [hscope]), if_pos hscope, Priced.bind_price]
      have hrule : (rule.condition.meaning request maxSetSize).price ≤ rule.condition.nodes :=
        meaning_price rule.condition
      refine Nat.add_le_add hrule ?_
      split
      · exact Nat.zero_le _
      · exact Nat.zero_le _
      · split
        · split
          · exact Nat.zero_le _
          · exact ih _
        · exact ih _
    · rw [if_pos (by simp [hscope]), if_neg hscope, Nat.zero_add]
      exact ih decision

theorem rulesMeaning_ne_panicked (maxMatches : Int) (request : Request) (maxSetSize : Int) :
    ∀ (rules : List Rule) (decision : Decision),
      (∀ rule ∈ rules, rule.condition.wellFormed = true) →
      (rulesMeaning maxMatches request maxSetSize decision rules).value ≠ .panicked := by
  intro rules
  induction rules with
  | nil => intro decision _ h; cases h
  | cons rule rest ih =>
    intro decision h
    obtain ⟨hrule, hrest⟩ := List.forall_mem_cons.mp h
    rw [rulesMeaning]
    split
    · exact ih decision hrest
    · rw [Priced.bind_value]
      split
      · rename_i hpanic
        exact absurd hpanic (meaning_ne_panicked rule.condition hrule)
      · intro h; cases h
      · split
        · split
          · intro h; cases h
          · exact ih _ hrest
        · exact ih _ hrest

section Rules

variable {W : Type}

/-- The counter when the loop of `Evaluate` ends. -/
def countRules (maxMatches : Int) (request : Request) :
    EvaluationState W → Decision → List Rule → W → Nat
  | state, _, [], _ => state.cost
  | state, decision, rule :: rest, w =>
    if !rule.inScope request then countRules maxMatches request state decision rest w
    else
      match rule.condition.evaluate state w with
      | (.panicked, state, _) => state.cost
      | (.returned _ (some _), state, _) => state.cost
      | (.returned result none, state, w) =>
        if result.matched then
          match recordMatch reasons maxMatches decision (rule.id, rule.effect) with
          | none => state.cost
          | some decision => countRules maxMatches request state decision rest w
        else countRules maxMatches request state decision rest w

/-- What the loop returns when its run ended in this way. -/
def endingCall : Ending CallResult GoError → CallResult
  | .finished result => result
  | .exhausted => .returned (failedDecision (.sentinel .abacErrCostExceeded))
      (some (.sentinel .abacErrCostExceeded))
  | .interrupted err => .returned (failedDecision err) (some err)

/-- **The loop of `Evaluate` is a metered run**, on one counter. -/
theorem evaluateRules_metered (maxMatches : Int) : ∀ (rules : List Rule)
    (state : EvaluationState W) (decision : Decision) (w : W), state.cost ≤ state.maxCost →
    ∃ ending n w', Metered (Fails state.ctx)
        (rulesMeaning maxMatches state.request state.maxSetSize decision rules) state.maxCost
        state.cost ending n ∧
      evaluateRules maxMatches state.request state decision rules w = (endingCall ending, w') ∧
      countRules maxMatches state.request state decision rules w = n := by
  intro rules
  induction rules with
  | nil =>
    intro state decision w hcost
    exact ⟨.finished (.returned decision none), state.cost, w, Metered.free hcost, rfl, rfl⟩
  | cons rule rest ih =>
    intro state decision w hcost
    rw [rulesMeaning, evaluateRules, countRules]
    by_cases hscope : rule.inScope state.request = true
    · simp only [hscope, Bool.not_true, Bool.false_eq_true, if_false]
      obtain ⟨ending, n, w', hmetered, hout⟩ := evaluate_metered rule.condition state w hcost
      rw [hout]
      cases ending with
      | exhausted => exact ⟨.exhausted, n, w', hmetered.bind_exhausted, rfl, rfl⟩
      | interrupted err => exact ⟨.interrupted err, n, w', hmetered.bind_interrupted, rfl, rfl⟩
      | finished verdict =>
        have hn := hmetered.le
        cases verdict with
        | panicked => exact ⟨_, n, w', hmetered.bind (Metered.free hn), rfl, rfl⟩
        | tooLarge => exact ⟨_, n, w', hmetered.bind (Metered.free hn), rfl, rfl⟩
        | decided status =>
          have hcontinue := fun decision => ih { state with cost := n } decision w' hn
          by_cases hmatch : status = .statusMatch
          · subst hmatch
            simp only [endingAnswer, Verdict.answer, decide_true, if_true]
            cases hrecord : recordMatch reasons maxMatches decision (rule.id, rule.effect) with
            | none =>
              refine ⟨.finished (.returned reasons.limitDecision
                (some (.sentinel .abacErrMatchLimitExceeded))), n, w', hmetered.bind ?_, rfl, rfl⟩
              exact Metered.free hn
            | some decision' =>
              obtain ⟨ending', m, w'', hmetered', hloop, hcount⟩ := hcontinue decision'
              exact ⟨ending', m, w'', hmetered.bind hmetered', hloop, hcount⟩
          · obtain ⟨ending', m, w'', hmetered', hloop, hcount⟩ := hcontinue decision
            have hunmatched : decide (status = Status.statusMatch) = false := decide_eq_false hmatch
            simp only [endingAnswer, Verdict.answer, hunmatched, Bool.false_eq_true, if_false]
            refine ⟨ending', m, w'', hmetered.bind ?_, hloop, hcount⟩
            simp only [if_neg hmatch]
            exact hmetered'
    · simp only [hscope, Bool.not_false, if_true]
      exact ih state decision w hcost

end Rules

/-! ### Budgets -/

/-- The checks do not look at the budget. -/
theorem validateStack_congr {limits limits' : Limits} (hdepth : limits.maxDepth = limits'.maxDepth)
    (hset : limits.maxSetSize = limits'.maxSetSize) : ∀ (fuel : Nat)
    (stack : List (Condition × Int)) (cardinality : Int),
      validateStack limits fuel stack cardinality = validateStack limits' fuel stack cardinality := by
  intro fuel
  induction fuel with
  | zero => intro stack cardinality; rfl
  | succ fuel ih =>
    intro stack cardinality
    cases stack with
    | nil => rfl
    | cons frame stack =>
      obtain ⟨condition, depth⟩ := frame
      rw [validateStack, validateStack, hdepth, hset]
      simp only [ih]

/-- Limits with another budget. -/
def Limits.withBudget (limits : Limits) (budget : Int) : Limits := { limits with maxCost := budget }

theorem validateConditionLimits_withBudget (condition : Condition) (limits : Limits)
    (budget : Int) : validateConditionLimits condition (limits.withBudget budget)
      = validateConditionLimits condition limits := by
  have hdepth : (limits.withBudget budget).maxDepth = limits.maxDepth := rfl
  have hset : (limits.withBudget budget).maxSetSize = limits.maxSetSize := rfl
  exact validateStack_congr hdepth hset _ _ _

theorem normalizedLimits_withBudget (limits : Limits) {budget : Int} (h : 0 < budget) :
    normalizedLimits (limits.withBudget budget) = (normalizedLimits limits).withBudget budget := by
  have hbudget : overrideLimit budget 1000 = budget := if_pos h
  simp only [normalizedLimits, Limits.withLimits, Limits.withBudget, hbudget]

/-- The option that sets the budget and nothing else. -/
def budgetOption (budget : Int) : Limits := ⟨0, 0, budget, 0, 0, 0, 0⟩

theorem configured_budget (options : List Limits) {budget : Int} (h : 0 < budget) :
    configured (options ++ [budgetOption budget]) = (configured options).withBudget budget := by
  have hbudget : ∀ current, overrideLimit budget current = budget := fun _ => if_pos h
  have hkeep : ∀ current, overrideLimit 0 current = current := fun _ => if_neg (lt_irrefl 0)
  rw [configured, List.foldl_append, ← configured]
  simp only [List.foldl_cons, List.foldl_nil, budgetOption, Limits.withLimits, hbudget, hkeep,
    Limits.withBudget]

def Evaluator.withBudget (evaluator : Evaluator) (budget : Int) : Evaluator :=
  { evaluator with limits := evaluator.limits.withBudget budget }

theorem Accepted.withBudget {rules : List Rule} {namedConditions : List NamedCondition}
    {options : List Limits} (h : Accepted rules namedConditions options) {budget : Int}
    (hbudget : 0 < budget) :
    Accepted rules namedConditions (options ++ [budgetOption budget]) := by
  have hconfigured := configured_budget options hbudget
  have hvalid : ∀ condition, validateConditionLimits condition
      (configured (options ++ [budgetOption budget]))
        = validateConditionLimits condition (configured options) := by
    intro condition
    rw [hconfigured, validateConditionLimits_withBudget]
  refine ⟨?_, ?_, h.named_nodup, ?_, h.rules_nodup, ?_⟩
  · rw [hconfigured]
    exact h.rules_le
  · rw [hconfigured]
    exact h.named_le
  · intro definition hmem
    have hok := h.named_ok definition hmem
    exact { hok with valid := (hvalid _).trans hok.valid }
  · intro rule hmem
    have hok := h.rules_ok rule hmem
    exact { hok with valid := (hvalid _).trans hok.valid }

theorem new_withBudget {rules : List Rule} {namedConditions : List NamedCondition}
    {options : List Limits} {evaluator : Evaluator}
    (h : new rules namedConditions options = .ok evaluator) {budget : Int} (hbudget : 0 < budget) :
    new rules namedConditions (options ++ [budgetOption budget])
      = .ok (evaluator.withBudget budget) := by
  obtain ⟨haccepted, rfl⟩ := new_eq_ok_iff.mp h
  refine new_eq_ok_iff.mpr ⟨haccepted.withBudget hbudget, ?_⟩
  rw [boundEvaluator, boundEvaluator, configured_budget options hbudget]
  rfl

/-! ### The law -/

section Law

variable {W : Type}

/-- **What `EvaluateCondition` returns for every budget.** -/
structure ConditionCost (ctx : Context W) (condition : Condition) (request : Request)
    (limits : Limits) (k : Nat) (result : Result) (err : Option GoError) : Prop where
  le_nodes : k ≤ condition.nodes
  err_eq : err = none ∨ err = some (.sentinel .abacErrSetLimitExceeded)
  enough : ∀ budget : Int, 0 < budget → k ≤ budget → ∀ w,
    (evaluateCondition ctx condition request (limits.withBudget budget) w).1
      = .returned { result with cost := k } err
  short : ∀ budget : Int, 0 < budget → budget < k → ∀ w,
    (evaluateCondition ctx condition request (limits.withBudget budget) w).1
      = .returned { matched := false, cost := budget.toNat }
          (some (.sentinel .abacErrCostExceeded))

/-- The counter when an evaluation ends. -/
def Evaluator.counter (evaluator : Evaluator) (ctx : Context W) (request : Request) (w : W) : Nat :=
  countRules evaluator.limits.maxMatches request (evaluator.start ctx request) {} evaluator.rules w

/-- **What `Evaluate` returns for every budget.** -/
structure RulesCost (ctx : Context W) (evaluator : Evaluator) (request : Request) (k : Nat)
    (decision : Decision) (err : Option GoError) : Prop where
  le_nodes : k ≤ scopeNodes request evaluator.rules
  enough : ∀ budget : Int, 0 < budget → k ≤ budget → ∀ w,
    ((evaluator.withBudget budget).evaluate ctx request w).1 = .returned decision err ∧
      (evaluator.withBudget budget).counter ctx request w = k
  short : ∀ budget : Int, 0 < budget → budget < k → ∀ w, ∃ denied : Decision,
    denied.outcome = .deny ∧
    ((evaluator.withBudget budget).evaluate ctx request w).1
      = .returned denied (some (.sentinel .abacErrCostExceeded)) ∧
    (evaluator.withBudget budget).counter ctx request w = budget
  /-- A decision that was reached stays with a larger budget. -/
  raised : ∀ budget budget' : Int, 0 < budget → budget ≤ budget' → ∀ w reached err',
    ((evaluator.withBudget budget).evaluate ctx request w).1 = .returned reached err' →
    err' ≠ some (.sentinel .abacErrCostExceeded) →
    ∀ w', ((evaluator.withBudget budget').evaluate ctx request w').1 = .returned reached err'

theorem condition_cost {ctx : Context W} (hctx : ctx.Quiet) {condition : Condition}
    (request : Request) {limits : Limits}
    (hvalid : validateConditionLimits condition (normalizedLimits limits) = none) :
    ∃ k result err, ConditionCost ctx condition request limits k result err := by
  let meaning := condition.meaning request (normalizedLimits limits).maxSetSize
  -- the price and the verdict do not depend on the budget
  have hruns : ∀ budget : Int, 0 < budget → ∀ w, ∃ ending n w',
      Metered (Fails ctx) meaning budget 0 ending n ∧
      evaluateCondition ctx condition request (limits.withBudget budget) w
        = ((endingAnswer ending).withCost n, w') := by
    intro budget hbudget w
    have hlimits := normalizedLimits_withBudget limits hbudget
    have hvalid' : validateConditionLimits condition
        (normalizedLimits (limits.withBudget budget)) = none := by
      rw [hlimits, validateConditionLimits_withBudget, hvalid]
    have hrun := evaluateCondition_runs ctx request w hvalid'
    rw [hlimits] at hrun
    exact hrun
  have hpanic : meaning.value ≠ .panicked :=
    meaning_ne_panicked condition (wellFormed_of_valid hvalid)
  obtain ⟨result, err, herr, hanswer⟩ : ∃ result err,
      (err = none ∨ err = some (GoError.sentinel .abacErrSetLimitExceeded)) ∧
      meaning.value.answer = .returned result err := by
    cases hverdict : meaning.value with
    | panicked => exact absurd hverdict hpanic
    | tooLarge => exact ⟨_, _, Or.inr rfl, rfl⟩
    | decided status => exact ⟨_, _, Or.inl rfl, rfl⟩
  refine ⟨meaning.price, result, err, meaning_price condition, herr, ?_, ?_⟩
  · intro budget hbudget hle w
    obtain ⟨ending, n, w', hmetered, hout⟩ := hruns budget hbudget w
    rw [hout]
    rcases hmetered.settled (not_fails hctx) with ⟨-, rfl, rfl⟩ | ⟨hshort, -, -⟩
    · rw [endingAnswer, hanswer, Nat.zero_add]
      rfl
    · omega
  · intro budget hbudget hlt w
    obtain ⟨ending, n, w', hmetered, hout⟩ := hruns budget hbudget w
    rw [hout]
    rcases hmetered.settled (not_fails hctx) with ⟨henough, -, -⟩ | ⟨-, rfl, hn⟩
    · omega
    · have hcost : n = budget.toNat := by omega
      rw [hcost]
      rfl

theorem rules_cost {ctx : Context W} (hctx : ctx.Quiet) {evaluator : Evaluator}
    (hwell : ∀ rule ∈ evaluator.rules, rule.condition.wellFormed = true) (request : Request) :
    ∃ k decision err, RulesCost ctx evaluator request k decision err := by
  let meaning := rulesMeaning evaluator.limits.maxMatches request evaluator.limits.maxSetSize {}
    evaluator.rules
  have hruns : ∀ budget : Int, 0 < budget → ∀ w,
      (meaning.price ≤ budget ∧
        ((evaluator.withBudget budget).evaluate ctx request w).1 = meaning.value ∧
        (evaluator.withBudget budget).counter ctx request w = meaning.price) ∨
      (budget < meaning.price ∧
        ((evaluator.withBudget budget).evaluate ctx request w).1 = endingCall .exhausted ∧
        (evaluator.withBudget budget).counter ctx request w = budget) := by
    intro budget hbudget w
    obtain ⟨ending, n, w', hmetered, hloop, hcount⟩ := evaluateRules_metered
      evaluator.limits.maxMatches evaluator.rules
      ((evaluator.withBudget budget).start ctx request) {} w hbudget.le
    have hevaluate : (evaluator.withBudget budget).evaluate ctx request w
        = (endingCall ending, w') := hloop
    have hcounter : (evaluator.withBudget budget).counter ctx request w = n := hcount
    have hspent : ((evaluator.withBudget budget).start ctx request).cost = 0 := rfl
    have hsettled := hmetered.settled (not_fails hctx)
    rw [hspent, Nat.cast_zero, Int.zero_add, Nat.zero_add] at hsettled
    rw [hevaluate, hcounter]
    rcases hsettled with ⟨hle, rfl, rfl⟩ | ⟨hlt, rfl, hn⟩
    · exact Or.inl ⟨hle, rfl, rfl⟩
    · exact Or.inr ⟨hlt, rfl, hn⟩
  obtain ⟨decision, err, hvalue⟩ : ∃ decision err, meaning.value = .returned decision err := by
    cases hcall : meaning.value with
    | panicked => exact absurd hcall (rulesMeaning_ne_panicked _ _ _ _ _ hwell)
    | returned decision err => exact ⟨decision, err, rfl⟩
  have henough : ∀ budget : Int, 0 < budget → meaning.price ≤ budget → ∀ w,
      ((evaluator.withBudget budget).evaluate ctx request w).1 = .returned decision err ∧
        (evaluator.withBudget budget).counter ctx request w = meaning.price := by
    intro budget hbudget hle w
    rcases hruns budget hbudget w with ⟨-, hresult, hcounter⟩ | ⟨hlt, -, -⟩
    · exact ⟨hresult.trans hvalue, hcounter⟩
    · omega
  refine ⟨meaning.price, decision, err, rulesMeaning_price _ _ _ _ _, henough, ?_, ?_⟩
  · intro budget hbudget hlt w
    rcases hruns budget hbudget w with ⟨hle, -, -⟩ | ⟨-, hresult, hcounter⟩
    · omega
    · exact ⟨_, rfl, hresult, hcounter⟩
  · intro budget budget' hbudget hle w reached err' hreached herr' w'
    rcases hruns budget hbudget w with ⟨hprice, hresult, -⟩ | ⟨-, hresult, -⟩
    · rw [(henough budget' (by omega) (by omega) w').1, ← hvalue, ← hresult, hreached]
    · rw [hresult] at hreached
      cases hreached
      exact absurd rfl herr'

/-- **The exact cost of an evaluation**, of a condition and of the rules of an
evaluator. -/
theorem cost_law {ctx : Context W} (hctx : ctx.Quiet) :
    (∀ (condition : Condition) (request : Request) (limits : Limits),
      validateConditionLimits condition (normalizedLimits limits) = none →
      ∃ k result err, ConditionCost ctx condition request limits k result err) ∧
    ∀ (rules : List Rule) (namedConditions : List NamedCondition) (options : List Limits)
      (evaluator : Evaluator), new rules namedConditions options = .ok evaluator →
      (∀ budget : Int, 0 < budget →
        new rules namedConditions (options ++ [budgetOption budget])
          = .ok (evaluator.withBudget budget)) ∧
      ∀ request : Request, ∃ k decision err, RulesCost ctx evaluator request k decision err := by
  refine ⟨fun condition request limits => condition_cost hctx request, ?_⟩
  intro rules namedConditions options evaluator hnew
  refine ⟨fun budget => new_withBudget hnew, fun request => ?_⟩
  obtain ⟨haccepted, rfl⟩ := new_eq_ok_iff.mp hnew
  refine rules_cost hctx ?_ request
  intro rule hmem
  obtain ⟨source, hsource, rfl⟩ := List.mem_map.mp ((mem_sortBy _).mp hmem)
  exact wellFormed_of_valid (haccepted.rules_ok source hsource).valid

end Law

/-- A rule that allows what has no level. -/
def unlevelled : Rule where
  id := str "p"
  action := str "read"
  resourceType := str "doc"
  effect := .allow
  condition := .notCondition (.existsCondition (requested "level"))

/-- Two visits, for the condition alone and for the rule. -/
theorem cost_law_unlevelled :
    (∃ result err, ConditionCost (.background (W := Unit)) unlevelled.condition (asking ∅) {} 2
      result err) ∧
    ∃ evaluator decision err, new [unlevelled] [] [] = .ok evaluator ∧
      RulesCost (.background (W := Unit)) evaluator (asking ∅) 2 decision err := by
  obtain ⟨hcondition, hrules⟩ := cost_law (Context.quiet_background (W := Unit))
  refine ⟨?_, ?_⟩
  · obtain ⟨k, result, err, h⟩ := hcondition unlevelled.condition (asking ∅) {} (by decide +kernel)
    have hnodes : k ≤ 2 := h.le_nodes
    have henough := h.enough 2 (by decide) (by omega) ()
    have hcomputed : (evaluateCondition (.background (W := Unit)) unlevelled.condition (asking ∅)
        (Limits.withBudget {} 2) ()).1 = .returned ⟨true, .statusMatch, 2⟩ none := by
      decide +kernel
    have hcost : k = 2 := by
      rw [hcomputed, Answer.returned.injEq] at henough
      exact (congrArg Result.cost henough.1).symm
    exact ⟨result, err, hcost ▸ h⟩
  · have hnew : new [unlevelled] [] [] = .ok (boundEvaluator [unlevelled] [] []) := rfl
    obtain ⟨k, decision, err, h⟩ := (hrules _ _ _ _ hnew).2 (asking ∅)
    have hnodes : k ≤ 2 := h.le_nodes
    have hcounter := (h.enough 2 (by decide) (by omega) ()).2
    have hcomputed : ((boundEvaluator [unlevelled] [] []).withBudget 2).counter
        (.background (W := Unit)) (asking ∅) () = 2 := by decide +kernel
    have hcost : k = 2 := hcounter.symm.trans hcomputed
    exact ⟨_, decision, err, hnew, hcost ▸ h⟩

end Authorization.Abac
