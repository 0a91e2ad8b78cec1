import Authorization.Abac.Cost

/-!
# Validated conditions evaluate safely

An evaluator relies on what the validator has checked: it follows children that may
be nil, takes the first of the candidates of `In`, and ignores whether `Compare`
orders what it is given.  `Visits` says which nodes an evaluation reaches, and in
which state.  A panic comes from a nil node or an empty `In` that is reached
(`exists_visits_of_panicked`), and neither is in a well-formed tree.

`Matched` and `Status` are written separately, by eleven evaluators and three
connectives.  They agree in every answer, whatever the condition
(`evaluate_consistent`).
-/

namespace Authorization.Abac

open Authorization.Foundation Authorization.Core

section Visits

variable {W : Type}

/-- Evaluating the condition from the first state evaluates the node from the second. -/
inductive Visits : EvaluationState W → W → Condition → Condition → EvaluationState W → W → Prop
  | self (state : EvaluationState W) (w : W) (condition : Condition) :
      Visits state w condition condition state w
  /-- The children in front have matched. -/
  | all {state state₁ state₂ state' : EvaluationState W} {w w₁ w₂ w' : W}
      {before after : List Condition} {child node : Condition} :
      state.consume w = (none, state₁, w₁) →
      evaluateAll state₁ w₁ before = (.ofMatched true, state₂, w₂) →
      Visits state₂ w₂ child node state' w' →
      Visits state w (.allCondition (before ++ child :: after)) node state' w'
  /-- The children in front have not matched. -/
  | any {state state₁ state₂ state' : EvaluationState W} {w w₁ w₂ w' : W} {result : Result}
      {before after : List Condition} {child node : Condition} :
      state.consume w = (none, state₁, w₁) →
      evaluateAny state₁ w₁ .statusNoMatch before = (.returned result none, state₂, w₂) →
      result.matched = false →
      Visits state₂ w₂ child node state' w' →
      Visits state w (.anyCondition (before ++ child :: after)) node state' w'
  | not {state state₁ state' : EvaluationState W} {w w₁ w' : W} {child node : Condition} :
      state.consume w = (none, state₁, w₁) →
      Visits state₁ w₁ child node state' w' →
      Visits state w (.notCondition child) node state' w'

theorem Visits.wellFormed {state state' : EvaluationState W} {w w' : W}
    {condition node : Condition} (h : Visits state w condition node state' w')
    (hcondition : condition.wellFormed = true) : node.wellFormed = true := by
  induction h with
  | self => exact hcondition
  | all _ _ _ ih =>
    exact ih (Condition.everywhere_all hcondition _ (List.mem_append_right _ List.mem_cons_self))
  | any _ _ _ _ ih =>
    exact ih (Condition.everywhere_any hcondition _ (List.mem_append_right _ List.mem_cons_self))
  | not _ _ ih => exact ih (Condition.everywhere_not hcondition)

/-! ### Where a panic comes from -/

/-- The loop of `All` panics at a child that does, after children that match. -/
theorem evaluateAll_eq_panicked : ∀ {conditions : List Condition} {state : EvaluationState W}
    {w : W}, (evaluateAll state w conditions).1 = .panicked →
    ∃ before child after state' w', conditions = before ++ child :: after ∧
      evaluateAll state w before = (.ofMatched true, state', w') ∧
      (child.evaluate state' w').1 = .panicked := by
  intro conditions
  induction conditions with
  | nil =>
    intro state w h
    rw [evaluateAll] at h
    cases h
  | cons child rest ih =>
    intro state w h
    rw [evaluateAll_cons] at h
    rcases hchild : child.evaluate state w with ⟨answer, state₁, w₁⟩
    rw [hchild] at h
    cases answer with
    | panicked =>
      refine ⟨[], child, rest, state, w, rfl, ?_, by rw [hchild]⟩
      rw [evaluateAll]
    | returned result err =>
      rw [continueAll] at h
      split at h
      · cases h
      · rename_i hgoes
        obtain ⟨before, other, after, state', w', rfl, hbefore, hother⟩ := ih h
        refine ⟨child :: before, other, after, state', w', rfl, ?_, hother⟩
        rw [evaluateAll_cons, hchild]
        show continueAll before (.returned result err) state₁ w₁ = _
        rw [continueAll, if_neg hgoes]
        exact hbefore

/-- The loop of `Any` panics at a child that does, after children that do not match. -/
theorem evaluateAny_eq_panicked : ∀ {conditions : List Condition} {state : EvaluationState W}
    {w : W} {status : Status}, (evaluateAny state w status conditions).1 = .panicked →
    ∃ before child after state' w' result, conditions = before ++ child :: after ∧
      evaluateAny state w status before = (.returned result none, state', w') ∧
      result.matched = false ∧ (child.evaluate state' w').1 = .panicked := by
  intro conditions
  induction conditions with
  | nil =>
    intro state w status h
    rw [evaluateAny] at h
    cases h
  | cons child rest ih =>
    intro state w status h
    rw [evaluateAny_cons] at h
    rcases hchild : child.evaluate state w with ⟨answer, state₁, w₁⟩
    rw [hchild] at h
    cases answer with
    | panicked =>
      refine ⟨[], child, rest, state, w, { status := status }, rfl, ?_, rfl, by rw [hchild]⟩
      rw [evaluateAny]
      rfl
    | returned result err =>
      rw [continueAny] at h
      split at h
      · cases h
      · rename_i hgoes
        obtain ⟨before, other, after, state', w', last, rfl, hbefore, hlast, hother⟩ := ih h
        refine ⟨child :: before, other, after, state', w', last, rfl, ?_, hlast, hother⟩
        rw [evaluateAny_cons, hchild]
        show continueAny status before (.returned result err) state₁ w₁ = _
        rw [continueAny, if_neg hgoes]
        exact hbefore

theorem negate_eq_panicked {answer : Answer} (h : answer.negate = .panicked) :
    answer = .panicked := by
  cases answer with
  | panicked => rfl
  | returned result err =>
    cases err with
    | some err => cases h
    | none =>
      rw [Answer.negate] at h
      split at h <;> cases h

/-- A node that panics by itself: nil, or `In` without candidates. -/
def Condition.Broken (node : Condition) : Prop :=
  node = .nil ∨ ∃ reference, node = .inCondition reference []

theorem broken_of_ask {condition : Condition} (hleaf : condition.isLeaf = true)
    {state : EvaluationState W} (h : state.ask condition = .panicked) : condition.Broken := by
  by_contra hbroken
  have hcandidates : ∀ reference, condition ≠ .inCondition reference [] :=
    fun reference heq => hbroken (Or.inr ⟨reference, heq⟩)
  have hask : (reading state.request state.maxSetSize).ask condition = .panicked := h
  exact ask_ne_panicked hleaf hcandidates (congrArg Answer.verdict hask)

/-- **A panic comes from a broken node that is reached.** -/
theorem exists_visits_of_panicked (condition : Condition) :
    ∀ (state : EvaluationState W) (w : W), (condition.evaluate state w).1 = .panicked →
      ∃ node state' w', Visits state w condition node state' w' ∧ node.Broken := by
  induction condition using Condition.rule with
  | nil =>
    intro state w _
    exact ⟨.nil, state, w, .self state w .nil, Or.inl rfl⟩
  | leaf condition hleaf =>
    intro state w h
    rw [evaluate_leaf hleaf] at h
    rcases hconsume : state.consume w with ⟨_ | err, state₁, w₁⟩
    · rw [hconsume] at h
      exact ⟨condition, state, w, .self state w condition, broken_of_ask hleaf h⟩
    · rw [hconsume] at h
      cases h
  | all conditions ih =>
    intro state w h
    rw [Condition.evaluate] at h
    rcases hconsume : state.consume w with ⟨_ | err, state₁, w₁⟩
    · rw [hconsume] at h
      obtain ⟨before, child, after, state₂, w₂, rfl, hbefore, hchild⟩ := evaluateAll_eq_panicked h
      obtain ⟨node, state', w', hvisits, hbroken⟩ :=
        ih child (List.mem_append_right _ List.mem_cons_self) state₂ w₂ hchild
      exact ⟨node, state', w', .all hconsume hbefore hvisits, hbroken⟩
    · rw [hconsume] at h
      cases h
  | any conditions ih =>
    intro state w h
    rw [Condition.evaluate] at h
    rcases hconsume : state.consume w with ⟨_ | err, state₁, w₁⟩
    · rw [hconsume] at h
      obtain ⟨before, child, after, state₂, w₂, result, rfl, hbefore, hresult, hchild⟩ :=
        evaluateAny_eq_panicked h
      obtain ⟨node, state', w', hvisits, hbroken⟩ :=
        ih child (List.mem_append_right _ List.mem_cons_self) state₂ w₂ hchild
      exact ⟨node, state', w', .any hconsume hbefore hresult hvisits, hbroken⟩
    · rw [hconsume] at h
      cases h
  | not condition ih =>
    intro state w h
    rw [Condition.evaluate] at h
    rcases hconsume : state.consume w with ⟨_ | err, state₁, w₁⟩
    · rw [hconsume] at h
      obtain ⟨node, state', w', hvisits, hbroken⟩ := ih state₁ w₁ (negate_eq_panicked h)
      exact ⟨node, state', w', .not hconsume hvisits, hbroken⟩
    · rw [hconsume] at h
      cases h

theorem not_broken {node : Condition} (h : node.wellFormed = true) : ¬ node.Broken := by
  have hvalid := ((wellFormed_iff node).mp h).1
  rintro (rfl | ⟨reference, rfl⟩)
  · cases hvalid
  · exact candidates_of_validate hvalid reference rfl

/-- **A well-formed condition does not panic**, from any state. -/
theorem evaluate_ne_panicked {condition : Condition} (h : condition.wellFormed = true)
    (state : EvaluationState W) (w : W) : (condition.evaluate state w).1 ≠ .panicked := by
  intro hpanic
  obtain ⟨node, state', w', hvisits, hbroken⟩ := exists_visits_of_panicked condition state w hpanic
  exact not_broken (hvisits.wellFormed h) hbroken

/-! ### `Matched` and `Status` -/

/-- Without an error `Matched` and `Status` agree, and with one nothing has matched. -/
def Answer.Consistent : Answer → Prop
  | .returned result none => result.matched = true ↔ result.status = .statusMatch
  | .returned result (some _) => result.matched = false
  | .panicked => True

theorem Verdict.consistent_answer (verdict : Verdict) : verdict.answer.Consistent := by
  cases verdict with
  | decided status => exact decide_eq_true_iff
  | tooLarge => exact rfl
  | panicked => exact trivial

theorem Answer.Consistent.negate {answer : Answer} (h : answer.Consistent) :
    answer.negate.Consistent := by
  cases answer with
  | panicked => exact h
  | returned result err =>
    cases err with
    | some err => exact h
    | none =>
      rw [Answer.negate]
      split
      · exact h
      · cases hmatched : result.matched <;> simp [Answer.Consistent]

theorem evaluateAll_consistent : ∀ {conditions : List Condition},
    (∀ condition ∈ conditions, ∀ (state : EvaluationState W) (w : W),
      (condition.evaluate state w).1.Consistent) →
    ∀ (state : EvaluationState W) (w : W), (evaluateAll state w conditions).1.Consistent := by
  intro conditions
  induction conditions with
  | nil =>
    intro _ state w
    rw [evaluateAll]
    exact iff_of_true rfl rfl
  | cons child rest ih =>
    intro h state w
    obtain ⟨hchild, hrest⟩ := List.forall_mem_cons.mp h
    have hanswer := hchild state w
    rw [evaluateAll_cons]
    revert hanswer
    rcases child.evaluate state w with ⟨result | _, state₁, w₁⟩ <;> intro hanswer
    · rw [continueAll]
      split
      · exact hanswer
      · exact ih hrest state₁ w₁
    · exact hanswer

theorem evaluateAny_consistent : ∀ {conditions : List Condition},
    (∀ condition ∈ conditions, ∀ (state : EvaluationState W) (w : W),
      (condition.evaluate state w).1.Consistent) →
    ∀ (state : EvaluationState W) (w : W) (status : Status), status ≠ .statusMatch →
      (evaluateAny state w status conditions).1.Consistent := by
  intro conditions
  induction conditions with
  | nil =>
    intro _ state w status hstatus
    rw [evaluateAny]
    exact iff_of_false Bool.false_ne_true hstatus
  | cons child rest ih =>
    intro h state w status hstatus
    obtain ⟨hchild, hrest⟩ := List.forall_mem_cons.mp h
    have hanswer := hchild state w
    rw [evaluateAny_cons]
    revert hanswer
    rcases child.evaluate state w with ⟨⟨result, err⟩ | _, state₁, w₁⟩ <;> intro hanswer
    · rw [continueAny]
      split
      · exact hanswer
      · rename_i hgoes
        -- a child that lets the loop go on has neither an error nor a match
        push Not at hgoes
        have hnone : err = none := by
          cases err with
          | none => rfl
          | some err => exact absurd rfl hgoes.1
        subst hnone
        have hother : result.status ≠ .statusMatch := fun heq => hgoes.2 (hanswer.mpr heq)
        refine ih hrest state₁ w₁ _ ?_
        split
        · exact hother
        · exact hstatus
    · exact hanswer

/-- **`Matched` says what `Status` says** in every answer. -/
theorem evaluate_consistent (condition : Condition) :
    ∀ (state : EvaluationState W) (w : W), (condition.evaluate state w).1.Consistent := by
  induction condition using Condition.rule with
  | nil =>
    intro state w
    rw [Condition.evaluate]
    exact trivial
  | leaf condition hleaf =>
    intro state w
    rw [evaluate_leaf hleaf]
    rcases state.consume w with ⟨_ | err, state₁, w₁⟩
    · show (state₁.ask condition).Consistent
      rw [← ask_stated state₁ condition]
      exact Verdict.consistent_answer _
    · exact rfl
  | all conditions ih =>
    intro state w
    rw [Condition.evaluate]
    rcases state.consume w with ⟨_ | err, state₁, w₁⟩
    · exact evaluateAll_consistent ih state₁ w₁
    · exact rfl
  | any conditions ih =>
    intro state w
    rw [Condition.evaluate]
    rcases state.consume w with ⟨_ | err, state₁, w₁⟩
    · exact evaluateAny_consistent ih state₁ w₁ _ (by decide)
    · exact rfl
  | not condition ih =>
    intro state w
    rw [Condition.evaluate]
    rcases state.consume w with ⟨_ | err, state₁, w₁⟩
    · exact (ih state₁ w₁).negate
    · exact rfl

/-! ### The rules -/

/-- The answer is returned, and it is consistent. -/
def Answer.Safe (answer : Answer) : Prop :=
  ∃ result err, answer = .returned result err ∧
    (err = none → (result.matched = true ↔ result.status = .statusMatch)) ∧
    (err ≠ none → result.matched = false)

theorem Answer.safe_of_consistent {answer : Answer} (h : answer.Consistent)
    (hpanic : answer ≠ .panicked) : answer.Safe := by
  cases answer with
  | panicked => exact absurd rfl hpanic
  | returned result err =>
    cases err with
    | none => exact ⟨result, none, rfl, fun _ => h, fun hne => absurd rfl hne⟩
    | some err => exact ⟨result, some err, rfl, fun heq => absurd heq (Option.some_ne_none err),
        fun _ => h⟩

theorem evaluate_safe {condition : Condition} (h : condition.wellFormed = true)
    (state : EvaluationState W) (w : W) : (condition.evaluate state w).1.Safe :=
  Answer.safe_of_consistent (evaluate_consistent condition state w) (evaluate_ne_panicked h state w)

theorem evaluateCondition_safe (ctx : Context W) (condition : Condition) (request : Request)
    (limits : Limits) (w : W) : (evaluateCondition ctx condition request limits w).1.Safe := by
  have hrefused : ∀ err, (Answer.returned {} (some err)).Safe := fun err =>
    Answer.safe_of_consistent rfl (fun h => Answer.noConfusion h)
  unfold evaluateCondition
  split
  · exact hrefused _
  dsimp only
  split
  · exact hrefused _
  rename_i hvalid
  obtain ⟨result, err, hanswer, hok, herr⟩ := evaluate_safe (wellFormed_of_valid hvalid)
    { ctx, request, maxCost := (normalizedLimits limits).maxCost,
      maxSetSize := (normalizedLimits limits).maxSetSize } w
  split
  · rename_i returned failure state w' heq
    rw [heq] at hanswer
    cases hanswer
    exact ⟨_, err, rfl, hok, herr⟩
  · rename_i state w' heq
    rw [heq] at hanswer
    cases hanswer

/-- **The rules return**, and with an error they name no policy. -/
theorem evaluateRules_returned (maxMatches : Int) (request : Request) : ∀ {rules : List Rule},
    (∀ rule ∈ rules, rule.condition.wellFormed = true) →
    ∀ (state : EvaluationState W) (decision : Decision) (w : W), ∃ result err,
      (evaluateRules maxMatches request state decision rules w).1 = .returned result err ∧
      (err ≠ none → result.outcome = .deny ∧ result.matchedPolicyIDs = []) := by
  intro rules
  induction rules with
  | nil =>
    intro _ state decision w
    exact ⟨decision, none, rfl, fun hne => absurd rfl hne⟩
  | cons rule rest ih =>
    intro h state decision w
    obtain ⟨hrule, hrest⟩ := List.forall_mem_cons.mp h
    rw [evaluateRules]
    split
    · exact ih hrest state decision w
    have hpanic := evaluate_ne_panicked hrule state w
    revert hpanic
    rcases rule.condition.evaluate state w with ⟨⟨result, _ | err⟩ | _, state₁, w₁⟩ <;>
      intro hpanic
    · dsimp only
      split
      · split
        · exact ⟨reasons.limitDecision, _, rfl, fun _ => ⟨rfl, rfl⟩⟩
        · exact ih hrest _ _ _
      · exact ih hrest _ _ _
    · exact ⟨failedDecision err, some err, rfl, fun _ => ⟨rfl, rfl⟩⟩
    · exact absurd rfl hpanic

/-- The bound rules of an evaluator have valid conditions. -/
theorem valid_of_new {rules : List Rule} {namedConditions : List NamedCondition}
    {options : List Limits} {evaluator : Evaluator}
    (h : new rules namedConditions options = .ok evaluator) :
    ∀ rule ∈ evaluator.rules,
      validateConditionLimits rule.condition (configured options) = none := by
  obtain ⟨haccepted, rfl⟩ := new_eq_ok_iff.mp h
  intro bound hbound
  obtain ⟨rule, hrule, rfl⟩ := List.mem_map.mp ((mem_sortBy _).mp hbound)
  exact (haccepted.rules_ok rule hrule).valid

end Visits

/-- **Validated conditions evaluate safely.**  From any state the evaluation reaches no
nil node, no `In` without candidates and no comparison that `Compare` does not order; it
returns, `Matched` and `Status` agree, and with an error nothing has matched.  So do the
rules of every evaluator that `New` builds and `EvaluateCondition`. -/
theorem evaluation_safe {W : Type} :
    (∀ (condition : Condition) (limits : Limits),
      validateConditionLimits condition limits = none →
      ∀ (state : EvaluationState W) (w : W),
        (∀ node state' w', Visits state w condition node state' w' → node.isNil = false ∧
          (∀ reference, node ≠ .inCondition reference []) ∧
          ∀ reference want operator, node = .comparisonCondition reference want operator →
            ∀ got : Value, got.kind = want.kind → (got.compare want).isSome = true) ∧
        (condition.evaluate state w).1.Safe) ∧
    (∀ (rules : List Rule) (namedConditions : List NamedCondition) (options : List Limits)
      (evaluator : Evaluator), new rules namedConditions options = .ok evaluator →
      (∀ rule ∈ evaluator.rules, ∀ (state : EvaluationState W) (w : W),
        (rule.condition.evaluate state w).1.Safe) ∧
      ∀ (ctx : Context W) (request : Request) (w : W), ∃ decision err,
        (evaluator.evaluate ctx request w).1 = .returned decision err ∧
        (err ≠ none → decision.outcome = .deny ∧ decision.matchedPolicyIDs = [])) ∧
    ∀ (ctx : Context W) (condition : Condition) (request : Request) (limits : Limits) (w : W),
      (evaluateCondition ctx condition request limits w).1.Safe := by
  refine ⟨?_, ?_, evaluateCondition_safe⟩
  · intro condition limits hvalid state w
    have hwell := wellFormed_of_valid hvalid
    refine ⟨fun node state' w' hvisits => ?_, evaluate_safe hwell state w⟩
    have hnode := ((wellFormed_iff node).mp (hvisits.wellFormed hwell)).1
    refine ⟨isNil_of_validate hnode, candidates_of_validate hnode, ?_⟩
    rintro reference want operator rfl got hkind
    exact compare_of_validate hnode hkind
  · intro rules namedConditions options evaluator h
    have hwell : ∀ rule ∈ evaluator.rules, rule.condition.wellFormed = true :=
      fun rule hrule => wellFormed_of_valid (valid_of_new h rule hrule)
    refine ⟨fun rule hrule => evaluate_safe (hwell rule hrule), fun ctx request w => ?_⟩
    exact evaluateRules_returned evaluator.limits.maxMatches request hwell
      (evaluator.start ctx request) {} w

/-- A comparison and a choice of candidates under one rule. -/
def guardedRule : Rule where
  id := str "guarded"
  action := str "read"
  resourceType := str "doc"
  effect := .allow
  condition := .allCondition
    [.comparisonCondition (requested "level") (.int 3) .compareGreater,
      .notCondition (.inCondition (requested "region") [.string (str "eu"), .string (str "us")])]

theorem evaluation_safe_guarded :
    (guardedRule.condition.evaluate { (reading (asking ∅) 1) with maxCost := 1 } ()).1.Safe ∧
    ∃ decision err, ((boundEvaluator [guardedRule] [] []).evaluate Context.background (asking ∅)
        ()).1 = .returned decision err ∧
      (err ≠ none → decision.outcome = .deny ∧ decision.matchedPolicyIDs = []) := by
  have hnew : new [guardedRule] [] [] = .ok (boundEvaluator [guardedRule] [] []) := rfl
  have hsafe := (evaluation_safe (W := Unit)).2.1 [guardedRule] [] [] _ hnew
  refine ⟨?_, hsafe.2 Context.background (asking ∅) ()⟩
  exact ((evaluation_safe (W := Unit)).1 guardedRule.condition {} (by decide +kernel) _ ()).2

end Authorization.Abac
