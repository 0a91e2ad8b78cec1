import Authorization.Core.Engine

/-!
# Stopping early

`isDecisive` and `Combine` spell out the same four algorithms, one to leave the
policy loop and one to resolve what it collected.  With evaluators that only answer,
a loop that stops at the first decisive outcome decides as if every active policy
had been asked (`decide_agrees`), and `Combine` follows the reference of its test
table for lists of any length.
-/

namespace Authorization.Core

open Authorization.Foundation

/-! ### The reference -/

/-- `winner` if it occurs, else `other` if it does. -/
def overriding (winner other : Outcome) (outcomes : List Outcome) : Outcome :=
  if winner ∈ outcomes then winner else if other ∈ outcomes then other else .notApplicable

def firstApplicableOutcome (outcomes : List Outcome) : Outcome :=
  (outcomes.find? (· ≠ .notApplicable)).getD .notApplicable

open CombiningAlgorithm in
/-- The outcome of all the given ones together. -/
def referenceOutcome (algorithm : CombiningAlgorithm) (outcomes : List Outcome) : Outcome :=
  if algorithm = denyOverrides then overriding .deny .allow outcomes
  else if algorithm = allowOverrides then overriding .allow .deny outcomes
  else firstApplicableOutcome outcomes

/-- The time lies in `[activeFrom, activeUntil)`, a zero end unbounded. -/
def PolicyEntry.InWindow {W : Type} (policy : PolicyEntry W) (t : Time) : Prop :=
  (policy.activeFrom.isZero = true ∨ policy.activeFrom.nanos ≤ t.nanos) ∧
    (policy.activeUntil.isZero = true ∨ t.nanos < policy.activeUntil.nanos)

instance {W : Type} (policy : PolicyEntry W) (t : Time) : Decidable (policy.InWindow t) := by
  unfold PolicyEntry.InWindow
  infer_instance

theorem PolicyEntry.activeAt_eq {W : Type} (policy : PolicyEntry W) (t : Time) :
    policy.activeAt t = decide (policy.InWindow t) := by
  rw [Bool.eq_iff_iff, decide_eq_true_eq]
  simp only [activeAt, InWindow, Time.before, Bool.and_eq_true, Bool.or_eq_true,
    Bool.not_eq_true', decide_eq_false_iff_not, decide_eq_true_eq, not_lt]

/-! ### Combining -/

theorem CombiningAlgorithm.cases_of_le {algorithm : CombiningAlgorithm}
    (h : algorithm ≤ .priorityOrder) : algorithm = .denyOverrides ∨ algorithm = .allowOverrides ∨
      algorithm = .firstApplicable ∨ algorithm = .priorityOrder := by
  rw [UInt8.le_iff_toNat_le] at h
  have h' : algorithm.toNat ≤ 3 := h
  have hcases : algorithm.toNat = 0 ∨ algorithm.toNat = 1 ∨ algorithm.toNat = 2 ∨
      algorithm.toNat = 3 := by omega
  rcases hcases with e | e | e | e
  · exact Or.inl (UInt8.toNat_inj.mp e)
  · exact Or.inr (Or.inl (UInt8.toNat_inj.mp e))
  · exact Or.inr (Or.inr (Or.inl (UInt8.toNat_inj.mp e)))
  · exact Or.inr (Or.inr (Or.inr (UInt8.toNat_inj.mp e)))

theorem isDecisive_iff (algorithm : CombiningAlgorithm) (outcome : Outcome) :
    isDecisive algorithm outcome = true ↔
      (algorithm = .denyOverrides ∧ outcome = .deny) ∨
      (algorithm = .allowOverrides ∧ outcome = .allow) ∨
      (algorithm = .firstApplicable ∨ algorithm = .priorityOrder) ∧
        outcome ≠ .notApplicable := by
  simp [isDecisive, or_assoc]

/-- The loop of `Combine` leaves where `isDecisive` does. -/
theorem combineLoop_cons (algorithm : CombiningAlgorithm) (result decision : Decision)
    (rest : List Decision) : combineLoop algorithm result (decision :: rest) =
      if isDecisive algorithm decision.outcome = true then decision
      else combineLoop algorithm
        (if decision.outcome ≠ .notApplicable then decision else result) rest := by
  rw [combineLoop]
  have hiff := isDecisive_iff algorithm decision.outcome
  by_cases hordered : (algorithm = .firstApplicable ∨ algorithm = .priorityOrder) ∧
      decision.outcome ≠ .notApplicable
  · rw [if_pos hordered, if_pos (hiff.mpr (Or.inr (Or.inr hordered)))]
  · rw [if_neg hordered]
    by_cases hdeny : algorithm = .denyOverrides ∧ decision.outcome = .deny
    · rw [if_pos hdeny, if_pos (hiff.mpr (Or.inl hdeny))]
    · rw [if_neg hdeny]
      by_cases hallow : algorithm = .allowOverrides ∧ decision.outcome = .allow
      · rw [if_pos hallow, if_pos (hiff.mpr (Or.inr (Or.inl hallow)))]
      · have hnot : ¬ isDecisive algorithm decision.outcome = true := by
          rw [hiff]
          rintro (h | h | h)
          · exact hdeny h
          · exact hallow h
          · exact hordered h
        rw [if_neg hallow, if_neg hnot]

/-- A decisive outcome is applicable. -/
theorem ne_notApplicable_of_isDecisive {algorithm : CombiningAlgorithm} {outcome : Outcome}
    (h : isDecisive algorithm outcome = true) : outcome ≠ .notApplicable := by
  rintro rfl
  simp [isDecisive, Outcome.notApplicable, Outcome.deny, Outcome.allow] at h

theorem overriding_cons {winner other outcome : Outcome} (hne : winner ≠ other)
    (hw : winner ≠ .notApplicable) (ho : other ≠ .notApplicable)
    (hcases : outcome = .notApplicable ∨ outcome = winner ∨ outcome = other)
    (rest : List Outcome) :
    overriding winner other (outcome :: rest) = if outcome = winner then outcome
      else if overriding winner other rest = .notApplicable then outcome
      else overriding winner other rest := by
  unfold overriding
  by_cases hwin : winner ∈ rest <;> by_cases hother : other ∈ rest <;>
  rcases hcases with rfl | rfl | rfl <;>
  simp [hwin, hother, hne, hw, ho, Ne.symm hne, Ne.symm hw]

theorem firstApplicableOutcome_cons (outcome : Outcome) (rest : List Outcome) :
    firstApplicableOutcome (outcome :: rest) = if outcome ≠ .notApplicable then outcome
      else if firstApplicableOutcome rest = .notApplicable then outcome
      else firstApplicableOutcome rest := by
  by_cases happlicable : outcome = .notApplicable
  · have hskip : firstApplicableOutcome (outcome :: rest) = firstApplicableOutcome rest := by
      rw [firstApplicableOutcome, List.find?_cons_of_neg (by simpa using happlicable)]
      rfl
    rw [hskip, if_neg (not_not.mpr happlicable)]
    split
    · rename_i hnone
      rw [hnone, happlicable]
    · rfl
  · rw [if_pos happlicable, firstApplicableOutcome,
      List.find?_cons_of_pos (by simpa using happlicable), Option.getD_some]

/-- The reference, outcome by outcome. -/
theorem referenceOutcome_cons {algorithm : CombiningAlgorithm} (ha : algorithm ≤ .priorityOrder)
    {outcome : Outcome} (ho : outcome ≤ .deny) (rest : List Outcome) :
    referenceOutcome algorithm (outcome :: rest) =
      if isDecisive algorithm outcome = true then outcome
      else if referenceOutcome algorithm rest = .notApplicable then outcome
      else referenceOutcome algorithm rest := by
  have hcases := Outcome.cases_of_le_deny ho
  have hdecisive : isDecisive algorithm outcome = true ↔
      if algorithm = .denyOverrides then outcome = .deny
      else if algorithm = .allowOverrides then outcome = .allow else outcome ≠ .notApplicable := by
    rcases CombiningAlgorithm.cases_of_le ha with rfl | rfl | rfl | rfl <;>
    simp [isDecisive_iff, CombiningAlgorithm.denyOverrides, CombiningAlgorithm.allowOverrides,
      CombiningAlgorithm.firstApplicable, CombiningAlgorithm.priorityOrder]
  by_cases hdeny : algorithm = .denyOverrides
  · simp only [referenceOutcome, hdecisive, if_pos hdeny]
    exact overriding_cons (by decide) (by decide) (by decide) (hcases.imp_right Or.symm) rest
  · by_cases hallow : algorithm = .allowOverrides
    · simp only [referenceOutcome, hdecisive, if_neg hdeny, if_pos hallow]
      exact overriding_cons (by decide) (by decide) (by decide) hcases rest
    · simp only [referenceOutcome, hdecisive, if_neg hdeny, if_neg hallow]
      exact firstApplicableOutcome_cons outcome rest

/-- The loop started anywhere: its outcome is the reference's, or what it started
with when nothing was applicable. -/
theorem combineLoop_outcome {algorithm : CombiningAlgorithm} (ha : algorithm ≤ .priorityOrder) :
    ∀ (decisions : List Decision) (result : Decision), (∀ d ∈ decisions, d.outcome ≤ .deny) →
      (combineLoop algorithm result decisions).outcome =
        if referenceOutcome algorithm (decisions.map (·.outcome)) = .notApplicable then
          result.outcome
        else referenceOutcome algorithm (decisions.map (·.outcome)) := by
  intro decisions
  induction decisions with
  | nil =>
    intro result _
    have hnil : referenceOutcome algorithm [] = .notApplicable := by
      simp [referenceOutcome, overriding, firstApplicableOutcome]
    rw [combineLoop, List.map_nil, if_pos hnil]
  | cons decision rest ih =>
    intro result hvalid
    have hrest := fun r => ih r fun d hd => hvalid d (List.mem_cons_of_mem _ hd)
    rw [combineLoop_cons, List.map_cons,
      referenceOutcome_cons ha (hvalid decision List.mem_cons_self)]
    by_cases hdecisive : isDecisive algorithm decision.outcome = true
    · rw [if_pos hdecisive, if_pos hdecisive, if_neg (ne_notApplicable_of_isDecisive hdecisive)]
    · rw [if_neg hdecisive, if_neg hdecisive, hrest]
      by_cases hnone : referenceOutcome algorithm (rest.map (·.outcome)) = .notApplicable
      · rw [if_pos hnone, if_pos hnone]
        by_cases happlicable : decision.outcome = .notApplicable
        · rw [if_neg (not_not.mpr happlicable), if_pos happlicable]
        · rw [if_pos happlicable, if_neg happlicable]
      · rw [if_neg hnone, if_neg hnone, if_neg hnone]

theorem combine_eq_ok {algorithm : CombiningAlgorithm} (ha : algorithm ≤ .priorityOrder)
    {decisions : List Decision} (hvalid : ∀ d ∈ decisions, d.outcome ≤ .deny) :
    combine algorithm decisions = .ok (combineLoop algorithm {} decisions) := by
  have hany : ¬ decisions.any (fun d => d.outcome > .deny) = true := by
    rw [List.any_eq_true]
    rintro ⟨d, hd, hlt⟩
    exact absurd (decide_eq_true_eq.mp hlt) (not_lt.mpr (hvalid d hd))
  rw [combine, if_neg (not_lt.mpr ha), if_neg hany]

/-- **`Combine` follows its reference** on lists of any length. -/
theorem combine_outcome {algorithm : CombiningAlgorithm} (ha : algorithm ≤ .priorityOrder)
    {decisions : List Decision} (hvalid : ∀ d ∈ decisions, d.outcome ≤ .deny) :
    ∃ decision, combine algorithm decisions = .ok decision ∧
      decision.outcome = referenceOutcome algorithm (decisions.map (·.outcome)) := by
  refine ⟨_, combine_eq_ok ha hvalid, ?_⟩
  rw [combineLoop_outcome ha decisions {} hvalid]
  split
  · rename_i hnone
    exact hnone.symm
  · rfl

/-! ### The loop -/

/-- What is left of the decisions when the loop stops at the first decisive one. -/
def untilDecisive (algorithm : CombiningAlgorithm) : List Decision → List Decision
  | [] => []
  | decision :: rest =>
    if isDecisive algorithm decision.outcome then [decision]
    else decision :: untilDecisive algorithm rest

theorem combineLoop_untilDecisive (algorithm : CombiningAlgorithm) :
    ∀ (decisions : List Decision) (result : Decision),
      combineLoop algorithm result (untilDecisive algorithm decisions)
        = combineLoop algorithm result decisions := by
  intro decisions
  induction decisions with
  | nil => intro result; rfl
  | cons decision rest ih =>
    intro result
    rw [untilDecisive, combineLoop_cons]
    by_cases hdecisive : isDecisive algorithm decision.outcome = true
    · rw [if_pos hdecisive, if_pos hdecisive, combineLoop_cons, if_pos hdecisive]
    · rw [if_neg hdecisive, if_neg hdecisive, combineLoop_cons, if_neg hdecisive, ih]

theorem mem_of_mem_untilDecisive {algorithm : CombiningAlgorithm} :
    ∀ {decisions : List Decision}, untilDecisive algorithm decisions ⊆ decisions := by
  intro decisions
  induction decisions with
  | nil => exact List.Subset.refl _
  | cons decision rest ih =>
    rw [untilDecisive]
    split
    · exact List.cons_subset_cons _ (List.nil_subset _)
    · exact List.cons_subset_cons _ ih

variable {W : Type}

/-- The decision a policy contributes when its evaluator gives `answer`. -/
def contribution (time : Time) (answer : PolicyEntry W → Decision) (policy : PolicyEntry W) :
    Decision :=
  if policy.activeAt time then answer policy else inactiveDecision

/-- Policies outside their window do not count. -/
theorem combineLoop_contribution (algorithm : CombiningAlgorithm) (time : Time)
    (answer : PolicyEntry W → Decision) :
    ∀ (policies : List (PolicyEntry W)) (result : Decision),
      combineLoop algorithm result (policies.map (contribution time answer))
        = combineLoop algorithm result
          ((policies.filter fun policy => policy.InWindow time).map answer) := by
  intro policies
  induction policies with
  | nil => intro result; rfl
  | cons policy rest ih =>
    intro result
    by_cases hactive : policy.InWindow time
    · have hcontribution : contribution time answer policy = answer policy := by
        rw [contribution, PolicyEntry.activeAt_eq, if_pos (decide_eq_true hactive)]
      rw [List.filter_cons, if_pos (decide_eq_true hactive), List.map_cons, List.map_cons,
        hcontribution, combineLoop_cons, combineLoop_cons, ih]
    · have hcontribution : contribution time answer policy = inactiveDecision := by
        rw [contribution, PolicyEntry.activeAt_eq, if_neg (by simpa using hactive)]
      have hskip : ¬ isDecisive algorithm inactiveDecision.outcome = true :=
        fun h => ne_notApplicable_of_isDecisive h rfl
      rw [List.filter_cons, if_neg (by simpa using hactive), List.map_cons, hcontribution,
        combineLoop_cons, if_neg hskip]
      exact ih result

/-- The evaluators of the policies give the answers, whatever the world, without an
error and with valid outcomes. -/
def Answers (ctx : Context W) (request : Request) (policies : List (PolicyEntry W))
    (answer : PolicyEntry W → Decision) : Prop :=
  ∀ policy ∈ policies, (answer policy).outcome ≤ .deny ∧
    ∀ w, (policy.evaluator ctx request w).1 = .returned (answer policy) none

section Loop

variable {ctx : Context W} {request : Request} {answer : PolicyEntry W → Decision}

theorem contribution_le {policies : List (PolicyEntry W)}
    (h : Answers ctx request policies answer) (time : Time) :
    ∀ d ∈ policies.map (contribution time answer), d.outcome ≤ .deny := by
  intro d hd
  obtain ⟨policy, hp, rfl⟩ := List.mem_map.mp hd
  unfold contribution
  split
  · exact (h policy hp).1
  · exact UInt8.zero_le

theorem visitPolicy_contribution (hctx : ctx.Quiet) (snapshot : Snapshot W)
    (time : Time) (w : W) {policy : PolicyEntry W} (hle : (answer policy).outcome ≤ .deny)
    (hanswer : ∀ w, (policy.evaluator ctx request w).1 = .returned (answer policy) none) :
    (visitPolicy ctx request snapshot time policy w).1 = .ok (contribution time answer policy) := by
  unfold visitPolicy contribution
  obtain ⟨w₁, hw⟩ := hctx.err_eq w
  rw [hw]
  dsimp only
  by_cases hactive : policy.activeAt time = true
  · rw [if_pos hactive, if_pos hactive]
    rw [hanswer w₁]
    dsimp only [evaluatePolicy]
    rw [if_neg (not_lt.mpr hle)]
  · rw [if_neg hactive, if_neg hactive]

/-- **The loop records the contributions up to the first decisive one.** -/
theorem decideLoop_contribution (hctx : ctx.Quiet) (limits : Limits)
    (snapshot : Snapshot W) (time : Time) : ∀ (policies : List (PolicyEntry W))
    (state : LoopState) (w : W), Answers ctx request policies answer →
    ∃ state', (decideLoop limits ctx request snapshot time policies state w).outcome = .ok state' ∧
      state'.decisions = state.decisions ++
        untilDecisive snapshot.algorithm (policies.map (contribution time answer)) := by
  intro policies
  induction policies with
  | nil =>
    intro state w _
    exact ⟨state, rfl, (List.append_nil _).symm⟩
  | cons policy rest ih =>
    intro state w h
    obtain ⟨hle, hanswer⟩ := h policy List.mem_cons_self
    have hvisit := visitPolicy_contribution hctx snapshot time w hle hanswer
    rw [decideLoop, List.map_cons, untilDecisive]
    rcases hv : visitPolicy ctx request snapshot time policy w with ⟨outcome, calls, w'⟩
    rw [hv] at hvisit
    dsimp only at hvisit
    subst hvisit
    dsimp only
    by_cases hdecisive :
        isDecisive snapshot.algorithm (contribution time answer policy).outcome = true
    · rw [if_pos hdecisive, if_pos hdecisive]
      exact ⟨_, rfl, LoopState.record_decisions _ _ _ _⟩
    · rw [if_neg hdecisive, if_neg hdecisive]
      obtain ⟨state', hloop, hdecisions⟩ := ih
        (state.record limits policy.id (contribution time answer policy)) w'
        fun p hp => h p (List.mem_cons_of_mem _ hp)
      refine ⟨state', hloop, ?_⟩
      rw [hdecisions, LoopState.record_decisions, List.append_assoc]
      rfl

end Loop

/-- What `decide` makes of a combined decision: not applicable is denied. -/
def Decision.defaulted (decision : Decision) : Outcome × ReasonCode :=
  if decision.outcome = .notApplicable then (.deny, reasonDefaultDeny)
  else (decision.outcome, decision.reason)

theorem finishDecision_eq {snapshot : Snapshot W} {state : LoopState} {decision : Decision}
    (h : combine snapshot.algorithm state.decisions = .ok decision) :
    (finishDecision snapshot state).2 = none ∧
    ((finishDecision snapshot state).1.outcome, (finishDecision snapshot state).1.reason)
      = decision.defaulted := by
  unfold finishDecision Decision.defaulted
  rw [h]
  dsimp only
  split
  · exact ⟨rfl, rfl⟩
  · exact ⟨rfl, rfl⟩

/-- A loop that stops early decides as the active policies together. -/
theorem decide_combined (engine : Engine W) {ctx : Context W} {request : Request}
    {answer : PolicyEntry W → Decision} (hvalid : request.validate = none)
    (hctx : ctx.Quiet)
    (hanswers : Answers ctx request engine.snapshot.policies answer) (w : W) :
    (engine.decide ctx request w).err = none ∧
      ∃ decision, combine engine.snapshot.algorithm ((engine.snapshot.policies.filter fun policy =>
          policy.InWindow (engine.decisionTime ctx request w)).map answer) = .ok decision ∧
        ((engine.decide ctx request w).decision.outcome,
          (engine.decide ctx request w).decision.reason) = decision.defaulted := by
  have ha := engine.snapshot.algorithm_le
  have htime : engine.decisionTime ctx request w = (evaluationTime engine request (ctx.err w).2).1 := rfl
  obtain ⟨w₁, hw⟩ := hctx.err_eq w
  rw [hw] at htime
  rcases ht : evaluationTime engine request w₁ with ⟨time, w₂⟩
  rw [ht] at htime
  obtain ⟨state, hloop, hdecisions⟩ := decideLoop_contribution hctx engine.limits engine.snapshot
    time engine.snapshot.policies {} w₂ hanswers
  have hall := contribution_le hanswers time
  -- combining what the loop kept is combining what the active policies answer
  have hcombine : combine engine.snapshot.algorithm state.decisions
      = .ok (combineLoop engine.snapshot.algorithm {} ((engine.snapshot.policies.filter
          fun policy => policy.InWindow time).map answer)) := by
    rw [hdecisions, List.nil_append, combine_eq_ok ha fun d hd =>
      hall d (mem_of_mem_untilDecisive hd), combineLoop_untilDecisive, combineLoop_contribution]
  have hactive : ∀ d ∈ (engine.snapshot.policies.filter fun policy => policy.InWindow time).map
      answer, d.outcome ≤ .deny := by
    intro d hd
    obtain ⟨policy, hp, rfl⟩ := List.mem_map.mp hd
    exact (hanswers policy (List.mem_filter.mp hp).1).1
  have hdecide : engine.decide ctx request w = ⟨(finishDecision engine.snapshot state).1,
      (finishDecision engine.snapshot state).2,
      (decideLoop engine.limits ctx request engine.snapshot time engine.snapshot.policies {} w₂).calls,
      (decideLoop engine.limits ctx request engine.snapshot time engine.snapshot.policies {}
        w₂).world⟩ := by
    rw [Engine.decide, Engine.decideWith, hvalid]
    dsimp only
    rw [hw]
    dsimp only
    rw [ht]
    dsimp only
    rw [hloop]
  obtain ⟨herr, hfinish⟩ := finishDecision_eq hcombine
  rw [hdecide, htime]
  exact ⟨herr, _, combine_eq_ok ha hactive, hfinish⟩

/-- **Stopping early changes nothing**, and `Combine` follows its reference. -/
theorem decide_agrees (engine : Engine W) {ctx : Context W} {request : Request}
    {answer : PolicyEntry W → Decision} (hvalid : request.validate = none)
    (hctx : ctx.Quiet)
    (hanswers : Answers ctx request engine.snapshot.policies answer) (w : W) :
    ((engine.decide ctx request w).err = none ∧
      ∃ decision, combine engine.snapshot.algorithm ((engine.snapshot.policies.filter fun policy =>
          policy.InWindow (engine.decisionTime ctx request w)).map answer) = .ok decision ∧
        ((engine.decide ctx request w).decision.outcome,
          (engine.decide ctx request w).decision.reason) = decision.defaulted) ∧
    ∀ (algorithm : CombiningAlgorithm) (decisions : List Decision),
      algorithm ≤ .priorityOrder → (∀ d ∈ decisions, d.outcome ≤ .deny) →
      ∃ decision, combine algorithm decisions = .ok decision ∧
        decision.outcome = referenceOutcome algorithm (decisions.map (·.outcome)) :=
  ⟨decide_combined engine hvalid hctx hanswers w, fun _ _ ha hd => combine_outcome ha hd⟩

/-- A policy that answers with its own name as reason. -/
def answeringPolicy (id : PolicyID) (outcome : Outcome) (activeUntil : Time) : PolicyEntry Unit where
  id := id
  revision := 1
  priority := 0
  activeFrom := .zero
  activeUntil := activeUntil
  metadata := ∅
  evaluator := fun _ _ w => (.returned { outcome := outcome, reason := id } none, w)

/-- An expired denial, an allowance, and a denial before which the loop never gets. -/
def stoppingEngine : Engine Unit where
  snapshot := ⟨1, .firstApplicable, [answeringPolicy (str "old") .deny ⟨5, 0⟩,
    answeringPolicy (str "yes") .allow .zero, answeringPolicy (str "no") .deny .zero],
    revision_one_ne, firstApplicable_le, by decide⟩
  limits := {}
  clock := fun w => (⟨7, 0⟩, w)

def stoppingAnswer (policy : PolicyEntry Unit) : Decision :=
  { outcome := if policy.id = str "yes" then .allow else .deny, reason := policy.id }

theorem decide_agrees_stopping : ∃ request : Request, request.validate = none ∧
    (stoppingEngine.decide .background request ()).decision.reason = str "yes" ∧
    ∃ decision, combine .firstApplicable ((stoppingEngine.snapshot.policies.filter fun policy =>
        policy.InWindow (stoppingEngine.decisionTime .background request ())).map stoppingAnswer)
        = .ok decision ∧
      ((stoppingEngine.decide .background request ()).decision.outcome,
        (stoppingEngine.decide .background request ()).decision.reason) = decision.defaulted := by
  refine ⟨⟨⟨str "user", str "u", [], ∅⟩, str "read", ⟨str "doc", [], ∅⟩, [], {}, ∅⟩, rfl, by decide,
    (decide_agrees stoppingEngine rfl Context.quiet_background ?_ ()).1.2⟩
  intro policy hp
  simp only [stoppingEngine, List.mem_cons, List.not_mem_nil, or_false] at hp
  rcases hp with rfl | rfl | rfl
  · exact ⟨by decide, fun _ => rfl⟩
  · exact ⟨by decide, fun _ => rfl⟩
  · exact ⟨by decide, fun _ => rfl⟩

end Authorization.Core
