import Authorization.Core.Diagnostics
import Authorization.Core.Match

/-!
# Policies as laws

What a policy is for, without index, search, order or budget.  A law says which items
match a request and with what effect, how many may match, and which requests its other
limits admit; the items that match come to a ruling, and a request outside the limits
is refused.

An evaluator follows a law when it answers with the ruling and refuses what the law
does not admit.  An engine over such evaluators decides by the rulings of its active
policies together, unless it meets a refusal before a decisive ruling
(`combineAnswers`); then it denies with the name of a policy that refused
(`decide_lawful`).
-/

namespace Authorization.Core

open Authorization.Foundation

variable {W : Type}

/-- A policy without its mechanism. -/
structure Law where
  /-- The items that match a request, with their effects. -/
  matched : Request → Set (PolicyID × Outcome)
  maxMatches : Int
  /-- The limits other than the number of matches. -/
  within : Request → Prop

namespace Law

variable (law : Law) (request : Request)

/-- The request is answered, not refused. -/
def Admits : Prop :=
  law.within request ∧ ((law.matched request).ncard : Int) ≤ law.maxMatches

open Classical in
/-- A denial wins; an allowance needs an item. -/
noncomputable def ruling : Outcome :=
  if ∃ item ∈ law.matched request, item.2 = .deny then .deny
  else if (law.matched request).Nonempty then .allow else .notApplicable

open Classical in
/-- The ruling, or nothing for a refusal. -/
noncomputable def answer : Option Outcome :=
  if law.Admits request then some (law.ruling request) else none

variable {law request}

theorem answer_of_admits (h : law.Admits request) :
    law.answer request = some (law.ruling request) := if_pos h

theorem answer_of_not (h : ¬ law.Admits request) : law.answer request = none := if_neg h

theorem answer_eq_some {outcome : Outcome} :
    law.answer request = some outcome ↔ law.Admits request ∧ law.ruling request = outcome := by
  by_cases h : law.Admits request
  · rw [answer_of_admits h, Option.some.injEq]
    exact ⟨fun heq => ⟨h, heq⟩, And.right⟩
  · rw [answer_of_not h]
    exact ⟨fun hnone => absurd hnone (Option.some_ne_none _).symm, fun hboth => absurd hboth.1 h⟩

theorem ruling_eq_deny :
    law.ruling request = .deny ↔ ∃ item ∈ law.matched request, item.2 = .deny := by
  unfold ruling
  split
  · rename_i hdeny
    exact ⟨fun _ => hdeny, fun _ => rfl⟩
  · rename_i hdeny
    refine ⟨fun h => ?_, fun h => absurd h hdeny⟩
    split at h
    · exact absurd h (by decide)
    · exact absurd h (by decide)

theorem ruling_eq_allow :
    law.ruling request = .allow ↔
      (law.matched request).Nonempty ∧ ∀ item ∈ law.matched request, item.2 ≠ .deny := by
  unfold ruling
  split
  · rename_i hdeny
    obtain ⟨item, hitem, heffect⟩ := hdeny
    exact ⟨fun h => absurd h (by decide), fun h => absurd heffect (h.2 item hitem)⟩
  · rename_i hdeny
    have hnone : ∀ item ∈ law.matched request, item.2 ≠ .deny :=
      fun item hitem heffect => hdeny ⟨item, hitem, heffect⟩
    split
    · rename_i hnonempty
      exact ⟨fun _ => ⟨hnonempty, hnone⟩, fun _ => rfl⟩
    · rename_i hempty
      exact ⟨fun h => absurd h (by decide), fun h => absurd h.1 hempty⟩

theorem ruling_eq_notApplicable :
    law.ruling request = .notApplicable ↔ ¬ (law.matched request).Nonempty := by
  unfold ruling
  split
  · rename_i hdeny
    obtain ⟨item, hitem, -⟩ := hdeny
    exact ⟨fun h => absurd h (by decide), fun h => absurd ⟨item, hitem⟩ h⟩
  · split
    · rename_i hnonempty
      exact ⟨fun h => absurd h (by decide), fun h => absurd hnonempty h⟩
    · rename_i hempty
      exact ⟨fun _ => hempty, fun _ => rfl⟩

theorem ruling_le (law : Law) (request : Request) : law.ruling request ≤ .deny := by
  unfold ruling
  split
  · exact le_refl _
  · split
    · decide
    · decide

/-! ### Lists of matches -/

/-- The items that match, listed once each. -/
structure Lists (law : Law) (request : Request) (ms : List (PolicyID × Outcome)) : Prop where
  nodup : ms.Nodup
  mem_iff : ∀ m, m ∈ ms ↔ m ∈ law.matched request

theorem Lists.ncard_eq {ms : List (PolicyID × Outcome)} (h : law.Lists request ms) :
    (law.matched request).ncard = ms.length := by
  have hset : law.matched request = ↑ms.toFinset := by
    ext m
    rw [List.coe_toFinset]
    exact (h.mem_iff m).symm
  rw [hset, Set.ncard_coe_finset, List.toFinset_card_of_nodup h.nodup]

theorem Lists.admits_iff {ms : List (PolicyID × Outcome)} (h : law.Lists request ms) :
    law.Admits request ↔ law.within request ∧ (ms.length : Int) ≤ law.maxMatches := by
  rw [Admits, h.ncard_eq]

/-- The decision table on the items that match is the ruling. -/
theorem Lists.outcome_eq {ms : List (PolicyID × Outcome)} (h : law.Lists request ms)
    {reasons : MatchReasons} {decision : Decision} (hdecided : Decided reasons ms decision) :
    decision.outcome = law.ruling request := by
  by_cases hdeny : ∃ m ∈ ms, m.2 = .deny
  · rw [hdecided.deny.mpr hdeny, eq_comm, ruling_eq_deny]
    obtain ⟨m, hm, heffect⟩ := hdeny
    exact ⟨m, (h.mem_iff m).mp hm, heffect⟩
  · have hnone : ∀ m ∈ ms, m.2 ≠ .deny := fun m hm heffect => hdeny ⟨m, hm, heffect⟩
    cases ms with
    | nil =>
      rw [hdecided.notApplicable.mpr rfl, eq_comm, ruling_eq_notApplicable]
      rintro ⟨m, hm⟩
      exact absurd ((h.mem_iff m).mpr hm) List.not_mem_nil
    | cons m rest =>
      rw [hdecided.allow.mpr ⟨List.cons_ne_nil _ _, hnone⟩, eq_comm, ruling_eq_allow]
      exact ⟨⟨m, (h.mem_iff m).mp List.mem_cons_self⟩,
        fun item hitem => hnone item ((h.mem_iff item).mpr hitem)⟩

end Law

/-! ### Evaluators that follow a law -/

/-- The decision is the law's on the request. -/
structure Law.Rules (law : Law) (request : Request) (decision : Decision) : Prop where
  outcome : decision.outcome = law.ruling request
  ids : ∀ id, id ∈ decision.matchedPolicyIDs ↔ ∃ effect, (id, effect) ∈ law.matched request

theorem Law.Lists.rules {law : Law} {request : Request} {ms : List (PolicyID × Outcome)}
    (h : law.Lists request ms) {reasons : MatchReasons} {decision : Decision}
    (hdecided : Decided reasons ms decision) : law.Rules request decision := by
  refine ⟨h.outcome_eq hdecided, fun id => ?_⟩
  rw [hdecided.ids, List.mem_map]
  constructor
  · rintro ⟨⟨id, effect⟩, hm, rfl⟩
    exact ⟨effect, (h.mem_iff _).mp hm⟩
  · rintro ⟨effect, hm⟩
    exact ⟨(id, effect), (h.mem_iff _).mpr hm, rfl⟩

/-- The evaluator answers with the law's ruling and refuses what the law does not
admit, in every world. -/
structure Evaluator.Follows (ctx : Context W) (evaluator : Evaluator W) (law : Law) : Prop where
  answered : ∀ request w, law.Admits request → ∃ decision,
    (evaluator ctx request w).1 = .returned decision none ∧ law.Rules request decision
  refused : ∀ request w, ¬ law.Admits request → ∃ decision err,
    (evaluator ctx request w).1 = .returned decision (some err)

/-! ### Answers in turn -/

/-- The answers up to a decisive one, combined; a refusal on the way ends it. -/
def combineAnswers (algorithm : CombiningAlgorithm) : List (Option Outcome) → Option Outcome
  | [] => some .notApplicable
  | none :: _ => none
  | some outcome :: rest =>
    if isDecisive algorithm outcome then some outcome
    else (combineAnswers algorithm rest).map fun others =>
      if others = .notApplicable then outcome else others

theorem referenceOutcome_notApplicable_cons {algorithm : CombiningAlgorithm}
    (ha : algorithm ≤ .priorityOrder) (rest : List Outcome) :
    referenceOutcome algorithm (.notApplicable :: rest) = referenceOutcome algorithm rest := by
  have hnot : ¬ isDecisive algorithm .notApplicable = true :=
    fun h => ne_notApplicable_of_isDecisive h rfl
  rw [referenceOutcome_cons ha (by decide), if_neg hnot]
  split
  · rename_i hrest
    exact hrest.symm
  · rfl

/-- All rulings combined. -/
noncomputable def jointRuling (algorithm : CombiningAlgorithm) (request : Request)
    (laws : List Law) : Outcome :=
  referenceOutcome algorithm (laws.map fun law => law.ruling request)

/-- The answers combined up to a decisive one. -/
noncomputable def jointAnswer (algorithm : CombiningAlgorithm) (request : Request)
    (laws : List Law) : Option Outcome :=
  combineAnswers algorithm (laws.map fun law => law.answer request)

/-- What does not apply is denied. -/
def Outcome.orDeny (outcome : Outcome) : Outcome :=
  if outcome = .notApplicable then .deny else outcome

theorem jointRuling_cons {algorithm : CombiningAlgorithm} (ha : algorithm ≤ .priorityOrder)
    (request : Request) (law : Law) (rest : List Law) :
    jointRuling algorithm request (law :: rest) =
      if isDecisive algorithm (law.ruling request) = true then law.ruling request
      else if jointRuling algorithm request rest = .notApplicable then law.ruling request
      else jointRuling algorithm request rest := by
  rw [jointRuling, List.map_cons, referenceOutcome_cons ha (Law.ruling_le law request)]
  rfl

theorem jointAnswer_of_admits (algorithm : CombiningAlgorithm) {request : Request} {law : Law}
    (h : law.Admits request) (rest : List Law) :
    jointAnswer algorithm request (law :: rest) =
      if isDecisive algorithm (law.ruling request) = true then some (law.ruling request)
      else (jointAnswer algorithm request rest).map fun others =>
        if others = .notApplicable then law.ruling request else others := by
  rw [jointAnswer, List.map_cons, Law.answer_of_admits h]
  rfl

theorem jointAnswer_of_not (algorithm : CombiningAlgorithm) {request : Request} {law : Law}
    (h : ¬ law.Admits request) (rest : List Law) :
    jointAnswer algorithm request (law :: rest) = none := by
  rw [jointAnswer, List.map_cons, Law.answer_of_not h]
  rfl

/-- One step of the combination, read both ways. -/
theorem jointAnswer_cons_eq_some {algorithm : CombiningAlgorithm} {request : Request} {law : Law}
    {rest : List Law} {outcome : Outcome} :
    jointAnswer algorithm request (law :: rest) = some outcome ↔ law.Admits request ∧
      ((isDecisive algorithm (law.ruling request) = true ∧ outcome = law.ruling request) ∨
        (¬ isDecisive algorithm (law.ruling request) = true ∧
          ∃ others, jointAnswer algorithm request rest = some others ∧
            outcome = if others = .notApplicable then law.ruling request else others)) := by
  by_cases hadmits : law.Admits request
  · rw [jointAnswer_of_admits algorithm hadmits]
    constructor
    · intro h
      refine ⟨hadmits, ?_⟩
      split at h
      · rename_i hdecisive
        exact Or.inl ⟨hdecisive, (Option.some.inj h).symm⟩
      · rename_i hdecisive
        obtain ⟨others, hothers, rfl⟩ := Option.map_eq_some_iff.mp h
        exact Or.inr ⟨hdecisive, others, hothers, rfl⟩
    · rintro ⟨-, ⟨hdecisive, rfl⟩ | ⟨hdecisive, others, hothers, rfl⟩⟩
      · rw [if_pos hdecisive]
      · rw [if_neg hdecisive, hothers, Option.map_some]
  · rw [jointAnswer_of_not algorithm hadmits]
    exact ⟨fun h => absurd h (Option.some_ne_none _).symm, fun h => absurd h.1 hadmits⟩

/-- **Without a refusal on the way all rulings together are combined.** -/
theorem eq_jointRuling_of_jointAnswer {algorithm : CombiningAlgorithm}
    (ha : algorithm ≤ .priorityOrder) (request : Request) :
    ∀ {laws : List Law} {outcome : Outcome}, jointAnswer algorithm request laws = some outcome →
      outcome = jointRuling algorithm request laws := by
  intro laws
  induction laws with
  | nil =>
    intro outcome h
    cases h
    unfold jointRuling referenceOutcome
    split
    · rfl
    · split
      · rfl
      · rfl
  | cons law rest ih =>
    intro outcome h
    rw [jointRuling_cons ha]
    obtain ⟨-, ⟨hdecisive, rfl⟩ | ⟨hdecisive, others, hothers, rfl⟩⟩ :=
      jointAnswer_cons_eq_some.mp h
    · rw [if_pos hdecisive]
    · rw [if_neg hdecisive, ih hothers]

theorem le_deny_of_jointAnswer {algorithm : CombiningAlgorithm} {request : Request} :
    ∀ {laws : List Law} {outcome : Outcome}, jointAnswer algorithm request laws = some outcome →
      outcome ≤ .deny := by
  intro laws
  induction laws with
  | nil =>
    intro outcome h
    cases h
    decide
  | cons law rest ih =>
    intro outcome h
    obtain ⟨-, ⟨-, rfl⟩ | ⟨-, others, hothers, rfl⟩⟩ := jointAnswer_cons_eq_some.mp h
    · exact Law.ruling_le law request
    · split
      · exact Law.ruling_le law request
      · exact ih hothers

/-! ### The engine -/

section Engine

variable {ctx : Context W} {request : Request} {time : Time}
  {laws : PolicyID → Law}

/-- The laws of the active policies, in order. -/
def activeLaws (laws : PolicyID → Law) (time : Time) (policies : List (PolicyEntry W)) : List Law :=
  (policies.filter fun policy => policy.InWindow time).map fun policy => laws policy.id

theorem activeLaws_cons_of_inWindow {policy : PolicyEntry W} (h : policy.InWindow time)
    (rest : List (PolicyEntry W)) :
    activeLaws laws time (policy :: rest) = laws policy.id :: activeLaws laws time rest := by
  rw [activeLaws, List.filter_cons, if_pos (decide_eq_true h), List.map_cons]
  rfl

theorem activeLaws_cons_of_not {policy : PolicyEntry W} (h : ¬ policy.InWindow time)
    (rest : List (PolicyEntry W)) :
    activeLaws laws time (policy :: rest) = activeLaws laws time rest := by
  rw [activeLaws, List.filter_cons, if_neg (by rw [decide_eq_true_eq]; exact h)]
  rfl

/-- A visit to a policy that admits the request or is inactive. -/
theorem visitPolicy_answered (snapshot : Snapshot W) (hctx : ctx.Quiet) {policy : PolicyEntry W}
    (hfollows : policy.evaluator.Follows ctx (laws policy.id))
    (hadmits : policy.InWindow time → (laws policy.id).Admits request) (w : W) :
    ∃ decision calls w',
      visitPolicy ctx request snapshot time policy w = (.ok decision, calls, w') ∧
      (policy.InWindow time → decision.outcome = (laws policy.id).ruling request) ∧
      (¬ policy.InWindow time → decision.outcome = .notApplicable) := by
  obtain ⟨w₁, hw⟩ := hctx.err_eq w
  rw [visitPolicy, hw]
  dsimp only
  by_cases hactive : policy.InWindow time
  · obtain ⟨decision, hanswer, hrules⟩ := hfollows.answered request w₁ (hadmits hactive)
    have hvalid : ¬ decision.outcome > .deny := by
      rw [hrules.outcome]
      exact not_lt.mpr (Law.ruling_le _ _)
    rw [PolicyEntry.activeAt_eq, if_pos (decide_eq_true hactive), hanswer]
    dsimp only [evaluatePolicy]
    rw [if_neg hvalid]
    exact ⟨decision, _, _, rfl, fun _ => hrules.outcome, fun h => absurd hactive h⟩
  · rw [PolicyEntry.activeAt_eq, if_neg (by rw [decide_eq_true_eq]; exact hactive)]
    exact ⟨inactiveDecision, [], w₁, rfl, fun h => absurd h hactive, fun _ => rfl⟩

/-- A visit to an active policy that refuses. -/
theorem visitPolicy_refused (snapshot : Snapshot W) (hctx : ctx.Quiet) {policy : PolicyEntry W}
    (hfollows : policy.evaluator.Follows ctx (laws policy.id)) (hactive : policy.InWindow time)
    (hrefuses : ¬ (laws policy.id).Admits request) (w : W) :
    ∃ cause, (visitPolicy ctx request snapshot time policy w).1
      = .error (failureDecision snapshot, .policyEvaluation policy.id cause) := by
  obtain ⟨w₁, hw⟩ := hctx.err_eq w
  obtain ⟨decision, err, hanswer⟩ := hfollows.refused request w₁ hrefuses
  rw [visitPolicy, hw]
  dsimp only
  rw [PolicyEntry.activeAt_eq, if_pos (decide_eq_true hactive), hanswer]
  exact ⟨err, rfl⟩

/-- **The policy loop over laws**: it goes through and what it saw combines like all
the rulings, or it stops at an active policy that refuses. -/
theorem visitAll_lawful (snapshot : Snapshot W) (time : Time) (hctx : ctx.Quiet) :
    ∀ {policies : List (PolicyEntry W)},
    (∀ policy ∈ policies, policy.evaluator.Follows ctx (laws policy.id)) → ∀ w,
    (∃ visits, (visitAll ctx request snapshot time policies w).1 = .ok visits ∧
      (∀ visit ∈ visits, visit.decision.outcome ≤ .deny) ∧
      referenceOutcome snapshot.algorithm (visits.map fun visit => visit.decision.outcome)
        = jointRuling snapshot.algorithm request (activeLaws laws time policies) ∧
      jointAnswer snapshot.algorithm request (activeLaws laws time policies) ≠ none) ∨
    jointAnswer snapshot.algorithm request (activeLaws laws time policies) = none ∧
    ∃ policy ∈ policies, policy.InWindow time ∧ ¬ (laws policy.id).Admits request ∧
      ∃ cause, (visitAll ctx request snapshot time policies w).1
        = .error (failureDecision snapshot, .policyEvaluation policy.id cause) := by
  have ha := snapshot.algorithm_le
  intro policies
  induction policies with
  | nil =>
    intro _ w
    exact Or.inl ⟨[], rfl, fun _ h => absurd h List.not_mem_nil, rfl, Option.some_ne_none _⟩
  | cons policy rest ih =>
    intro hfollows w
    obtain ⟨hpolicy, hrest⟩ := List.forall_mem_cons.mp hfollows
    by_cases hadmits : policy.InWindow time → (laws policy.id).Admits request
    · obtain ⟨decision, calls, w₁, hvisit, hactive, hinactive⟩ :=
        visitPolicy_answered snapshot hctx hpolicy hadmits w
      rw [visitAll, hvisit]
      dsimp only
      have hle : decision.outcome ≤ .deny := by
        by_cases hwindow : policy.InWindow time
        · rw [hactive hwindow]
          exact Law.ruling_le _ _
        · rw [hinactive hwindow]
          decide
      by_cases hdecisive : isDecisive snapshot.algorithm decision.outcome = true
      · rw [if_pos hdecisive]
        have hwindow : policy.InWindow time := by
          by_contra hwindow
          exact ne_notApplicable_of_isDecisive hdecisive (hinactive hwindow)
        rw [activeLaws_cons_of_inWindow hwindow, jointRuling_cons ha,
          jointAnswer_of_admits _ (hadmits hwindow), ← hactive hwindow, if_pos hdecisive,
          if_pos hdecisive]
        refine Or.inl ⟨[⟨policy, decision⟩], rfl, ?_, ?_, Option.some_ne_none _⟩
        · intro visit hvisit
          rw [List.mem_singleton] at hvisit
          subst hvisit
          exact hle
        · rw [List.map_cons, referenceOutcome_cons ha hle, if_pos hdecisive]
      · rw [if_neg hdecisive]
        -- the first ruling, or nothing for a policy outside its window
        have hhead : ∀ outcomes, referenceOutcome snapshot.algorithm outcomes
              = jointRuling snapshot.algorithm request (activeLaws laws time rest) →
            referenceOutcome snapshot.algorithm (decision.outcome :: outcomes)
              = jointRuling snapshot.algorithm request (activeLaws laws time (policy :: rest)) := by
          intro outcomes houtcomes
          by_cases hwindow : policy.InWindow time
          · rw [activeLaws_cons_of_inWindow hwindow, jointRuling_cons ha, ← hactive hwindow,
              referenceOutcome_cons ha hle, houtcomes]
          · rw [activeLaws_cons_of_not hwindow, hinactive hwindow,
              referenceOutcome_notApplicable_cons ha, houtcomes]
        have hanswer :
            jointAnswer snapshot.algorithm request (activeLaws laws time (policy :: rest)) = none ↔
              jointAnswer snapshot.algorithm request (activeLaws laws time rest) = none := by
          by_cases hwindow : policy.InWindow time
          · rw [activeLaws_cons_of_inWindow hwindow, jointAnswer_of_admits _ (hadmits hwindow),
              ← hactive hwindow, if_neg hdecisive, Option.map_eq_none_iff]
          · rw [activeLaws_cons_of_not hwindow]
        rcases ih hrest w₁ with ⟨visits, hvisits, hvalid, houtcomes, hanswered⟩ |
          ⟨hnone, refusing, hmem, hwindow, hrefuses, cause, hfailed⟩
        · refine Or.inl ⟨⟨policy, decision⟩ :: visits, ?_, ?_, ?_, ?_⟩
          · dsimp only
            rw [hvisits]
            rfl
          · exact List.forall_mem_cons.mpr ⟨hle, hvalid⟩
          · rw [List.map_cons]
            exact hhead _ houtcomes
          · exact fun hnone => hanswered (hanswer.mp hnone)
        · refine Or.inr ⟨hanswer.mpr hnone, refusing, List.mem_cons_of_mem _ hmem, hwindow,
            hrefuses, cause, ?_⟩
          dsimp only
          rw [hfailed]
          rfl
    · rw [not_forall] at hadmits
      obtain ⟨hwindow, hrefuses⟩ := hadmits
      obtain ⟨cause, hfailed⟩ := visitPolicy_refused snapshot hctx hpolicy hwindow hrefuses w
      refine Or.inr ⟨?_, policy, List.mem_cons_self, hwindow, hrefuses, cause, ?_⟩
      · rw [activeLaws_cons_of_inWindow hwindow, jointAnswer_of_not _ hrefuses]
      · rw [visitAll]
        rcases hvisit : visitPolicy ctx request snapshot time policy w with ⟨result, calls, w₁⟩
        rw [hvisit] at hfailed
        dsimp only at hfailed
        subst hfailed
        rfl

/-- **A decision by law.** -/
structure Lawful (laws : PolicyID → Law) (snapshot : Snapshot W) (time : Time) (request : Request)
    (result : DecideResult W) : Prop where
  revision : result.decision.revision = snapshot.revision
  /-- There is an error exactly if a refusal is met before a decisive ruling. -/
  answered : result.err = none ↔
    jointAnswer snapshot.algorithm request (activeLaws laws time snapshot.policies) ≠ none
  /-- Without an error all the rulings together decide. -/
  ruled : result.err = none → result.decision.outcome
    = (jointRuling snapshot.algorithm request (activeLaws laws time snapshot.policies)).orDeny
  /-- An error denies and names an active policy that refused. -/
  refused : ∀ err, result.err = some err → result.decision.outcome = .deny ∧
    ∃ policy ∈ snapshot.policies, policy.InWindow time ∧ ¬ (laws policy.id).Admits request ∧
      ∃ cause, err = .policyEvaluation policy.id cause

theorem finishDecision_revision (snapshot : Snapshot W) (state : LoopState) :
    (finishDecision snapshot state).1.revision = snapshot.revision := by
  unfold finishDecision
  split
  · rfl
  · rfl

theorem decide_of_visits {engine : Engine W} {w w₁ w₂ : W} (hvalid : request.validate = none)
    (hw : ctx.err w = (none, w₁)) (ht : evaluationTime engine request w₁ = (time, w₂))
    {visits : List (Visit W)}
    (h : (visitAll ctx request engine.snapshot time engine.snapshot.policies w₂).1 = .ok visits) :
    (engine.decide ctx request w).decision
        = (finishDecision engine.snapshot (recordVisits engine.limits {} visits)).1 ∧
      (engine.decide ctx request w).err
        = (finishDecision engine.snapshot (recordVisits engine.limits {} visits)).2 := by
  rw [Engine.decide, Engine.decideWith, hvalid]
  dsimp only
  rw [hw]
  dsimp only
  rw [ht]
  dsimp only
  rw [decideLoop_eq, h]
  exact ⟨rfl, rfl⟩

theorem decide_of_failure {engine : Engine W} {w w₁ w₂ : W} (hvalid : request.validate = none)
    (hw : ctx.err w = (none, w₁)) (ht : evaluationTime engine request w₁ = (time, w₂))
    {decision : Decision} {err : GoError}
    (h : (visitAll ctx request engine.snapshot time engine.snapshot.policies w₂).1
      = .error (decision, err)) :
    (engine.decide ctx request w).decision = decision ∧
      (engine.decide ctx request w).err = some err := by
  rw [Engine.decide, Engine.decideWith, hvalid]
  dsimp only
  rw [hw]
  dsimp only
  rw [ht]
  dsimp only
  rw [decideLoop_eq, h]
  exact ⟨rfl, rfl⟩

/-- **An engine decides by the laws of its policies.** -/
theorem decide_lawful (engine : Engine W) (hvalid : request.validate = none) (hctx : ctx.Quiet)
    (hfollows : ∀ policy ∈ engine.snapshot.policies,
      policy.evaluator.Follows ctx (laws policy.id)) (w : W) :
    Lawful laws engine.snapshot (engine.decisionTime ctx request w) request
      (engine.decide ctx request w) := by
  obtain ⟨w₁, hw⟩ := hctx.err_eq w
  rcases ht : evaluationTime engine request w₁ with ⟨time, w₂⟩
  have htime : engine.decisionTime ctx request w = time := by rw [Engine.decisionTime, hw, ht]
  rw [htime]
  rcases visitAll_lawful engine.snapshot time hctx hfollows w₂ with
    ⟨visits, hvisits, hle, houtcomes, hanswered⟩ |
    ⟨hnone, policy, hmem, hwindow, hrefuses, cause, hfailed⟩
  · have hdecisions : (recordVisits engine.limits {} visits).decisions
        = visits.map Visit.decision := by
      rw [recordVisits_decisions, List.nil_append]
    have hall : ∀ d ∈ visits.map Visit.decision, d.outcome ≤ .deny := by
      intro d hd
      obtain ⟨visit, hvisit, rfl⟩ := List.mem_map.mp hd
      exact hle visit hvisit
    obtain ⟨decision, hcombine, houtcome⟩ := combine_outcome engine.snapshot.algorithm_le hall
    rw [← hdecisions] at hcombine
    obtain ⟨herr, hfinish⟩ := finishDecision_eq hcombine
    rw [List.map_map] at houtcome
    have hreference : decision.outcome = jointRuling engine.snapshot.algorithm request
        (activeLaws laws time engine.snapshot.policies) := houtcome.trans houtcomes
    obtain ⟨hdecision, hresult⟩ := decide_of_visits hvalid hw ht hvisits
    refine ⟨?_, ⟨fun _ => hanswered, fun _ => hresult.trans herr⟩, fun _ => ?_, fun err h => ?_⟩
    · rw [hdecision, finishDecision_revision]
    · have hfirst := congrArg Prod.fst hfinish
      dsimp only at hfirst
      rw [hdecision, hfirst, Decision.defaulted, ← hreference, Outcome.orDeny]
      split
      · rfl
      · rfl
    · rw [hresult, herr] at h
      cases h
  · obtain ⟨hdecision, hresult⟩ := decide_of_failure hvalid hw ht hfailed
    refine ⟨by rw [hdecision]; rfl, ⟨fun h => ?_, fun h => ?_⟩, fun h => ?_, ?_⟩
    · rw [hresult] at h
      cases h
    · exact absurd hnone h
    · rw [hresult] at h
      cases h
    · intro err h
      rw [hresult] at h
      cases h
      exact ⟨by rw [hdecision]; rfl, policy, hmem, hwindow, hrefuses, cause, rfl⟩

end Engine

end Authorization.Core
