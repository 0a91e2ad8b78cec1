import Authorization.Core.ShortCircuit

/-!
# The explanation of a decision

A decision carries a trace and the matched identifiers, both cut at a limit.  The
loop keeps them in its accumulators; here it is taken apart into visiting the
policies (`visitAll`), which knows no limits, and recording what was visited
(`recordVisits`), which is a fold.  `decideLoop_eq` says that the loop is the one
after the other.

What is recorded is the whole explanation cut at the limits (`Recorded`): one visit
keeps that (`Recorded.record`), so a run does.  Since the visits do not depend on
the limits, neither does what is decided from them.
-/

namespace Authorization.Core

open Authorization.Foundation

variable {W : Type}

/-! ### Visiting and recording -/

/-- A visited policy and the decision recorded for it. -/
structure Visit (W : Type) where
  policy : PolicyEntry W
  decision : Decision

section Visits

variable (ctx : Context W) (request : Request) (snapshot : Snapshot W) (time : Time)

/-- The policy loop without its accumulators. -/
def visitAll : List (PolicyEntry W) → W →
    Except (Decision × GoError) (List (Visit W)) × List (Call W) × W
  | [], w => (.ok [], [], w)
  | policy :: rest, w =>
    match visitPolicy ctx request snapshot time policy w with
    | (.error failure, calls, w) => (.error failure, calls, w)
    | (.ok decision, calls, w) =>
      if isDecisive snapshot.algorithm decision.outcome then (.ok [⟨policy, decision⟩], calls, w)
      else
        match visitAll rest w with
        | (visits, others, w) => (visits.map (⟨policy, decision⟩ :: ·), calls ++ others, w)

end Visits

/-- The bookkeeping of a list of visits. -/
def recordVisits (limits : Limits) (state : LoopState) (visits : List (Visit W)) : LoopState :=
  visits.foldl (fun state visit => state.record limits visit.policy.id visit.decision) state

/-- **The loop visits and records.** -/
theorem decideLoop_eq (limits : Limits) (ctx : Context W) (request : Request)
    (snapshot : Snapshot W) (time : Time) : ∀ (policies : List (PolicyEntry W)) (state : LoopState)
    (w : W), decideLoop limits ctx request snapshot time policies state w
      = ⟨(visitAll ctx request snapshot time policies w).1.map (recordVisits limits state),
          (visitAll ctx request snapshot time policies w).2.1,
          (visitAll ctx request snapshot time policies w).2.2⟩ := by
  intro policies
  induction policies with
  | nil => intro state w; rfl
  | cons policy rest ih =>
    intro state w
    rw [decideLoop, visitAll]
    rcases visitPolicy ctx request snapshot time policy w with ⟨failure | decision, calls, w'⟩
    · rfl
    · dsimp only
      by_cases hdecisive : isDecisive snapshot.algorithm decision.outcome = true
      · rw [if_pos hdecisive, if_pos hdecisive]
        rfl
      · rw [if_neg hdecisive, if_neg hdecisive, ih]
        rcases visitAll ctx request snapshot time rest w' with ⟨failure | visits, others, w''⟩
        · rfl
        · rfl

/-- **The policies that were visited**: the policies of the list up to the first
decisive one, called if active, each with the decision its evaluator returned. -/
structure Visited (ctx : Context W) (request : Request) (algorithm : CombiningAlgorithm)
    (time : Time) (policies : List (PolicyEntry W)) (w : W) (calls : List (Call W))
    (visits : List (Visit W)) (w' : W) : Prop where
  initial : visits.map Visit.policy <+: policies
  undecided : ∀ visit ∈ visits.dropLast, isDecisive algorithm visit.decision.outcome = false
  decided : visits.map Visit.policy ≠ policies →
    ∃ visit, visits.getLast? = some visit ∧ isDecisive algorithm visit.decision.outcome = true
  inactive : ∀ visit ∈ visits, visit.policy.activeAt time = false →
    visit.decision = inactiveDecision
  answered : ∀ visit ∈ visits, visit.policy.activeAt time = true →
    ∃ w₁, (visit.policy.evaluator ctx request w₁).1 = .returned visit.decision none
  called : calls = (visits.filter fun visit => visit.policy.activeAt time).map fun visit =>
    ⟨visit.policy, .returned visit.decision none⟩
  /-- The calls are those of a run over the visited policies. -/
  ran : Ran ctx request time (visits.map Visit.policy) w calls w'

section Visiting

variable {ctx : Context W} {request : Request} {snapshot : Snapshot W} {time : Time}
  {policy : PolicyEntry W} {policies : List (PolicyEntry W)}

/-- One visit: its call, if the policy is active. -/
theorem visitPolicy_called {w w' : W} {decision : Decision} {calls : List (Call W)}
    (h : visitPolicy ctx request snapshot time policy w = (.ok decision, calls, w')) :
    (policy.activeAt time = false → decision = inactiveDecision) ∧
      calls = if policy.activeAt time then [⟨policy, .returned decision none⟩] else [] := by
  rcases visitPolicy_ok h with ⟨hinactive, rfl, rfl⟩ | ⟨hactive, call, hpolicy, hgood, rfl⟩
  · rw [hinactive]
    exact ⟨fun _ => rfl, rfl⟩
  · obtain ⟨called, result⟩ := call
    obtain ⟨hresult, -⟩ := hgood
    dsimp only at hpolicy hresult
    subst hpolicy hresult
    rw [if_pos hactive]
    exact ⟨fun h => absurd (hactive.symm.trans h) Bool.noConfusion, rfl⟩

/-- In a run an active policy's decision is the one its evaluator returned. -/
theorem answered_of_ran {visits : List (Visit W)} {calls : List (Call W)} {w w' : W}
    (hcalled : calls = (visits.filter fun visit => visit.policy.activeAt time).map fun visit =>
      ⟨visit.policy, .returned visit.decision none⟩)
    (hran : Ran ctx request time (visits.map Visit.policy) w calls w') :
    ∀ visit ∈ visits, visit.policy.activeAt time = true →
      ∃ w₁, (visit.policy.evaluator ctx request w₁).1 = .returned visit.decision none := by
  intro visit hvisit hactive
  refine hran.made ⟨visit.policy, .returned visit.decision none⟩ ?_
  rw [hcalled]
  exact List.mem_map_of_mem (List.mem_filter.mpr ⟨hvisit, hactive⟩)

/-- The call of a visit in front of those of the visits after it. -/
theorem called_cons {w w' : W} {decision : Decision} {calls otherCalls : List (Call W)}
    {others : List (Visit W)}
    (h : visitPolicy ctx request snapshot time policy w = (.ok decision, calls, w'))
    (hothers : otherCalls = (others.filter fun visit => visit.policy.activeAt time).map fun visit =>
      ⟨visit.policy, .returned visit.decision none⟩) :
    calls ++ otherCalls = ((⟨policy, decision⟩ :: others).filter fun visit : Visit W =>
      visit.policy.activeAt time).map fun visit =>
        ⟨visit.policy, .returned visit.decision none⟩ := by
  rw [(visitPolicy_called h).2, hothers, List.filter_cons]
  dsimp only
  split
  · rfl
  · rfl

/-- A decisive visit is the last one. -/
theorem Visited.last {w w' : W} {decision : Decision} {calls : List (Call W)}
    (h : visitPolicy ctx request snapshot time policy w = (.ok decision, calls, w'))
    (hdecisive : isDecisive snapshot.algorithm decision.outcome = true)
    (rest : List (PolicyEntry W)) :
    Visited ctx request snapshot.algorithm time (policy :: rest) w calls [⟨policy, decision⟩] w' := by
  have hcalled : calls ++ [] = ([⟨policy, decision⟩].filter fun visit : Visit W =>
      visit.policy.activeAt time).map fun visit => ⟨visit.policy, .returned visit.decision none⟩ :=
    called_cons h rfl
  have hran := visitPolicy_ran h (.nil w')
  rw [List.append_nil] at hcalled hran
  refine ⟨⟨rest, rfl⟩, fun _ hvisit => absurd hvisit List.not_mem_nil,
    fun _ => ⟨_, rfl, hdecisive⟩, ?_, answered_of_ran hcalled hran, hcalled, hran⟩
  intro visit hvisit
  rw [List.mem_singleton] at hvisit
  subst hvisit
  exact (visitPolicy_called h).1

/-- A visit that decides nothing comes in front. -/
theorem Visited.cons {w w' w'' : W} {decision : Decision} {calls otherCalls : List (Call W)}
    {rest : List (PolicyEntry W)} {others : List (Visit W)}
    (h : visitPolicy ctx request snapshot time policy w = (.ok decision, calls, w'))
    (hundecided : isDecisive snapshot.algorithm decision.outcome = false)
    (htail : Visited ctx request snapshot.algorithm time rest w' otherCalls others w'') :
    Visited ctx request snapshot.algorithm time (policy :: rest) w (calls ++ otherCalls)
      (⟨policy, decision⟩ :: others) w'' := by
  have hcalled := called_cons h htail.called
  have hran := visitPolicy_ran h htail.ran
  refine ⟨?_, ?_, ?_, ?_, answered_of_ran hcalled hran, hcalled, hran⟩
  · rw [List.map_cons]
    exact (List.prefix_cons_inj policy).mpr htail.initial
  · intro visit hvisit
    cases others with
    | nil => exact absurd hvisit List.not_mem_nil
    | cons other more =>
      rw [List.dropLast_cons_of_ne_nil (List.cons_ne_nil _ _)] at hvisit
      rcases List.mem_cons.mp hvisit with rfl | hvisit
      · exact hundecided
      · exact htail.undecided visit hvisit
  · intro hne
    obtain ⟨visit, hlast, hdec⟩ := htail.decided fun h => hne (by rw [List.map_cons, h])
    refine ⟨visit, ?_, hdec⟩
    rw [List.getLast?_cons, hlast]
    rfl
  · intro visit hvisit
    rcases List.mem_cons.mp hvisit with rfl | hvisit
    · exact (visitPolicy_called h).1
    · exact htail.inactive visit hvisit

theorem visited_visitAll : ∀ {policies : List (PolicyEntry W)} {w : W} {visits : List (Visit W)},
    (visitAll ctx request snapshot time policies w).1 = .ok visits →
    Visited ctx request snapshot.algorithm time policies w
      (visitAll ctx request snapshot time policies w).2.1 visits
      (visitAll ctx request snapshot time policies w).2.2 := by
  intro policies
  induction policies with
  | nil =>
    intro w visits h
    cases h
    exact ⟨List.prefix_rfl, fun _ hv => absurd hv List.not_mem_nil, fun h => absurd rfl h,
      fun _ hv => absurd hv List.not_mem_nil, fun _ hv => absurd hv List.not_mem_nil, rfl, .nil w⟩
  | cons policy rest ih =>
    intro w visits h
    rw [visitAll] at h ⊢
    rcases hv : visitPolicy ctx request snapshot time policy w with ⟨failure | decision, calls, w'⟩
    · rw [hv] at h
      cases h
    · rw [hv] at h
      dsimp only at h ⊢
      by_cases hdecisive : isDecisive snapshot.algorithm decision.outcome = true
      · rw [if_pos hdecisive] at h ⊢
        cases h
        exact .last hv hdecisive rest
      · rw [if_neg hdecisive] at h ⊢
        rcases hrest : visitAll ctx request snapshot time rest w' with
          ⟨failure | others, otherCalls, w''⟩
        · rw [hrest] at h
          cases h
        · rw [hrest] at h
          cases h
          have htail := ih (show (visitAll ctx request snapshot time rest w').1 = .ok others by
            rw [hrest])
          rw [hrest] at htail
          exact .cons hv (Bool.eq_false_of_not_eq_true hdecisive) htail

end Visiting

/-! ### What is recorded -/

def Visit.entry (visit : Visit W) : TraceEntry :=
  ⟨visit.policy.id, visit.decision.outcome, visit.decision.reason⟩

/-- The identifiers an applicable visit contributes. -/
def Visit.matched (visit : Visit W) : List PolicyID :=
  if visit.decision.outcome = .notApplicable then [] else visit.decision.matchedOr visit.policy.id

/-- The identifiers of all applicable visits, in order. -/
def contributed (visits : List (Visit W)) : List PolicyID := visits.flatMap Visit.matched

/-- An applicable evaluator reported that its own list was cut. -/
def Visit.reportsTruncation (visit : Visit W) : Prop :=
  visit.decision.outcome ≠ .notApplicable ∧ visit.decision.matchedPolicyIDsTruncated = true

/-- **The accumulators are the explanation cut at the limits.** -/
structure Recorded (limits : Limits) (visits : List (Visit W)) (state : LoopState) : Prop where
  decisions : state.decisions = visits.map Visit.decision
  trace : state.trace = (visits.map Visit.entry).take limits.maxTraceSize.toNat
  traceTruncated : state.traceTruncated = true ↔ (visits.length : Int) > limits.maxTraceSize
  ids : state.matchedPolicyIDs = (contributed visits).take limits.maxMatchedPolicyIDs.toNat
  idsTruncated : state.matchedPolicyIDsTruncated = true ↔
    ((contributed visits).length : Int) > limits.maxMatchedPolicyIDs ∨
      ∃ visit ∈ visits, visit.reportsTruncation

theorem contributed_append (visits : List (Visit W)) (visit : Visit W) :
    contributed (visits ++ [visit]) = contributed visits ++ visit.matched := by
  rw [contributed, List.flatMap_append, List.flatMap_singleton]
  rfl

theorem matchedOr_length_pos (policyID : PolicyID) (decision : Decision) :
    0 < (decision.matchedOr policyID).length := by
  unfold Decision.matchedOr
  split
  · exact Nat.one_pos
  · rename_i hne
    exact List.length_pos_iff.mpr hne

section Record

variable {limits : Limits} {visits : List (Visit W)} {state : LoopState}

theorem recordTrace_eq (state : LoopState) (hlimit : 0 ≤ limits.maxTraceSize)
    (htrace : state.trace = (visits.map Visit.entry).take limits.maxTraceSize.toNat)
    (htruncated : state.traceTruncated = true ↔ (visits.length : Int) > limits.maxTraceSize)
    (visit : Visit W) :
    (state.recordTrace limits visit.policy.id visit.decision).trace
        = ((visits ++ [visit]).map Visit.entry).take limits.maxTraceSize.toNat ∧
      ((state.recordTrace limits visit.policy.id visit.decision).traceTruncated = true ↔
        ((visits ++ [visit]).length : Int) > limits.maxTraceSize) := by
  have hlength : state.trace.length = min limits.maxTraceSize.toNat visits.length := by
    rw [htrace, List.length_take, List.length_map]
  rw [List.map_append, List.length_append, List.length_singleton]
  unfold LoopState.recordTrace
  by_cases hroom : (state.trace.length : Int) < limits.maxTraceSize
  · -- room for one more: nothing was cut so far
    have hfits : visits.length + 1 ≤ limits.maxTraceSize.toNat := by omega
    rw [if_pos hroom]
    constructor
    · dsimp only
      rw [htrace, List.take_of_length_le (by rw [List.length_map]; omega),
        List.take_of_length_le]
      · rfl
      · rw [List.length_append, List.length_map]
        exact hfits
    · dsimp only
      rw [htruncated]
      push_cast
      omega
  · have hfull : limits.maxTraceSize.toNat ≤ visits.length := by omega
    rw [if_neg hroom]
    constructor
    · dsimp only
      rw [htrace, List.take_append_of_le_length (by rw [List.length_map]; exact hfull)]
    · push_cast
      simp only [true_iff]
      omega

theorem recordMatched_eq (hlimit : 0 ≤ limits.maxMatchedPolicyIDs)
    (hids : state.matchedPolicyIDs = (contributed visits).take limits.maxMatchedPolicyIDs.toNat)
    (htruncated : state.matchedPolicyIDsTruncated = true ↔
      ((contributed visits).length : Int) > limits.maxMatchedPolicyIDs ∨
        ∃ visit ∈ visits, visit.reportsTruncation) (visit : Visit W) :
    (state.recordMatched limits visit.policy.id visit.decision).matchedPolicyIDs
        = (contributed (visits ++ [visit])).take limits.maxMatchedPolicyIDs.toNat ∧
      ((state.recordMatched limits visit.policy.id visit.decision).matchedPolicyIDsTruncated = true ↔
        ((contributed (visits ++ [visit])).length : Int) > limits.maxMatchedPolicyIDs ∨
          ∃ other ∈ visits ++ [visit], other.reportsTruncation) := by
  have hlength : state.matchedPolicyIDs.length
      = min limits.maxMatchedPolicyIDs.toNat (contributed visits).length := by
    rw [hids, List.length_take]
  have hreports : (∃ other ∈ visits ++ [visit], other.reportsTruncation) ↔
      (∃ other ∈ visits, other.reportsTruncation) ∨ visit.reportsTruncation := by
    simp only [List.mem_append, List.mem_singleton, or_and_right, exists_or, exists_eq_left]
  rw [contributed_append, hreports, List.length_append, List.take_append]
  unfold LoopState.recordMatched
  by_cases happlicable : visit.decision.outcome ≠ .notApplicable
  · have hmatched : visit.matched = visit.decision.matchedOr visit.policy.id :=
      if_neg happlicable
    have hpos := matchedOr_length_pos visit.policy.id visit.decision
    rw [if_pos happlicable, hmatched]
    dsimp only
    by_cases hover : ((visit.decision.matchedOr visit.policy.id).length : Int)
        > limits.maxMatchedPolicyIDs - state.matchedPolicyIDs.length
    · -- what is left of the limit is what is left after the earlier visits
      have hremaining : (max (limits.maxMatchedPolicyIDs - state.matchedPolicyIDs.length) 0).toNat
          = limits.maxMatchedPolicyIDs.toNat - (contributed visits).length := by
        omega
      rw [if_pos hover]
      constructor
      · dsimp only
        rw [hremaining, hids]
      · push_cast
        simp only [true_iff]
        left
        omega
    · rw [if_neg hover]
      constructor
      · dsimp only
        rw [hids, List.take_of_length_le (l := visit.decision.matchedOr visit.policy.id)]
        omega
      · dsimp only
        rw [Bool.or_eq_true, htruncated]
        have hfits : ¬ ((contributed visits).length : Int) > limits.maxMatchedPolicyIDs := by omega
        have hfits' : ¬ (((contributed visits).length
            + (visit.decision.matchedOr visit.policy.id).length : Nat) : Int)
              > limits.maxMatchedPolicyIDs := by
          push_cast
          omega
        simp only [hfits, hfits', false_or]
        exact or_congr_right ⟨fun h => ⟨happlicable, h⟩, fun h => h.2⟩
  · have hskip : visit.decision.outcome = .notApplicable := not_not.mp happlicable
    have hmatched : visit.matched = [] := if_pos hskip
    have hquiet : ¬ visit.reportsTruncation := fun h => happlicable h.1
    rw [if_neg happlicable, hmatched, List.take_nil, List.append_nil, List.length_nil, Nat.add_zero]
    exact ⟨hids, htruncated.trans (or_congr_right (or_iff_left hquiet).symm)⟩

theorem recordMatched_trace (limits : Limits) (policyID : PolicyID) (decision : Decision)
    (state : LoopState) : (state.recordMatched limits policyID decision).trace = state.trace ∧
      (state.recordMatched limits policyID decision).traceTruncated = state.traceTruncated := by
  unfold LoopState.recordMatched
  split
  · dsimp only
    split
    · exact ⟨rfl, rfl⟩
    · exact ⟨rfl, rfl⟩
  · exact ⟨rfl, rfl⟩

theorem recordTrace_matched (limits : Limits) (policyID : PolicyID) (decision : Decision)
    (state : LoopState) :
    (state.recordTrace limits policyID decision).matchedPolicyIDs = state.matchedPolicyIDs ∧
      (state.recordTrace limits policyID decision).matchedPolicyIDsTruncated
        = state.matchedPolicyIDsTruncated := by
  unfold LoopState.recordTrace
  split
  · exact ⟨rfl, rfl⟩
  · exact ⟨rfl, rfl⟩

/-- **One visit.** -/
theorem Recorded.record (hsize : 0 ≤ limits.maxTraceSize) (hcap : 0 ≤ limits.maxMatchedPolicyIDs)
    (h : Recorded limits visits state) (visit : Visit W) :
    Recorded limits (visits ++ [visit])
      (state.record limits visit.policy.id visit.decision) := by
  have hkept := recordMatched_trace limits visit.policy.id visit.decision
    ({ state with decisions := state.decisions ++ [visit.decision] }.recordTrace limits
      visit.policy.id visit.decision)
  have hbefore := recordTrace_matched limits visit.policy.id visit.decision
    { state with decisions := state.decisions ++ [visit.decision] }
  have htrace := recordTrace_eq { state with decisions := state.decisions ++ [visit.decision] }
    hsize h.trace h.traceTruncated visit
  have hmatched := recordMatched_eq hcap (hbefore.1.trans h.ids)
    (by rw [hbefore.2]; exact h.idsTruncated) visit
  refine ⟨?_, ?_, ?_, hmatched.1, hmatched.2⟩
  · rw [LoopState.record_decisions, h.decisions, List.map_append]
    rfl
  · exact hkept.1.trans htrace.1
  · exact (by rw [LoopState.record, hkept.2]; exact htrace.2)

theorem recorded_nil (hsize : 0 ≤ limits.maxTraceSize) (hcap : 0 ≤ limits.maxMatchedPolicyIDs) :
    Recorded limits ([] : List (Visit W)) {} := by
  refine ⟨rfl, List.take_nil.symm, ?_, List.take_nil.symm, ?_⟩
  · exact ⟨fun h => absurd h Bool.false_ne_true, fun h => absurd h (not_lt.mpr hsize)⟩
  · refine ⟨fun h => absurd h Bool.false_ne_true, ?_⟩
    rintro (h | ⟨visit, hvisit, -⟩)
    · exact absurd h (not_lt.mpr hcap)
    · exact absurd hvisit List.not_mem_nil

/-- **A run of visits.** -/
theorem Recorded.recordVisits (hsize : 0 ≤ limits.maxTraceSize)
    (hcap : 0 ≤ limits.maxMatchedPolicyIDs) : ∀ (more : List (Visit W)) {visits : List (Visit W)}
    {state : LoopState}, Recorded limits visits state →
    Recorded limits (visits ++ more) (recordVisits limits state more) := by
  intro more
  induction more with
  | nil => intro visits state h; rw [List.append_nil]; exact h
  | cons visit more ih =>
    intro visits state h
    have hstep := ih (h.record hsize hcap visit)
    rw [List.append_assoc] at hstep
    exact hstep

end Record

theorem recordVisits_decisions (limits : Limits) : ∀ (visits : List (Visit W)) (state : LoopState),
    (recordVisits limits state visits).decisions
      = state.decisions ++ visits.map Visit.decision := by
  intro visits
  induction visits with
  | nil => intro state; exact (List.append_nil _).symm
  | cons visit visits ih =>
    intro state
    refine (ih _).trans ?_
    rw [LoopState.record_decisions, List.append_assoc]
    rfl

/-! ### The decision -/

/-- The diagnostics of a decision are the explanation cut at the limits. -/
structure Explained (limits : Limits) (visits : List (Visit W)) (decision : Decision) : Prop where
  trace : decision.trace = (visits.map Visit.entry).take limits.maxTraceSize.toNat
  traceTruncated : decision.traceTruncated = true ↔ (visits.length : Int) > limits.maxTraceSize
  ids : decision.matchedPolicyIDs = (contributed visits).take limits.maxMatchedPolicyIDs.toNat
  idsTruncated : decision.matchedPolicyIDsTruncated = true ↔
    ((contributed visits).length : Int) > limits.maxMatchedPolicyIDs ∨
      ∃ visit ∈ visits, visit.reportsTruncation

/-- The capacity of the trace and the bound of the slice expression are in range,
whatever the loop has recorded so far. -/
structure InRange (limits : Limits) : Prop where
  capacity : ∀ policies : Nat, 0 ≤ min (policies : Int) limits.maxTraceSize
  slice : ∀ (state : LoopState) (policyID : PolicyID) (decision : Decision),
    let remaining := limits.maxMatchedPolicyIDs - state.matchedPolicyIDs.length
    ((decision.matchedOr policyID).length : Int) > remaining →
      0 ≤ max remaining 0 ∧ max remaining 0 ≤ (decision.matchedOr policyID).length

theorem inRange_of_nonneg {limits : Limits} (hsize : 0 ≤ limits.maxTraceSize) : InRange limits := by
  refine ⟨fun policies => le_min (Int.natCast_nonneg _) hsize, ?_⟩
  intro state policyID decision remaining hover
  exact ⟨le_max_right _ _, by omega⟩

/-- The limits of an engine that `NewEngine` made. -/
theorem limits_of_newEngine {now : W → Time × W} {snapshot : Option (Snapshot W)}
    {options : List (EngineOption W)} {engine : Engine W}
    (h : newEngine now snapshot options = .ok engine) :
    0 < engine.limits.maxTraceSize ∧ 0 < engine.limits.maxMatchedPolicyIDs := by
  have hdefaults : 0 < ({} : Limits).maxTraceSize ∧ 0 < ({} : Limits).maxMatchedPolicyIDs := by
    decide
  cases snapshot with
  | none => cases h
  | some snapshot =>
    rw [newEngine] at h
    split at h
    · cases h
    · injection h with h
      subst h
      refine List.foldlRecOn (motive := fun engine : Engine W =>
        0 < engine.limits.maxTraceSize ∧ 0 < engine.limits.maxMatchedPolicyIDs) options _ hdefaults
        fun engine h option _ => ?_
      cases option with
      | withLimits limits => exact ⟨overrideLimit_pos h.1, overrideLimit_pos h.2⟩
      | withClock clock =>
        cases clock with
        | none => exact h
        | some clock => exact h

/-- A decision without an error comes after a loop that went through. -/
theorem decide_eq_visits (engine : Engine W) {ctx : Context W} {request : Request} {w : W}
    (hok : (engine.decide ctx request w).err = none) :
    ∃ visits w', Visited ctx request engine.snapshot.algorithm (engine.decisionTime ctx request w)
        engine.snapshot.policies (engine.decisionWorld ctx request w)
        (engine.decide ctx request w).calls visits w' ∧
      ∀ limits, { engine with limits := limits }.decide ctx request w
        = ⟨(finishDecision engine.snapshot (recordVisits limits {} visits)).1,
            (finishDecision engine.snapshot (recordVisits limits {} visits)).2,
            (engine.decide ctx request w).calls, w'⟩ := by
  unfold Engine.decide Engine.decideWith at hok ⊢
  cases hvalid : request.validate with
  | some err => rw [hvalid] at hok; cases hok
  | none =>
    rw [hvalid] at hok
    rcases hctx : ctx.err w with ⟨_ | err, w₁⟩
    · rw [hctx] at hok
      dsimp only at hok ⊢
      have htime : engine.decisionTime ctx request w = (evaluationTime engine request w₁).1 := by
        rw [Engine.decisionTime, hctx]
      have hworld : engine.decisionWorld ctx request w = (evaluationTime engine request w₁).2 := by
        rw [Engine.decisionWorld, hctx]
      rw [htime, hworld]
      have hclock : ∀ limits, evaluationTime { engine with limits := limits } request w₁
          = evaluationTime engine request w₁ := fun _ => rfl
      simp only [hclock, decideLoop_eq] at hok ⊢
      cases hvisits : (visitAll ctx request engine.snapshot (evaluationTime engine request w₁).1
          engine.snapshot.policies (evaluationTime engine request w₁).2).1 with
      | error failure => rw [hvisits] at hok; cases hok
      | ok visits =>
        refine ⟨visits, _, visited_visitAll hvisits, fun limits => rfl⟩
    · rw [hctx] at hok
      cases hok

theorem finishDecision_outcome (snapshot : Snapshot W) {state state' : LoopState}
    (h : state.decisions = state'.decisions) :
    (finishDecision snapshot state).2 = (finishDecision snapshot state').2 ∧
      (finishDecision snapshot state).1.outcome = (finishDecision snapshot state').1.outcome ∧
      (finishDecision snapshot state).1.reason = (finishDecision snapshot state').1.reason := by
  unfold finishDecision
  rw [h]
  cases combine snapshot.algorithm state'.decisions with
  | error err => exact ⟨rfl, rfl, rfl⟩
  | ok decision => exact ⟨rfl, rfl, rfl⟩

theorem explained_finishDecision {snapshot : Snapshot W} {state : LoopState} {limits : Limits}
    {visits : List (Visit W)} (hok : (finishDecision snapshot state).2 = none)
    (h : Recorded limits visits state) :
    Explained limits visits (finishDecision snapshot state).1 := by
  unfold finishDecision at hok ⊢
  cases hcombine : combine snapshot.algorithm state.decisions with
  | error err => rw [hcombine] at hok; cases hok
  | ok decision => exact ⟨h.trace, h.traceTruncated, h.ids, h.idsTruncated⟩

/-- **The diagnostics are exact truncations.**  A decision without an error explains
the policies that were visited, cut at the limits; no limit decides what is
answered, and no slice is out of range. -/
theorem decide_explained {now : W → Time × W} {initial : Option (Snapshot W)}
    {options : List (EngineOption W)} {made : Engine W}
    (hnew : newEngine now initial options = .ok made) (snapshot : Snapshot W) (ctx : Context W)
    (request : Request) (w : W)
    (hok : ({ made with snapshot := snapshot }.decide ctx request w).err = none) :
    let engine := { made with snapshot := snapshot }
    (∃ visits, Visited ctx request snapshot.algorithm (engine.decisionTime ctx request w)
        snapshot.policies (engine.decisionWorld ctx request w) (engine.decide ctx request w).calls
        visits (engine.decide ctx request w).world ∧
      Explained engine.limits visits (engine.decide ctx request w).decision) ∧
    (∀ limits, ({ engine with limits := limits }.decide ctx request w).err = none ∧
      ({ engine with limits := limits }.decide ctx request w).decision.outcome
        = (engine.decide ctx request w).decision.outcome ∧
      ({ engine with limits := limits }.decide ctx request w).decision.reason
        = (engine.decide ctx request w).decision.reason) ∧
    InRange engine.limits := by
  intro engine
  obtain ⟨hsize, hcap⟩ := limits_of_newEngine hnew
  obtain ⟨visits, w', hvisited, hdecide⟩ := decide_eq_visits engine hok
  have hself : engine.decide ctx request w
      = ⟨(finishDecision snapshot (recordVisits engine.limits {} visits)).1,
          (finishDecision snapshot (recordVisits engine.limits {} visits)).2,
          (engine.decide ctx request w).calls, w'⟩ := hdecide engine.limits
  have herr : (finishDecision snapshot (recordVisits engine.limits {} visits)).2 = none :=
    (congrArg DecideResult.err hself).symm.trans hok
  have hdecision := congrArg DecideResult.decision hself
  dsimp only at hdecision
  have hworld : (engine.decide ctx request w).world = w' := congrArg DecideResult.world hself
  refine ⟨⟨visits, hworld ▸ hvisited, ?_⟩, fun limits => ?_, inRange_of_nonneg hsize.le⟩
  · rw [hdecision]
    exact explained_finishDecision herr
      ((recorded_nil hsize.le hcap.le).recordVisits hsize.le hcap.le visits)
  · have hsame : (recordVisits limits {} visits).decisions
        = (recordVisits engine.limits {} visits).decisions := by
      rw [recordVisits_decisions, recordVisits_decisions]
    obtain ⟨h₁, h₂, h₃⟩ := finishDecision_outcome snapshot hsame
    rw [hdecide limits, hdecision]
    exact ⟨h₁.trans herr, h₂, h₃⟩

/-- An expired policy, one that does not apply, an allowance and a denial, in an engine
with room for two trace entries and one identifier. -/
def explainingEngine : Engine Unit where
  snapshot := ⟨1, .firstApplicable, [answeringPolicy (str "old") .deny ⟨5, 0⟩,
    answeringPolicy (str "other") .notApplicable .zero, answeringPolicy (str "yes") .allow .zero,
    answeringPolicy (str "no") .deny .zero], revision_one_ne, firstApplicable_le, by decide⟩
  limits := ⟨1000, 1000, 2, 1⟩
  clock := fun w => (⟨7, 0⟩, w)

theorem decide_explained_stopping : ∃ request : Request,
    newEngine explainingEngine.clock (some explainingEngine.snapshot) [.withLimits ⟨0, 0, 2, 1⟩]
      = .ok explainingEngine ∧
    (explainingEngine.decide .background request ()).decision
      = { outcome := .allow, reason := str "yes", matchedPolicyIDs := [str "yes"], revision := 1
          trace := [⟨str "old", .notApplicable, reasonPolicyInactive⟩,
            ⟨str "other", .notApplicable, str "other"⟩]
          traceTruncated := true } ∧
    (explainingEngine.decide .background request ()).calls.map (fun call => call.policy.id)
      = [str "other", str "yes"] ∧
    ∃ visits, Visited .background request .firstApplicable
        (explainingEngine.decisionTime .background request ()) explainingEngine.snapshot.policies ()
        (explainingEngine.decide .background request ()).calls visits () ∧
      Explained explainingEngine.limits visits
        (explainingEngine.decide .background request ()).decision := by
  let request : Request := ⟨⟨str "user", str "u", [], ∅⟩, str "read", ⟨str "doc", [], ∅⟩, [], {}, ∅⟩
  have hnew : newEngine explainingEngine.clock (some explainingEngine.snapshot)
      [.withLimits ⟨0, 0, 2, 1⟩] = .ok explainingEngine := rfl
  refine ⟨request, hnew, by decide, by decide, ?_⟩
  exact (decide_explained hnew explainingEngine.snapshot .background request () (by decide)).1

end Authorization.Core
