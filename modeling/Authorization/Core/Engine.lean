import Authorization.Core.Snapshot

/-!
# The engine

`engine.go`.  `Engine.decideWith` is the source's unexported `decide`: it
validates the request, then visits the policies of one captured snapshot until
the combining algorithm is decided.  The loop is written out as it stands, with
its accumulators in `LoopState`; the only addition is the list of evaluator
calls it made (`LoopResult.calls`), which the source does not keep and the
statements about it need.

A visit either fails with a decision and an error, or yields a decision with a
valid outcome; `visitPolicy_ok` and `visitPolicy_error` say which, and
`decideLoop_ok` and `decideLoop_error` carry that through the loop.
-/

namespace Authorization.Core

open Authorization.Foundation

/-! ### Limits and construction -/

structure Limits where
  maxBatchSize : Int := 1000
  maxPolicies : Int := 1000
  maxTraceSize : Int := 100
  maxMatchedPolicyIDs : Int := 100
deriving DecidableEq, Repr

/-- `WithLimits`. -/
def Limits.withLimits (override current : Limits) : Limits where
  maxBatchSize := overrideLimit override.maxBatchSize current.maxBatchSize
  maxPolicies := overrideLimit override.maxPolicies current.maxPolicies
  maxTraceSize := overrideLimit override.maxTraceSize current.maxTraceSize
  maxMatchedPolicyIDs := overrideLimit override.maxMatchedPolicyIDs current.maxMatchedPolicyIDs

/-- An engine with the snapshot its atomic pointer holds. -/
structure Engine (W : Type) where
  snapshot : Snapshot W
  limits : Limits
  clock : W → Time × W

inductive EngineOption (W : Type)
  | withLimits (limits : Limits)
  /-- `none` is a nil clock, which is ignored. -/
  | withClock (clock : Option (W → Time × W))

variable {W : Type}

def EngineOption.apply (engine : Engine W) : EngineOption W → Engine W
  | .withLimits limits => { engine with limits := limits.withLimits engine.limits }
  | .withClock (some clock) => { engine with clock := clock }
  | .withClock none => engine

/-- `NewEngine`; `now` is `time.Now`. -/
def newEngine (now : W → Time × W) (snapshot : Option (Snapshot W))
    (options : List (EngineOption W)) : Except GoError (Engine W) :=
  match snapshot with
  | none => .error (.sentinel .errNilSnapshot)
  | some snapshot =>
    let engine := options.foldl EngineOption.apply ⟨snapshot, {}, now⟩
    if engine.snapshot.policies.length > engine.limits.maxPolicies then
      .error (.sentinel .errPolicyLimitExceeded)
    else .ok engine

/-- `ReplaceSnapshot` run without interruption. -/
def Engine.replaceSnapshot (engine : Engine W) (next : Option (Snapshot W)) (expected : Revision) :
    Option GoError × Engine W :=
  match next with
  | none => (some (.sentinel .errNilSnapshot), engine)
  | some next =>
    if next.policies.length > engine.limits.maxPolicies then
      (some (.sentinel .errPolicyLimitExceeded), engine)
    else if engine.snapshot.revision ≠ expected then
      (some (.sentinel .errRevisionConflict), engine)
    else if next.revision ≤ engine.snapshot.revision then
      (some (.sentinel .errRevisionNotMonotonic), engine)
    else (none, { engine with snapshot := next })

/-- What a replacement that returns nil did. -/
theorem Engine.replaceSnapshot_eq_none {engine engine' : Engine W} {next : Snapshot W}
    {expected : Revision} (h : engine.replaceSnapshot (some next) expected = (none, engine')) :
    engine.snapshot.revision = expected ∧ engine.snapshot.revision < next.revision ∧
      engine' = { engine with snapshot := next } := by
  unfold Engine.replaceSnapshot at h
  dsimp only at h
  split at h
  · cases h
  · split at h
    · cases h
    · rename_i hexpected
      split at h
      · cases h
      · rename_i hnewer
        cases h
        exact ⟨not_not.mp hexpected, not_le.mp hnewer, rfl⟩

/-! ### Evaluation -/

/-- `evaluatePolicy`: a panic becomes `ErrPolicyPanic` with the zero decision. -/
def evaluatePolicy : CallResult → Decision × Option GoError
  | .returned decision err => (decision, err)
  | .panicked => ({}, some (.sentinel .errPolicyPanic))

def failureDecision (snapshot : Snapshot W) : Decision :=
  { outcome := .deny, reason := reasonEvaluationError, revision := snapshot.revision }

/-- The decision returned when the context is found cancelled. -/
def canceledDecision (snapshot : Snapshot W) : Decision :=
  { outcome := .deny, reason := reasonContextCanceled, revision := snapshot.revision }

open CombiningAlgorithm in
def isDecisive (algorithm : CombiningAlgorithm) (outcome : Outcome) : Bool :=
  (algorithm == denyOverrides && outcome == .deny) ||
    (algorithm == allowOverrides && outcome == .allow) ||
    ((algorithm == firstApplicable || algorithm == priorityOrder) && outcome != .notApplicable)

/-- The accumulators of the policy loop. -/
structure LoopState where
  decisions : List Decision := []
  matchedPolicyIDs : List PolicyID := []
  matchedPolicyIDsTruncated : Bool := false
  trace : List TraceEntry := []
  traceTruncated : Bool := false

/-- The trace entry of a visited policy, or the mark that it was dropped. -/
def LoopState.recordTrace (limits : Limits) (policyID : PolicyID) (decision : Decision)
    (state : LoopState) : LoopState :=
  if state.trace.length < limits.maxTraceSize then
    { state with trace := state.trace ++ [⟨policyID, decision.outcome, decision.reason⟩] }
  else { state with traceTruncated := true }

/-- The identifiers a decision reports, or else the policy's own. -/
def Decision.matchedOr (policyID : PolicyID) (decision : Decision) : List PolicyID :=
  if decision.matchedPolicyIDs = [] then [policyID] else decision.matchedPolicyIDs

/-- The matched identifiers of an applicable decision, cut at the limit. -/
def LoopState.recordMatched (limits : Limits) (policyID : PolicyID) (decision : Decision)
    (state : LoopState) : LoopState :=
  if decision.outcome ≠ .notApplicable then
    let ids := decision.matchedOr policyID
    let remaining := limits.maxMatchedPolicyIDs - state.matchedPolicyIDs.length
    if ids.length > remaining then
      { state with
        matchedPolicyIDs := state.matchedPolicyIDs ++ ids.take (max remaining 0).toNat
        matchedPolicyIDsTruncated := true }
    else
      { state with
        matchedPolicyIDs := state.matchedPolicyIDs ++ ids
        matchedPolicyIDsTruncated :=
          state.matchedPolicyIDsTruncated || decision.matchedPolicyIDsTruncated }
  else state

/-- The bookkeeping of one visited policy. -/
def LoopState.record (limits : Limits) (policyID : PolicyID) (decision : Decision)
    (state : LoopState) : LoopState :=
  (({ state with decisions := state.decisions ++ [decision] }.recordTrace limits policyID
    decision).recordMatched limits policyID decision)

/-- An evaluator call and what came back. -/
structure Call (W : Type) where
  policy : PolicyEntry W
  result : CallResult

/-- The decision recorded for a policy outside its window. -/
def inactiveDecision : Decision := { outcome := .notApplicable, reason := reasonPolicyInactive }

/-- The first half of the loop body: the context check, the evaluation and the
outcome check. -/
def visitPolicy (ctx : Context W) (request : Request) (snapshot : Snapshot W)
    (evaluationTime : Time) (policy : PolicyEntry W) (w : W) :
    Except (Decision × GoError) Decision × List (Call W) × W :=
  match ctx.err w with
  | (some err, w) => (.error (canceledDecision snapshot, err), [], w)
  | (none, w) =>
    if policy.activeAt evaluationTime then
      let (result, w) := policy.evaluator ctx request w
      match evaluatePolicy result with
      | (_, some err) =>
        (.error (failureDecision snapshot, .policyEvaluation policy.id err), [⟨policy, result⟩], w)
      | (decision, none) =>
        if decision.outcome > .deny then
          (.error (failureDecision snapshot, .sentinel .errInvalidOutcome), [⟨policy, result⟩], w)
        else (.ok decision, [⟨policy, result⟩], w)
    else (.ok inactiveDecision, [], w)

/-- What the policy loop ends with. -/
structure LoopResult (W : Type) where
  outcome : Except (Decision × GoError) LoopState
  calls : List (Call W)
  world : W

/-- The policy loop. -/
def decideLoop (limits : Limits) (ctx : Context W) (request : Request) (snapshot : Snapshot W)
    (evaluationTime : Time) : List (PolicyEntry W) → LoopState → W → LoopResult W
  | [], state, w => ⟨.ok state, [], w⟩
  | policy :: rest, state, w =>
    match visitPolicy ctx request snapshot evaluationTime policy w with
    | (.error failure, calls, w) => ⟨.error failure, calls, w⟩
    | (.ok decision, calls, w) =>
      let state := state.record limits policy.id decision
      if isDecisive snapshot.algorithm decision.outcome then ⟨.ok state, calls, w⟩
      else
        let tail := decideLoop limits ctx request snapshot evaluationTime rest state w
        { tail with calls := calls ++ tail.calls }

/-- What follows the loop: combination, default deny, diagnostics. -/
def finishDecision (snapshot : Snapshot W) (state : LoopState) : Decision × Option GoError :=
  match combine snapshot.algorithm state.decisions with
  | .error err => (failureDecision snapshot, some err)
  | .ok decision =>
    let decision := if decision.outcome = .notApplicable then
      { decision with outcome := .deny, reason := reasonDefaultDeny } else decision
    ({ decision with
        matchedPolicyIDs := state.matchedPolicyIDs
        matchedPolicyIDsTruncated := state.matchedPolicyIDsTruncated
        revision := snapshot.revision
        trace := state.trace
        traceTruncated := state.traceTruncated }, none)

/-- A decision, the evaluator calls behind it and the world after it. -/
structure DecideResult (W : Type) where
  decision : Decision
  err : Option GoError
  calls : List (Call W)
  world : W

/-- The time the request carries, or else one clock sample. -/
def evaluationTime (engine : Engine W) (request : Request) (w : W) : Time × W :=
  if request.environment.time.isZero then engine.clock w else (request.environment.time, w)

/-- `engine.decide(ctx, request, snapshot)`. -/
def Engine.decideWith (engine : Engine W) (ctx : Context W) (request : Request)
    (snapshot : Snapshot W) (w : W) : DecideResult W :=
  match request.validate with
  | some err =>
    ⟨{ outcome := .deny, reason := reasonInvalidRequest, revision := snapshot.revision },
      some err, [], w⟩
  | none =>
    match ctx.err w with
    | (some err, w) => ⟨canceledDecision snapshot, some err, [], w⟩
    | (none, w) =>
      let (time, w) := evaluationTime engine request w
      let loop := decideLoop engine.limits ctx request snapshot time snapshot.policies {} w
      match loop.outcome with
      | .error (decision, err) => ⟨decision, some err, loop.calls, loop.world⟩
      | .ok state =>
        let (decision, err) := finishDecision snapshot state
        ⟨decision, err, loop.calls, loop.world⟩

/-- `Engine.Decide`. -/
def Engine.decide (engine : Engine W) (ctx : Context W) (request : Request) (w : W) :
    DecideResult W :=
  engine.decideWith ctx request engine.snapshot w

/-- The loop of `DecideBatch`. -/
def Engine.decideAll (engine : Engine W) (ctx : Context W) (snapshot : Snapshot W) :
    List Request → W → List (DecideResult W) × W
  | [], w => ([], w)
  | request :: rest, w =>
    let result := engine.decideWith ctx request snapshot w
    let (results, w) := engine.decideAll ctx snapshot rest result.world
    (result :: results, w)

/-- `Engine.DecideBatch`: the decisions, nil for an oversize batch, and the
joined error. -/
def Engine.decideBatch (engine : Engine W) (ctx : Context W) (requests : List Request) (w : W) :
    Option (List Decision) × Option GoError × W :=
  if requests.length > engine.limits.maxBatchSize then
    (none, some (.sentinel .errBatchLimitExceeded), w)
  else
    let (results, w) := engine.decideAll ctx engine.snapshot requests w
    (some (results.map DecideResult.decision),
      GoError.join (results.filterMap DecideResult.err), w)

/-! ### What a visit can do -/

section Visit

variable {ctx : Context W} {request : Request} {snapshot : Snapshot W} {time : Time}
  {policy : PolicyEntry W}

/-- A call that came back with a decision and no error, outcome valid. -/
def Call.Good (call : Call W) (decision : Decision) : Prop :=
  call.result = .returned decision none ∧ decision.outcome ≤ .deny

/-- The result is what the policy's evaluator returned for the request. -/
def Call.Made (ctx : Context W) (request : Request) (call : Call W) : Prop :=
  ∃ w, (call.policy.evaluator ctx request w).1 = call.result

/-- **The calls of a run over some policies.**  The context is checked before each
policy, and each active one is called in the world that what came before left. -/
inductive Ran (ctx : Context W) (request : Request) (time : Time) :
    List (PolicyEntry W) → W → List (Call W) → W → Prop
  | nil (w : W) : Ran ctx request time [] w [] w
  | skipped {policy : PolicyEntry W} {rest : List (PolicyEntry W)} {calls : List (Call W)}
      {w w₁ w' : W} (checked : ctx.err w = (none, w₁)) (inactive : policy.activeAt time = false)
      (others : Ran ctx request time rest w₁ calls w') :
      Ran ctx request time (policy :: rest) w calls w'
  | called {policy : PolicyEntry W} {rest : List (PolicyEntry W)} {calls : List (Call W)}
      {result : CallResult} {w w₁ w₂ w' : W} (checked : ctx.err w = (none, w₁))
      (active : policy.activeAt time = true)
      (answered : policy.evaluator ctx request w₁ = (result, w₂))
      (others : Ran ctx request time rest w₂ calls w') :
      Ran ctx request time (policy :: rest) w (⟨policy, result⟩ :: calls) w'

theorem Ran.made {policies : List (PolicyEntry W)} {calls : List (Call W)} {w w' : W}
    (h : Ran ctx request time policies w calls w') : ∀ call ∈ calls, call.Made ctx request := by
  induction h with
  | nil w => exact fun _ hcall => absurd hcall List.not_mem_nil
  | skipped _ _ _ ih => exact ih
  | called _ _ answered _ ih =>
    exact List.forall_mem_cons.mpr ⟨⟨_, congrArg Prod.fst answered⟩, ih⟩

/-- **A visit that goes on** either skipped an inactive policy or called an
active one, which returned the decision without an error. -/
theorem visitPolicy_ok {w w' : W} {decision : Decision} {calls : List (Call W)}
    (h : visitPolicy ctx request snapshot time policy w = (.ok decision, calls, w')) :
    (policy.activeAt time = false ∧ decision = inactiveDecision ∧ calls = []) ∨
      (policy.activeAt time = true ∧
        ∃ call : Call W, call.policy = policy ∧ call.Good decision ∧ calls = [call]) := by
  unfold visitPolicy at h
  split at h
  · cases h
  · split at h
    · rename_i hactive
      generalize policy.evaluator ctx request _ = answer at h
      obtain ⟨result, w₁⟩ := answer
      cases result with
      | panicked => cases h
      | returned d err =>
        cases err with
        | some e => cases h
        | none =>
          simp only [evaluatePolicy] at h
          split at h
          · cases h
          · rename_i hle
            simp only [Prod.mk.injEq, Except.ok.injEq] at h
            obtain ⟨rfl, rfl, rfl⟩ := h
            exact Or.inr ⟨hactive, ⟨policy, .returned d none⟩, rfl, ⟨rfl, not_lt.mp hle⟩, rfl⟩
    · rename_i hactive
      simp only [Prod.mk.injEq, Except.ok.injEq] at h
      obtain ⟨rfl, rfl, rfl⟩ := h
      exact Or.inl ⟨by simpa using hactive, rfl, rfl⟩

/-- A visit that goes on is one more step of a run. -/
theorem visitPolicy_ran {w w₁ : W} {decision : Decision} {calls : List (Call W)}
    (h : visitPolicy ctx request snapshot time policy w = (.ok decision, calls, w₁))
    {rest : List (PolicyEntry W)} {others : List (Call W)} {w' : W}
    (hrest : Ran ctx request time rest w₁ others w') :
    Ran ctx request time (policy :: rest) w (calls ++ others) w' := by
  unfold visitPolicy at h
  split at h
  · cases h
  · rename_i w₀ hctx
    split at h
    · rename_i hactive
      generalize hanswer : policy.evaluator ctx request w₀ = answer at h
      obtain ⟨⟨answer, _ | err⟩ | _, w₂⟩ := answer
      · dsimp only [evaluatePolicy] at h
        split at h
        · cases h
        · cases h
          exact .called hctx hactive hanswer hrest
      · cases h
      · cases h
    · rename_i hactive
      cases h
      exact .skipped hctx (Bool.eq_false_of_not_eq_true hactive) hrest

/-- A visit that stops denies. -/
theorem visitPolicy_error {w w' : W} {failure : Decision × GoError} {calls : List (Call W)}
    (h : visitPolicy ctx request snapshot time policy w = (.error failure, calls, w')) :
    failure.1.outcome = .deny := by
  unfold visitPolicy at h
  split at h
  · simp only [Prod.mk.injEq, Except.error.injEq] at h
    rw [← h.1]; rfl
  · split at h
    · generalize policy.evaluator ctx request _ = answer at h
      obtain ⟨result, w₁⟩ := answer
      dsimp only at h
      split at h
      · simp only [Prod.mk.injEq, Except.error.injEq] at h
        rw [← h.1]; rfl
      · split at h
        · simp only [Prod.mk.injEq, Except.error.injEq] at h
          rw [← h.1]; rfl
        · cases h
    · cases h

/-- A decision that was recorded came from a policy of the list: one outside its
window, or one that was called and answered without an error. -/
def Answered (time : Time) (policies : List (PolicyEntry W)) (calls : List (Call W))
    (decision : Decision) : Prop :=
  decision = inactiveDecision ∨
    ∃ call ∈ calls, call.policy ∈ policies ∧ call.policy.activeAt time = true ∧ call.Good decision

theorem Answered.mono {policies policies' : List (PolicyEntry W)} {calls calls' : List (Call W)}
    {decision : Decision} (h : Answered time policies calls decision)
    (hp : policies ⊆ policies') (hc : calls ⊆ calls') : Answered time policies' calls' decision := by
  rcases h with h | ⟨call, hm, hpol, hact, hgood⟩
  · exact Or.inl h
  · exact Or.inr ⟨call, hc hm, hp hpol, hact, hgood⟩

@[simp] theorem LoopState.recordTrace_decisions (limits : Limits) (id : PolicyID)
    (decision : Decision) (state : LoopState) :
    (state.recordTrace limits id decision).decisions = state.decisions := by
  unfold recordTrace
  split <;> rfl

@[simp] theorem LoopState.recordMatched_decisions (limits : Limits) (id : PolicyID)
    (decision : Decision) (state : LoopState) :
    (state.recordMatched limits id decision).decisions = state.decisions := by
  unfold recordMatched
  split
  · dsimp only
    split <;> rfl
  · rfl

@[simp] theorem LoopState.record_decisions (limits : Limits) (id : PolicyID) (decision : Decision)
    (state : LoopState) :
    (state.record limits id decision).decisions = state.decisions ++ [decision] := by
  rw [record, recordMatched_decisions, recordTrace_decisions]

/-- **A loop that ends normally** called only policies of its list, each call
came back good, and every decision it recorded was answered. -/
theorem decideLoop_ok {limits : Limits} : ∀ {policies : List (PolicyEntry W)} {state state' : LoopState}
    {w : W}, (decideLoop limits ctx request snapshot time policies state w).outcome = .ok state' →
    (∀ call ∈ (decideLoop limits ctx request snapshot time policies state w).calls,
      ∃ decision, call.Good decision) ∧
    ∀ decision ∈ state'.decisions, decision ∈ state.decisions ∨
      Answered time policies (decideLoop limits ctx request snapshot time policies state w).calls
        decision := by
  intro policies
  induction policies with
  | nil =>
    intro state state' w h
    rw [decideLoop] at h ⊢
    cases h
    exact ⟨by simp, fun _ hd => Or.inl hd⟩
  | cons policy rest ih =>
    intro state state' w h
    rw [decideLoop] at h ⊢
    cases hv : visitPolicy ctx request snapshot time policy w with
    | mk outcome tail =>
      obtain ⟨calls, w'⟩ := tail
      cases outcome with
      | error failure => rw [hv] at h; cases h
      | ok decision =>
        -- the visited policy answered, whichever way its visit went
        have hans : Answered time (policy :: rest) calls decision := by
          rcases visitPolicy_ok hv with ⟨_, rfl, _⟩ | ⟨hact, call, rfl, hgood, rfl⟩
          · exact Or.inl rfl
          · exact Or.inr ⟨call, by simp, by simp, hact, hgood⟩
        have hcalls : ∀ call ∈ calls, ∃ decision, call.Good decision := by
          rcases visitPolicy_ok hv with ⟨_, _, rfl⟩ | ⟨_, call, _, hgood, rfl⟩
          · simp
          · intro c hc
            rw [List.mem_singleton] at hc
            subst hc
            exact ⟨_, hgood⟩
        rw [hv] at h
        dsimp only at h ⊢
        split at h
        · rename_i hdec
          rw [if_pos hdec]
          cases h
          refine ⟨hcalls, fun d hd => ?_⟩
          rw [LoopState.record_decisions, List.mem_append, List.mem_singleton] at hd
          rcases hd with hd | rfl
          · exact Or.inl hd
          · exact Or.inr hans
        · rename_i hdec
          rw [if_neg hdec]
          obtain ⟨hc, hd⟩ := ih h
          refine ⟨fun call hm => ?_, fun d hm => ?_⟩
          · rcases List.mem_append.mp hm with hm | hm
            · exact hcalls call hm
            · exact hc call hm
          · rcases hd d hm with hm | hm
            · rw [LoopState.record_decisions, List.mem_append, List.mem_singleton] at hm
              rcases hm with hm | rfl
              · exact Or.inl hm
              · exact Or.inr (hans.mono (List.Subset.refl _) (List.subset_append_left _ _))
            · exact Or.inr (hm.mono (List.subset_cons_self _ _) (List.subset_append_right _ _))

/-- **A loop that ends normally** ran over the first policies of its list. -/
theorem decideLoop_ran {limits : Limits} : ∀ {policies : List (PolicyEntry W)}
    {state state' : LoopState} {w : W},
    (decideLoop limits ctx request snapshot time policies state w).outcome = .ok state' →
    ∃ visited, visited <+: policies ∧ Ran ctx request time visited w
      (decideLoop limits ctx request snapshot time policies state w).calls
      (decideLoop limits ctx request snapshot time policies state w).world := by
  intro policies
  induction policies with
  | nil => exact fun {_ _ w} _ => ⟨[], List.prefix_rfl, .nil w⟩
  | cons policy rest ih =>
    intro state state' w h
    rw [decideLoop] at h ⊢
    rcases hv : visitPolicy ctx request snapshot time policy w with ⟨failure | decision, calls, w₁⟩
    · rw [hv] at h
      cases h
    · rw [hv] at h
      dsimp only at h ⊢
      split at h
      · rename_i hdecisive
        rw [if_pos hdecisive]
        have hran := visitPolicy_ran hv (.nil w₁)
        rw [List.append_nil] at hran
        exact ⟨[policy], ⟨rest, rfl⟩, hran⟩
      · rename_i hdecisive
        rw [if_neg hdecisive]
        obtain ⟨visited, hprefix, hran⟩ := ih h
        exact ⟨policy :: visited, (List.prefix_cons_inj policy).mpr hprefix,
          visitPolicy_ran hv hran⟩

/-- A loop that stops denies. -/
theorem decideLoop_error {limits : Limits} : ∀ {policies : List (PolicyEntry W)} {state : LoopState}
    {failure : Decision × GoError} {w : W},
    (decideLoop limits ctx request snapshot time policies state w).outcome = .error failure →
    failure.1.outcome = .deny := by
  intro policies
  induction policies with
  | nil => intro state failure w h; rw [decideLoop] at h; cases h
  | cons policy rest ih =>
    intro state failure w h
    rw [decideLoop] at h
    cases hv : visitPolicy ctx request snapshot time policy w with
    | mk outcome tail =>
      obtain ⟨calls, w'⟩ := tail
      rw [hv] at h
      cases outcome with
      | error failure' =>
        injection h with h
        subst h
        exact visitPolicy_error hv
      | ok decision =>
        dsimp only at h
        split at h
        · cases h
        · exact ih h

end Visit

/-! ### What a decision rests on -/

/-- The time at which a decision looks at the activation windows. -/
def Engine.decisionTime (engine : Engine W) (ctx : Context W) (request : Request) (w : W) : Time :=
  (evaluationTime engine request (ctx.err w).2).1

/-- The world in which a decision begins to visit the policies. -/
def Engine.decisionWorld (engine : Engine W) (ctx : Context W) (request : Request) (w : W) : W :=
  (evaluationTime engine request (ctx.err w).2).2

/-- **What an allow needs**: the request is valid, the calls are those of a run over
the first policies of the snapshot, each evaluator returned what is noted of it, some
active policy was called and allowed, and no call went wrong. -/
structure Granted (engine : Engine W) (ctx : Context W) (request : Request) (snapshot : Snapshot W)
    (w : W) (result : DecideResult W) : Prop where
  valid : request.validate = none
  ran : ∃ visited, visited <+: snapshot.policies ∧
    Ran ctx request (engine.decisionTime ctx request w) visited
      (engine.decisionWorld ctx request w) result.calls result.world
  made : ∀ call ∈ result.calls, call.Made ctx request
  allowed : ∃ call ∈ result.calls, ∃ decision, call.policy ∈ snapshot.policies ∧
    call.policy.activeAt (engine.decisionTime ctx request w) = true ∧
    call.Good decision ∧ decision.outcome = .allow
  good : ∀ call ∈ result.calls, ∃ decision, call.Good decision

theorem finishDecision_err {snapshot : Snapshot W} {state : LoopState} {err : GoError}
    (h : (finishDecision snapshot state).2 = some err) :
    (finishDecision snapshot state).1.outcome = .deny := by
  unfold finishDecision at h ⊢
  split
  · rfl
  · rename_i hc
    rw [hc] at h
    cases h

/-- An allow after the loop is the outcome of a recorded decision. -/
theorem finishDecision_allow {snapshot : Snapshot W} {state : LoopState}
    (h : (finishDecision snapshot state).1.outcome = .allow) :
    ∃ decision ∈ state.decisions, decision.outcome = .allow := by
  unfold finishDecision at h
  split at h
  · cases h
  · rename_i decision hc
    by_cases hna : decision.outcome = .notApplicable
    · rw [if_pos hna] at h
      cases h
    · rw [if_neg hna] at h
      exact ⟨decision, mem_of_combine hc hna, h⟩

theorem Engine.decideWith_err {engine : Engine W} {ctx : Context W} {request : Request}
    {snapshot : Snapshot W} {w : W} {err : GoError}
    (h : (engine.decideWith ctx request snapshot w).err = some err) :
    (engine.decideWith ctx request snapshot w).decision.outcome = .deny := by
  unfold decideWith at h ⊢
  split
  · rfl
  · rename_i hvalid
    rw [hvalid] at h
    dsimp only at h
    split
    · rfl
    · rename_i w₁ hctx
      rw [hctx] at h
      dsimp only at h ⊢
      split
      · rename_i failure err' hloop
        exact decideLoop_error hloop
      · rename_i state hloop
        rw [hloop] at h
        exact finishDecision_err h

theorem Engine.decideWith_allow {engine : Engine W} {ctx : Context W} {request : Request}
    {snapshot : Snapshot W} {w : W}
    (h : (engine.decideWith ctx request snapshot w).decision.outcome = .allow) :
    Granted engine ctx request snapshot w (engine.decideWith ctx request snapshot w) := by
  unfold decideWith at h ⊢
  split at h
  · cases h
  · rename_i hvalid
    split at h
    · cases h
    · rename_i w₁ hctx
      dsimp only at h ⊢
      split at h
      · rename_i decision err' hloop
        -- a loop that stopped early denied
        have hdeny := decideLoop_error hloop
        rw [show decision.outcome = .allow from h] at hdeny
        cases hdeny
      · rename_i state hloop
        obtain ⟨hcalls, hstate⟩ := decideLoop_ok hloop
        obtain ⟨visited, hprefix, hran⟩ := decideLoop_ran hloop
        obtain ⟨decision, hmem, hallow⟩ := finishDecision_allow h
        have htime : (evaluationTime engine request w₁).1 = engine.decisionTime ctx request w := by
          rw [decisionTime, hctx]
        have hworld : (evaluationTime engine request w₁).2 = engine.decisionWorld ctx request w := by
          rw [decisionWorld, hctx]
        rcases hstate decision hmem with hm | hm | ⟨call, hm, hpol, hact, hgood⟩
        · cases hm
        · rw [hm] at hallow; cases hallow
        · rw [htime] at hact
          refine ⟨hvalid, ⟨visited, hprefix, ?_⟩, hran.made,
            ⟨call, hm, decision, hpol, hact, hgood, hallow⟩, hcalls⟩
          rw [← htime, ← hworld]
          exact hran

end Authorization.Core
