import Authorization.Core.Engine
import Authorization.Foundation.Utf8

/-!
# The decision boundaries

Two places hand a decision to an application: the revision-fenced service of
`decision_service.go`, and the middleware of `adapters/http`.  Both call an
authorizer they do not trust, which may return anything or panic.  The service
recovers from a panic; the middleware does not, and a panic leaves it before
any handler has run.

The copies the service makes of requests and decisions are copies of values,
so they do not appear.
-/

namespace Authorization.Core

open Authorization.Foundation

variable {W : Type}

/-- `Authorizer.Decide`, which may also panic. -/
abbrev Authorizer (W : Type) := Context W → Request → W → CallResult × W

/-- The engine as an authorizer. -/
def Engine.authorizer (engine : Engine W) : Authorizer W := fun ctx request w =>
  let result := engine.decide ctx request w
  (.returned result.decision result.err, result.world)

/-! ### The decision service -/

structure DecisionContext where
  request : Request
  correlationID : Bytes := []
  policyRevision : Revision

def DecisionContext.validate (decisionContext : DecisionContext) : Option GoError :=
  match decisionContext.request.validate with
  | some err => some err
  | none =>
    if decisionContext.policyRevision = 0 then some (.sentinel .errInvalidRevision)
    else if decisionContext.correlationID.length > 128 ||
        !Utf8.valid decisionContext.correlationID then
      some (.validation (str "decision.correlation"))
    else none

/-- The decision the service returns with every error. -/
def deniedDecision (revision : Revision) : Decision :=
  { outcome := .deny, reason := reasonEvaluationError, revision := revision }

/-- What the service makes of an authorizer's answer once the context was read
again. -/
def admitDecision (revision : Revision) (result : Decision) (err : Option GoError) :
    Decision × Option GoError :=
  if err.isSome then (deniedDecision revision, some (.sentinel .errDecisionUnavailable))
  else if result.revision ≠ revision then
    ({ deniedDecision revision with reason := reasonPolicyStale },
      some (.sentinel .errRevisionConflict))
  else if result.outcome ≠ .allow ∧ result.outcome ≠ .deny then
    (deniedDecision revision, some (.sentinel .errInvalidOutcome))
  else (result, none)

/-- `decisionService.Decide`; a nil context is `none`. -/
def serviceDecide (authorizer : Authorizer W) (ctx : Option (Context W))
    (request : DecisionContext) (w : W) : (Decision × Option GoError) × W :=
  let denied := deniedDecision request.policyRevision
  match request.validate with
  | some err => ((denied, some err), w)
  | none =>
    match ctx with
    | none => ((denied, some (.sentinel .errInvalidRequest)), w)
    | some ctx =>
      match ctx.err w with
      | (some err, w) => ((denied, some err), w)
      | (none, w) =>
        match authorizer ctx request.request w with
        | (.panicked, w) => ((denied, some (.sentinel .errPolicyPanic)), w)
        | (.returned result err, w) =>
          match ctx.err w with
          | (some contextError, w) => ((denied, some contextError), w)
          | (none, w) => (admitDecision request.policyRevision result err, w)

theorem admitDecision_err {revision : Revision} {result : Decision} {err : Option GoError}
    (h : (admitDecision revision result err).2.isSome) :
    (admitDecision revision result err).1.outcome = .deny := by
  unfold admitDecision at h ⊢
  split
  · rfl
  · split
    · rfl
    · split
      · rfl
      · rename_i h1 h2 h3
        rw [if_neg h1, if_neg h2, if_neg h3] at h
        cases h

theorem admitDecision_allow {revision : Revision} {result : Decision} {err : Option GoError}
    (h : (admitDecision revision result err).1.outcome = .allow) :
    err = none ∧ result.revision = revision ∧ result.outcome = .allow := by
  unfold admitDecision at h
  split at h
  · cases h
  · rename_i herr
    split at h
    · cases h
    · rename_i hrev
      split at h
      · cases h
      · exact ⟨by simpa using herr, not_not.mp hrev, h⟩

theorem serviceDecide_err {authorizer : Authorizer W} {ctx : Option (Context W)}
    {request : DecisionContext} {w : W}
    (h : (serviceDecide authorizer ctx request w).1.2.isSome) :
    (serviceDecide authorizer ctx request w).1.1.outcome = .deny := by
  unfold serviceDecide at h ⊢
  dsimp only at h ⊢
  cases hvalid : request.validate with
  | some err => rfl
  | none =>
    rw [hvalid] at h
    cases ctx with
    | none => rfl
    | some ctx =>
      dsimp only at h ⊢
      rcases hbefore : ctx.err w with ⟨_ | err, w₁⟩
      · rw [hbefore] at h
        dsimp only at h ⊢
        rcases hcall : authorizer ctx request.request w₁ with ⟨⟨result, err⟩ | _, w₂⟩
        · rw [hcall] at h
          dsimp only at h ⊢
          rcases hafter : ctx.err w₂ with ⟨_ | err', w₃⟩
          · rw [hafter] at h
            exact admitDecision_err h
          · rfl
        · rfl
      · rfl

/-- **What an allow of the service needs**: a valid request and context, no
cancellation before or after, and an authorizer that allowed at the requested
revision without an error. -/
structure Admitted (authorizer : Authorizer W) (ctx : Option (Context W))
    (request : DecisionContext) (w : W) : Prop where
  valid : request.validate = none
  answered : ∃ ctx' w₁ w₂ w₃ decision, ctx = some ctx' ∧ ctx'.err w = (none, w₁) ∧
    authorizer ctx' request.request w₁ = (.returned decision none, w₂) ∧
    ctx'.err w₂ = (none, w₃) ∧ decision.outcome = .allow ∧
    decision.revision = request.policyRevision

theorem serviceDecide_allow {authorizer : Authorizer W} {ctx : Option (Context W)}
    {request : DecisionContext} {w : W}
    (h : (serviceDecide authorizer ctx request w).1.1.outcome = .allow) :
    Admitted authorizer ctx request w := by
  unfold serviceDecide at h
  dsimp only at h
  cases hvalid : request.validate with
  | some err => rw [hvalid] at h; cases h
  | none =>
    rw [hvalid] at h
    cases ctx with
    | none => cases h
    | some ctx =>
      dsimp only at h
      rcases hbefore : ctx.err w with ⟨_ | err, w₁⟩
      · rw [hbefore] at h
        dsimp only at h
        rcases hcall : authorizer ctx request.request w₁ with ⟨⟨result, err⟩ | _, w₂⟩
        · rw [hcall] at h
          dsimp only at h
          rcases hafter : ctx.err w₂ with ⟨_ | err', w₃⟩
          · rw [hafter] at h
            obtain ⟨rfl, hrev, hallow⟩ := admitDecision_allow h
            exact ⟨hvalid, ctx, w₁, w₂, w₃, result, rfl, hbefore, hcall, hafter, hallow, hrev⟩
          · rw [hafter] at h; cases h
        · rw [hcall] at h; cases h
      · rw [hbefore] at h; cases h

/-! ### The HTTP middleware -/

/-- The handler `NewHandler` gives the request to. -/
inductive Served
  | failed (err : GoError)
  | denied (decision : Decision)
  | next (decision : Decision)
  /-- The authorizer panicked: no handler was called. -/
  | panicked
deriving DecidableEq

/-- The handler of `NewHandler`.  `H` are the HTTP requests, `mapper` the
caller's request mapper. -/
def serveHTTP {H : Type} (authorizer : Authorizer W) (mapper : H → W → Except GoError Request × W)
    (ctx : Context W) (request : H) (w : W) : Served × W :=
  match mapper request w with
  | (.error err, w) => (.failed err, w)
  | (.ok authorizationRequest, w) =>
    match authorizer ctx authorizationRequest w with
    | (.panicked, w) => (.panicked, w)
    | (.returned _ (some err), w) => (.failed err, w)
    | (.returned decision none, w) =>
      if decision.outcome > .deny then (.failed (.sentinel .errInvalidOutcome), w)
      else if decision.outcome ≠ .allow then (.denied decision, w)
      else (.next decision, w)

/-- **What reaching the protected handler needs.** -/
theorem serveHTTP_next {H : Type} {authorizer : Authorizer W}
    {mapper : H → W → Except GoError Request × W} {ctx : Context W} {request : H} {w : W}
    {decision : Decision} (h : (serveHTTP authorizer mapper ctx request w).1 = .next decision) :
    ∃ authorizationRequest w₁ w₂, mapper request w = (.ok authorizationRequest, w₁) ∧
      authorizer ctx authorizationRequest w₁ = (.returned decision none, w₂) ∧
      decision.outcome = .allow := by
  unfold serveHTTP at h
  rcases hmap : mapper request w with ⟨err | authorizationRequest, w₁⟩
  · rw [hmap] at h; cases h
  · rw [hmap] at h
    dsimp only at h
    rcases hcall : authorizer ctx authorizationRequest w₁ with ⟨⟨result, _ | err⟩ | _, w₂⟩
    · rw [hcall] at h
      dsimp only at h
      split at h
      · cases h
      · split at h
        · cases h
        · rename_i hallow
          injection h with h
          subst h
          exact ⟨authorizationRequest, w₁, w₂, rfl, hcall, not_not.mp hallow⟩
    · rw [hcall] at h; cases h
    · rw [hcall] at h; cases h

end Authorization.Core
