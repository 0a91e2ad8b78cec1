import Authorization.Policy.Synchronizer

/-!
# Fail-closed composition

A request may pass through four boundaries: the engine, the synchronizer in
front of it, the decision service and the HTTP middleware.  Evaluators,
authorizers, contexts and clocks are arbitrary functions of the world, so they
may err, panic, lie or cancel at every call.  Each boundary denies whenever it
reports an error, and allows only on the evidence named here.
-/

namespace Authorization

open Authorization.Foundation Authorization.Core Authorization.Policy

variable {W : Type}

/-- A synchronizer that allows passed its freshness check and its engine
granted. -/
theorem Policy.Synchronizer.decide_allow {synchronizer : Synchronizer W} {ctx : Context W}
    {request : Request} {w : W} (h : (synchronizer.decide ctx request w).decision.outcome = .allow) :
    synchronizer.fresh (synchronizer.clock w).1 = true ∧
      synchronizer.decide ctx request w
        = synchronizer.engine.decide ctx request (synchronizer.clock w).2 := by
  unfold Synchronizer.decide at h ⊢
  dsimp only at h ⊢
  split at h
  · cases h
  · rename_i hfresh
    rw [if_neg hfresh]
    exact ⟨by simpa using hfresh, rfl⟩

theorem Policy.Synchronizer.decide_err {synchronizer : Synchronizer W} {ctx : Context W}
    {request : Request} {w : W} {err : GoError}
    (h : (synchronizer.decide ctx request w).err = some err) :
    (synchronizer.decide ctx request w).decision.outcome = .deny := by
  unfold Synchronizer.decide at h ⊢
  dsimp only at h ⊢
  split
  · rfl
  · rename_i hfresh
    rw [if_neg hfresh] at h
    exact Engine.decideWith_err h

/-- **Fail-closed composition.**  An error always comes with a deny, and an
allow always rests on an evaluator of the captured snapshot that allowed, on a
fresh verification, on an honest answer at the requested revision, and on a
mapped request, whichever boundary returns it. -/
theorem fail_closed {H : Type} (engine : Engine W) (synchronizer : Synchronizer W)
    (authorizer : Authorizer W) (mapper : H → W → Except GoError Request × W) (ctx : Context W)
    (serviceCtx : Option (Context W)) (request : Request) (decisionContext : DecisionContext)
    (httpRequest : H) (w : W) :
    -- an error denies
    ((engine.decide ctx request w).err.isSome →
      (engine.decide ctx request w).decision.outcome = .deny) ∧
    ((synchronizer.decide ctx request w).err.isSome →
      (synchronizer.decide ctx request w).decision.outcome = .deny) ∧
    ((serviceDecide authorizer serviceCtx decisionContext w).1.2.isSome →
      (serviceDecide authorizer serviceCtx decisionContext w).1.1.outcome = .deny) ∧
    -- the engine
    ((engine.decide ctx request w).decision.outcome = .allow →
      Granted engine ctx request engine.snapshot w (engine.decide ctx request w)) ∧
    -- the synchronizer
    ((synchronizer.decide ctx request w).decision.outcome = .allow →
      synchronizer.verifiedAt.isZero = false ∧
      (synchronizer.clock w).1.before synchronizer.verifiedAt = false ∧
      (synchronizer.clock w).1.sub synchronizer.verifiedAt ≤ synchronizer.maxStaleness ∧
      Granted synchronizer.engine ctx request synchronizer.engine.snapshot
        (synchronizer.clock w).2 (synchronizer.decide ctx request w)) ∧
    -- the decision service, over any authorizer
    ((serviceDecide authorizer serviceCtx decisionContext w).1.1.outcome = .allow →
      Admitted authorizer serviceCtx decisionContext w) ∧
    -- the HTTP middleware, over any authorizer
    (∀ decision, (serveHTTP authorizer mapper ctx httpRequest w).1 = .next decision →
      ∃ authorizationRequest w₁ w₂, mapper httpRequest w = (.ok authorizationRequest, w₁) ∧
        authorizer ctx authorizationRequest w₁ = (.returned decision none, w₂) ∧
        decision.outcome = .allow) := by
  refine ⟨?_, ?_, serviceDecide_err, Engine.decideWith_allow, ?_, serviceDecide_allow, ?_⟩
  · intro h
    obtain ⟨err, herr⟩ := Option.isSome_iff_exists.mp h
    exact Engine.decideWith_err herr
  · intro h
    obtain ⟨err, herr⟩ := Option.isSome_iff_exists.mp h
    exact Synchronizer.decide_err herr
  · intro h
    obtain ⟨hfresh, heq⟩ := Synchronizer.decide_allow h
    obtain ⟨hset, hbefore, hage⟩ := Synchronizer.fresh_iff.mp hfresh
    rw [heq] at h ⊢
    exact ⟨hset, hbefore, hage, Engine.decideWith_allow h⟩
  · intro decision h
    exact serveHTTP_next h

/-- An engine with an expired policy, one that does not apply and one that allows
everything. -/
def permissiveEngine : Engine Unit where
  snapshot := {
    revision := 1
    algorithm := .denyOverrides
    policies := [
      ⟨str "old", 1, 0, .zero, ⟨5, 0⟩, ∅, fun _ _ w => (.panicked, w)⟩,
      ⟨str "q", 1, 0, .zero, .zero, ∅, fun _ _ w => (.returned { reason := str "other" } none, w)⟩,
      ⟨str "p", 1, 0, .zero, .zero, ∅, fun _ _ w => (.returned { outcome := .allow } none, w)⟩]
    revision_ne := revision_one_ne
    algorithm_le := denyOverrides_le
    ids_nodup := by decide }
  limits := {}
  clock := fun w => (⟨5, 0⟩, w)

/-- The engine, the synchronizer and the service can all allow, after a call that does
not apply. -/
theorem fail_closed_allow :
    let engine := permissiveEngine
    let synchronizer : Synchronizer Unit :=
      { repository := ⟨fun _ w => (.error (.foreign []), w)⟩, compiler := ⟨∅, {}⟩
        engine := engine, maxStaleness := 10, clock := fun w => (⟨7, 0⟩, w), verifiedAt := ⟨3, 0⟩ }
    let request : Request := ⟨⟨str "user", str "u", [], ∅⟩, str "read", ⟨str "doc", [], ∅⟩, [], {}, ∅⟩
    let service : DecisionContext := ⟨request, [], 1⟩
    (engine.decide .background request ()).calls.map (fun call => (call.policy.id, call.result))
        = [(str "q", .returned { reason := str "other" } none),
          (str "p", .returned { outcome := .allow } none)] ∧
      Granted engine .background request engine.snapshot ()
        (engine.decide .background request ()) ∧
      Granted engine .background request engine.snapshot ()
        (synchronizer.decide .background request ()) ∧
      Admitted engine.authorizer (some .background) service () := by
  intro engine synchronizer request service
  have h := fail_closed engine synchronizer engine.authorizer
    (fun (_ : Unit) w => (.ok request, w)) .background (some .background) request service () ()
  exact ⟨by decide, h.2.2.2.1 (by decide), (h.2.2.2.2.1 (by decide)).2.2.2,
    h.2.2.2.2.2.1 (by decide)⟩

end Authorization
