import Authorization.Core.Service

/-!
# Observed decisions

`instrumentation.go`.  `Instrumented` is an authorizer around an authorizer: it reads a
clock, starts an observation, asks the authorizer inside and finishes the observation
with an `Event`.  The clock, the start and the finish belong to the application and may
panic; those panics are recovered, one of the authorizer is not.  An instrumented
authorizer is an authorizer again, so they are nested: `nest` makes one around another.

The call of a nest is a recursion (`stack`).  `enter` and `unwind` say what it comes to:
all observers are started from the outside in, the authorizer is asked once, and the
observers that have something to finish with are finished from the inside out
(`stack_eq`).

What the observers are shown is kept beside the result, as the calls of an engine are.
-/

namespace Authorization.Core

open Authorization.Foundation

variable {W : Type}

/-! ### Events and observers -/

structure Event where
  outcome : Outcome
  reason : ReasonCode
  revision : Revision
  matchedPolicyIDs : List PolicyID
  matchedPolicyIDsTruncated : Bool
  traceCount : Nat
  traceTruncated : Bool
  duration : Duration
  failed : Bool
deriving DecidableEq, Repr

/-- The event `Decide` makes of what the authorizer returned. -/
def newEvent (maxPolicyIDs : Int) (decision : Decision) (err : Option GoError)
    (duration : Duration) : Event :=
  let matched := decision.matchedPolicyIDs
  let matchedCount : Int := min (matched.length : Int) maxPolicyIDs
  let cut : Bool := decide (matchedCount ≠ matched.length)
  { outcome := decision.outcome, reason := decision.reason, revision := decision.revision
    matchedPolicyIDs := if cut then matched.take matchedCount.toNat else matched
    matchedPolicyIDsTruncated := if cut then true else decision.matchedPolicyIDsTruncated
    traceCount := decision.trace.length, traceTruncated := decision.traceTruncated
    duration := duration, failed := err.isSome }

/-- A finish callback; `false` is a panic. -/
abbrev Finish (W : Type) := Event → W → Bool × W

/-- An `Instrumenter`.  Its `Start` may panic, which is `none`, and may return a nil
context and a nil callback; `id` tells the instrumenters apart. -/
structure Instrumenter (W : Type) where
  id : Nat
  start : Context W → W → Option (Option (Context W) × Option (Finish W)) × W

/-- What an observer is shown. -/
inductive Observation
  | started (id : Nat)
  | finished (id : Nat) (event : Event)
deriving DecidableEq, Repr

/-- `safeInstrumentationNow`; a clock that panics gives `none`. -/
def safeInstrumentationNow (clock : W → Option Time × W) (fallback : Time) (w : W) : Time × W :=
  match clock w with
  | (some now, w) => (now, w)
  | (none, w) => (fallback, w)

/-- `safeInstrumentationStart`. -/
def safeInstrumentationStart (instrumenter : Instrumenter W) (ctx : Context W) (w : W) :
    (Context W × Option (Finish W)) × W :=
  match instrumenter.start ctx w with
  | (none, w) => ((ctx, none), w)
  | (some (candidate, callback), w) => ((candidate.getD ctx, callback), w)

/-- `safeInstrumentationFinish`. -/
def safeInstrumentationFinish (finish : Option (Finish W)) (event : Event) (w : W) : W :=
  match finish with
  | none => w
  | some callback => (callback event w).2

/-- An `Instrumented` without the authorizer inside. -/
structure Instrumentation (W : Type) where
  instrumenter : Instrumenter W
  clock : W → Option Time × W
  maxPolicyIDs : Int
  positive : 0 < maxPolicyIDs

/-! ### The decorator -/

/-- What a call came back with, and what the observers were shown meanwhile. -/
structure ObservedResult (W : Type) where
  result : CallResult
  observations : List Observation
  world : W

abbrev ObservedAuthorizer (W : Type) := Context W → Request → W → ObservedResult W

/-- An authorizer that nobody observes. -/
def Authorizer.observed (authorizer : Authorizer W) : ObservedAuthorizer W := fun ctx request w =>
  ⟨(authorizer ctx request w).1, [], (authorizer ctx request w).2⟩

/-- The authorizer alone. -/
def ObservedAuthorizer.authorizer (observed : ObservedAuthorizer W) : Authorizer W :=
  fun ctx request w => ((observed ctx request w).result, (observed ctx request w).world)

structure Instrumented (W : Type) extends Instrumentation W where
  authorizer : ObservedAuthorizer W

/-- `Instrumented.Decide`. -/
def Instrumented.decide (instrumented : Instrumented W) (ctx : Context W) (request : Request)
    (w : W) : ObservedResult W :=
  let id := instrumented.instrumenter.id
  let (started, w) := safeInstrumentationNow instrumented.clock .zero w
  let ((next, finish), w) := safeInstrumentationStart instrumented.instrumenter ctx w
  let inner := instrumented.authorizer next request w
  match inner.result with
  | .panicked => ⟨.panicked, .started id :: inner.observations, inner.world⟩
  | .returned decision err =>
    let (finished, w) := safeInstrumentationNow instrumented.clock started inner.world
    let duration := max (finished.sub started) 0
    let event := newEvent instrumented.maxPolicyIDs decision err duration
    ⟨.returned decision err,
      .started id :: inner.observations ++
        (if finish.isSome then [.finished id event] else []),
      safeInstrumentationFinish finish event w⟩

/-- The authorizer a nest is, the first observer of the list outermost. -/
def stack : List (Instrumentation W) → ObservedAuthorizer W → ObservedAuthorizer W
  | [], authorizer => authorizer
  | observer :: rest, authorizer =>
    ({ toInstrumentation := observer, authorizer := stack rest authorizer } : Instrumented W).decide

/-- An observer that was started. -/
structure Layer (W : Type) where
  observer : Instrumentation W
  started : Time
  finish : Option (Finish W)

/-- Where a nest stands when its authorizer is asked; the innermost layer is first. -/
structure Entry (W : Type) where
  ctx : Context W
  world : W
  layers : List (Layer W)

/-- Starts the observers one after another. -/
def enter : List (Instrumentation W) → Context W → W → Entry W
  | [], ctx, w => ⟨ctx, w, []⟩
  | observer :: rest, ctx, w =>
    let now := safeInstrumentationNow observer.clock .zero w
    let start := safeInstrumentationStart observer.instrumenter ctx now.2
    let entry := enter rest start.1.1 start.2
    { entry with layers := entry.layers ++ [⟨observer, now.1, start.1.2⟩] }

/-- The event that finishes a layer. -/
def Layer.event (layer : Layer W) (decision : Decision) (err : Option GoError) (w : W) : Event :=
  newEvent layer.observer.maxPolicyIDs decision err
    (max ((safeInstrumentationNow layer.observer.clock layer.started w).1.sub layer.started) 0)

/-- **The event of a decision**: all of it but the identifiers and the trace entries
beyond their counts. -/
structure Event.Reports (event : Event) (maxPolicyIDs : Int) (decision : Decision)
    (err : Option GoError) : Prop where
  outcome : event.outcome = decision.outcome
  reason : event.reason = decision.reason
  revision : event.revision = decision.revision
  matched : event.matchedPolicyIDs = decision.matchedPolicyIDs.take maxPolicyIDs.toNat
  /-- Identifiers are missing from the event or were missing before. -/
  truncated : event.matchedPolicyIDsTruncated = true ↔
    decision.matchedPolicyIDsTruncated = true ∨
      event.matchedPolicyIDs.length < decision.matchedPolicyIDs.length
  traceCount : event.traceCount = decision.trace.length
  traceTruncated : event.traceTruncated = decision.traceTruncated
  duration : 0 ≤ event.duration
  failed : event.failed = true ↔ err ≠ none

/-- The layers whose start returned a callback. -/
def pending (layers : List (Layer W)) : List (Layer W) := layers.filter fun layer =>
  layer.finish.isSome

end Authorization.Core
