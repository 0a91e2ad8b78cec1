import Authorization.Core.Request
import Authorization.Core.Decision

/-!
# Attribute conditions

`abac/conditions.go` and the condition half of `abac/abac.go`.  A condition is a
tree over typed attributes; evaluating it visits its nodes, and every visit is
paid for from a budget and looks at the context first.

An evaluation can come back with an error or panic: a nil child is dereferenced,
and `In` reads the first of its candidates.  `New` rejects both beforehand; the
model keeps them as outcomes.
-/

namespace Authorization.Abac

open Authorization.Foundation Authorization.Core

/-- A `Source`; values above `environment` are invalid. -/
abbrev Source := UInt8

namespace Source

def subject : Source := 0
def resource : Source := 1
def request : Source := 2
def environment : Source := 3

end Source

structure Reference where
  source : Source
  name : AttributeName
deriving DecidableEq

inductive Status
  | statusNoMatch | statusMatch | statusMissing | statusNull | statusTypeMismatch
deriving DecidableEq, Repr

structure Result where
  matched : Bool := false
  status : Status := .statusNoMatch
  cost : Nat := 0
deriving DecidableEq, Repr

inductive Comparison
  | compareGreater | compareLess
deriving DecidableEq

inductive StringOperator
  | stringPrefix | stringSuffix | stringContains
deriving DecidableEq

/-- A `Condition`. -/
inductive Condition
  /-- The nil interface. -/
  | nil
  | equalCondition (reference : Reference) (want : Value)
  | allCondition (conditions : List Condition)
  | existsCondition (reference : Reference)
  | nullCondition (reference : Reference)
  | anyCondition (conditions : List Condition)
  | notCondition (condition : Condition)
  | comparisonCondition (reference : Reference) (want : Value) (operator : Comparison)
  | inCondition (reference : Reference) (values : List Value)
  | setContainsCondition (reference : Reference) (value : Bytes)
  | stringCondition (reference : Reference) (value : Bytes) (operator : StringOperator)
  | ipCondition (reference : Reference) (network : Prefix)

/-- `IPIn`, which clears the host bits; the other constructors are those of the
type. -/
def ipIn (reference : Reference) (network : Prefix) : Condition :=
  .ipCondition reference network.masked

def Condition.isNil : Condition → Bool
  | .nil => true
  | _ => false

structure Limits where
  maxRules : Int := 1000
  maxDepth : Int := 32
  maxCost : Int := 1000
  maxMatches : Int := 100
  maxSetSize : Int := 1000
  maxBatchSize : Int := 1000
  maxNamedConditions : Int := 1000
deriving DecidableEq

/-- `WithLimits`. -/
def Limits.withLimits (override current : Limits) : Limits where
  maxRules := overrideLimit override.maxRules current.maxRules
  maxDepth := overrideLimit override.maxDepth current.maxDepth
  maxCost := overrideLimit override.maxCost current.maxCost
  maxMatches := overrideLimit override.maxMatches current.maxMatches
  maxSetSize := overrideLimit override.maxSetSize current.maxSetSize
  maxBatchSize := overrideLimit override.maxBatchSize current.maxBatchSize
  maxNamedConditions := overrideLimit override.maxNamedConditions current.maxNamedConditions

/-- `normalizedLimits`. -/
def normalizedLimits (limits : Limits) : Limits := limits.withLimits {}

/-! ### Validation -/

def validateReference (reference : Reference) : Option GoError :=
  if reference.source > .environment ∨ reference.name = [] then
    some (.sentinel .abacErrInvalidCondition)
  else none

def validateChildren (children : List Condition) : Option GoError :=
  if children = [] ∨ children.any Condition.isNil then some (.sentinel .abacErrInvalidCondition)
  else none

/-- `validate` of each condition; a nil condition is never asked. -/
def Condition.validate : Condition → Option GoError
  | .nil => some (.sentinel .abacErrInvalidCondition)
  | .equalCondition reference want =>
    match validateReference reference with
    | some err => some err
    | none => if want.kind = .missing then some (.sentinel .abacErrInvalidCondition) else none
  | .allCondition conditions => validateChildren conditions
  | .existsCondition reference => validateReference reference
  | .nullCondition reference => validateReference reference
  | .anyCondition conditions => validateChildren conditions
  | .notCondition condition =>
    if condition.isNil then some (.sentinel .abacErrInvalidCondition) else none
  | .comparisonCondition reference want _ =>
    match validateReference reference with
    | some err => some err
    | none =>
      if want.kind ∈ [.string, .int, .float, .time] then none
      else some (.sentinel .abacErrInvalidCondition)
  | .inCondition reference values =>
    match validateReference reference, values with
    | none, first :: _ =>
      if first.kind = .missing ∨ first.kind = .null then some (.sentinel .abacErrInvalidCondition)
      else if values.all (fun value => value.kind = first.kind) then none
      else some (.sentinel .abacErrInvalidCondition)
    | _, _ => some (.sentinel .abacErrInvalidCondition)
  | .setContainsCondition reference _ => validateReference reference
  | .stringCondition reference _ _ => validateReference reference
  | .ipCondition reference network =>
    if !network.isValid then some (.sentinel .abacErrInvalidCondition)
    else validateReference reference

/-- `conditionChildren`. -/
def Condition.children : Condition → List Condition
  | .allCondition conditions => conditions
  | .anyCondition conditions => conditions
  | .notCondition condition => if condition.isNil then [] else [condition]
  | _ => []

/-- `conditionLocalCardinality`. -/
def Condition.localCardinality : Condition → Nat
  | .inCondition _ values => values.length
  | .equalCondition _ want => (want.stringSet?.map List.length).getD 0
  | _ => 0

mutual

/-- The number of nodes. -/
def Condition.nodes : Condition → Nat
  | .allCondition conditions => 1 + nodesOf conditions
  | .anyCondition conditions => 1 + nodesOf conditions
  | .notCondition condition => 1 + condition.nodes
  | _ => 1

def nodesOf : List Condition → Nat
  | [] => 0
  | condition :: rest => condition.nodes + nodesOf rest

end

/-- The loop of `validateConditionLimits`; the top of the stack is the head of
the list.  A turn takes one node off, so the fuel is their number. -/
def validateStack (limits : Limits) : Nat → List (Condition × Int) → Int → Option GoError
  | 0, _, _ => none
  | _ + 1, [], _ => none
  | fuel + 1, (condition, depth) :: stack, cardinality =>
    if depth > limits.maxDepth then some (.sentinel .abacErrDepthExceeded)
    else
      match condition.validate with
      | some err => some err
      | none =>
        if condition.localCardinality > limits.maxSetSize - cardinality then
          some (.sentinel .abacErrSetLimitExceeded)
        else
          validateStack limits fuel
            (condition.children.map (fun child => (child, depth + 1)) ++ stack)
            (cardinality + condition.localCardinality)

/-- `validateConditionLimits`. -/
def validateConditionLimits (condition : Condition) (limits : Limits) : Option GoError :=
  validateStack limits (condition.nodes + 1) [(condition, 1)] 0

/-! ### Evaluation -/

/-- What `evaluate` came back with. -/
inductive Answer
  | returned (result : Result) (err : Option GoError)
  | panicked
deriving DecidableEq

def Answer.status (status : Status) : Answer := .returned { status := status } none

def Answer.ofMatched (matched : Bool) : Answer :=
  if matched then .returned { matched := true, status := .statusMatch } none
  else .status .statusNoMatch

structure EvaluationState (W : Type) where
  ctx : Context W
  request : Request
  cost : Nat := 0
  maxCost : Int
  maxSetSize : Int

section Evaluate

variable {W : Type}

/-- `consume`: the context first, then the budget. -/
def EvaluationState.consume (state : EvaluationState W) (w : W) :
    Option GoError × EvaluationState W × W :=
  match state.ctx.err w with
  | (some err, w) => (some err, state, w)
  | (none, w) =>
    if state.cost ≥ state.maxCost then (some (.sentinel .abacErrCostExceeded), state, w)
    else (none, { state with cost := state.cost + 1 }, w)

/-- `attribute`; a reference to another source finds nothing. -/
def EvaluationState.attribute (state : EvaluationState W) (reference : Reference) :
    Option Value :=
  if reference.source = .subject then state.request.subject.attributes.lookup reference.name
  else if reference.source = .resource then
    state.request.resource.attributes.lookup reference.name
  else if reference.source = .request then state.request.attributes.lookup reference.name
  else if reference.source = .environment then
    state.request.environment.attributes.lookup reference.name
  else none

/-- The value of an attribute unless `isMissingValue`. -/
def EvaluationState.presentValue (state : EvaluationState W) (reference : Reference) :
    Option Value :=
  (state.attribute reference).filter fun value => value.kind ≠ .missing

def EvaluationState.validateValue (state : EvaluationState W) (value : Value) : Option GoError :=
  match value.collectionLength with
  | some length =>
    if length > state.maxSetSize then some (.sentinel .abacErrSetLimitExceeded) else none
  | none => none

/-- `loadValue`: the value, or the answer to return at once. -/
def EvaluationState.loadValue (state : EvaluationState W) (reference : Reference) (w : W) :
    Except Answer Value × EvaluationState W × W :=
  match state.consume w with
  | (some err, state, w) => (.error (.returned {} (some err)), state, w)
  | (none, state, w) =>
    match state.presentValue reference with
    | none => (.error (.status .statusMissing), state, w)
    | some value =>
      match state.validateValue value with
      | some err => (.error (.returned {} (some err)), state, w)
      | none =>
        if value.kind = .null then (.error (.status .statusNull), state, w)
        else (.ok value, state, w)

/-- `sort.SearchStrings`: the first index whose element is not below `value`. -/
def searchStrings (set : List Bytes) (value : Bytes) : Nat := set.findIdx (value ≤ ·)

def StringOperator.holds (operator : StringOperator) (value pattern : Bytes) : Bool :=
  match operator with
  | .stringPrefix => pattern.isPrefixOf value
  | .stringSuffix => pattern.isSuffixOf value
  | .stringContains => pattern <:+: value

/-- `(0, false)` of `Compare` is neither above nor below. -/
def Comparison.holds (operator : Comparison) (got want : Value) : Bool :=
  let comparisonResult := (got.compare want).getD 0
  match operator with
  | .compareGreater => comparisonResult > 0
  | .compareLess => comparisonResult < 0

/-- The conditions that load one value and test it: the test of each. -/
def Condition.test (got : Value) : Condition → Answer
  | .comparisonCondition _ want operator =>
    if got.kind ≠ want.kind then .status .statusTypeMismatch
    else .ofMatched (operator.holds got want)
  | .inCondition _ values =>
    match values with
    | [] => .panicked
    | first :: _ =>
      if got.kind ≠ first.kind then .status .statusTypeMismatch
      else .ofMatched (values.any got.equal)
  | .setContainsCondition _ value =>
    match got.stringSet? with
    | none => .status .statusTypeMismatch
    | some set => .ofMatched (set[searchStrings set value]? = some value)
  | .stringCondition _ pattern operator =>
    match got.string? with
    | none => .status .statusTypeMismatch
    | some value => .ofMatched (operator.holds value pattern)
  | .ipCondition _ network =>
    match got.ip? with
    | none => .status .statusTypeMismatch
    | some ip => .ofMatched (network.contains ip)
  | _ => .panicked

/-- `evaluate` of a condition that loads one value. -/
def Condition.evaluateLoaded (condition : Condition) (reference : Reference)
    (state : EvaluationState W) (w : W) : Answer × EvaluationState W × W :=
  match state.loadValue reference w with
  | (.error answer, state, w) => (answer, state, w)
  | (.ok got, state, w) => (condition.test got, state, w)

/-- The rest of `equalCondition.evaluate` once the visit is paid for. -/
def EvaluationState.testEqual (state : EvaluationState W) (reference : Reference) (want : Value) :
    Answer :=
  match state.presentValue reference with
  | none => .status .statusMissing
  | some got =>
    match state.validateValue got with
    | some err => .returned {} (some err)
    | none =>
      if got.kind = .null then
        if want.kind = .null then .ofMatched true else .status .statusNull
      else if got.kind ≠ want.kind then .status .statusTypeMismatch
      else .ofMatched (got.equal want)

/-- What `Not` makes of its child's answer. -/
def Answer.negate : Answer → Answer
  | .returned result none =>
    if result.status ≠ .statusMatch ∧ result.status ≠ .statusNoMatch then .returned result none
    else .returned { result with
      matched := !result.matched
      status := if !result.matched then .statusMatch else .statusNoMatch } none
  | answer => answer

mutual

/-- `evaluate` of each condition. -/
def Condition.evaluate (state : EvaluationState W) (w : W) :
    Condition → Answer × EvaluationState W × W
  | .nil => (.panicked, state, w)
  | .equalCondition reference want =>
    match state.consume w with
    | (some err, state, w) => (.returned {} (some err), state, w)
    | (none, state, w) => (state.testEqual reference want, state, w)
  | .allCondition conditions =>
    match state.consume w with
    | (some err, state, w) => (.returned {} (some err), state, w)
    | (none, state, w) => evaluateAll state w conditions
  | .existsCondition reference =>
    match state.consume w with
    | (some err, state, w) => (.returned {} (some err), state, w)
    | (none, state, w) => (.ofMatched (state.presentValue reference).isSome, state, w)
  | .nullCondition reference =>
    match state.consume w with
    | (some err, state, w) => (.returned {} (some err), state, w)
    | (none, state, w) =>
      (.ofMatched ((state.attribute reference).map Value.kind = some .null), state, w)
  | .anyCondition conditions =>
    match state.consume w with
    | (some err, state, w) => (.returned {} (some err), state, w)
    | (none, state, w) => evaluateAny state w .statusNoMatch conditions
  | .notCondition condition =>
    match state.consume w with
    | (some err, state, w) => (.returned {} (some err), state, w)
    | (none, state, w) =>
      match condition.evaluate state w with
      | (answer, state, w) => (answer.negate, state, w)
  | .comparisonCondition reference want operator =>
    Condition.evaluateLoaded (.comparisonCondition reference want operator) reference state w
  | .inCondition reference values =>
    Condition.evaluateLoaded (.inCondition reference values) reference state w
  | .setContainsCondition reference value =>
    Condition.evaluateLoaded (.setContainsCondition reference value) reference state w
  | .stringCondition reference value operator =>
    Condition.evaluateLoaded (.stringCondition reference value operator) reference state w
  | .ipCondition reference network =>
    Condition.evaluateLoaded (.ipCondition reference network) reference state w

/-- The loop of `All`. -/
def evaluateAll (state : EvaluationState W) (w : W) :
    List Condition → Answer × EvaluationState W × W
  | [] => (.ofMatched true, state, w)
  | child :: rest =>
    match child.evaluate state w with
    | (.panicked, state, w) => (.panicked, state, w)
    | (.returned result err, state, w) =>
      if err.isSome ∨ !result.matched then (.returned result err, state, w)
      else evaluateAll state w rest

/-- The loop of `Any`; `status` is the first status other than no match. -/
def evaluateAny (state : EvaluationState W) (w : W) (status : Status) :
    List Condition → Answer × EvaluationState W × W
  | [] => (.status status, state, w)
  | child :: rest =>
    match child.evaluate state w with
    | (.panicked, state, w) => (.panicked, state, w)
    | (.returned result err, state, w) =>
      if err.isSome ∨ result.matched then (.returned result err, state, w)
      else evaluateAny state w (if status = .statusNoMatch then result.status else status) rest

end

end Evaluate

end Authorization.Abac
