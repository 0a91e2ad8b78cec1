import Authorization.Abac.Alike
import Authorization.Core.Document

/-!
# Documents of attribute-based access control

`abac/document.go`.  A condition document is a tree with a field for every operator;
`Build` looks at the fields its operator selects and leaves the others alone, and
the JSON format carries them all.

A document of valid strings comes back from its encoding as it was, but for the
arrays behind its slices, empty slices that are nil, and a negative zero that is a
positive one (`readBack`).  It is built into the same rules up to that sign
(`build_readBack`), which no evaluation sees.
-/

namespace Authorization.Abac

open Authorization.Foundation Authorization.Core Authorization.Foundation.Json

def documentErrors : DocumentErrors where
  invalidDocument := .abacErrInvalidDocument
  unsupportedDocumentVersion := .abacErrUnsupportedDocumentVersion
  documentLimitExceeded := .abacErrDocumentLimitExceeded

def sourceSubject : Bytes := str "subject"
def sourceResource : Bytes := str "resource"
def sourceRequest : Bytes := str "request"
def sourceEnvironment : Bytes := str "environment"

def operatorEqual : Bytes := str "equal"
def operatorExists : Bytes := str "exists"
def operatorIsNull : Bytes := str "is_null"
def operatorAll : Bytes := str "all"
def operatorAny : Bytes := str "any"
def operatorNot : Bytes := str "not"
def operatorGreaterThan : Bytes := str "greater_than"
def operatorLessThan : Bytes := str "less_than"
def operatorIn : Bytes := str "in"
def operatorSetContains : Bytes := str "set_contains"
def operatorHasPrefix : Bytes := str "has_prefix"
def operatorHasSuffix : Bytes := str "has_suffix"
def operatorStringContains : Bytes := str "string_contains"
def operatorIPIn : Bytes := str "ip_in"

def valueNull : Bytes := str "null"
def valueString : Bytes := str "string"
def valueBool : Bytes := str "bool"
def valueInt : Bytes := str "int"
def valueFloat : Bytes := str "float"
def valueTime : Bytes := str "time"
def valueIP : Bytes := str "ip"
def valueStringSet : Bytes := str "string_set"

/-- The bits of a `float64` are kept: it may be `NaN` as long as it is not used. -/
structure ValueDocument where
  kind : Bytes := []
  string : Bytes := []
  bool : Bool := false
  int : Int64 := 0
  float : UInt64 := 0
  time : Bytes := []
  ip : Bytes := []
  stringSet : Slice Bytes := .nil

structure ConditionDocument where
  operator : Bytes := []
  source : Bytes := []
  attributeName : AttributeName := []
  value : Option ValueDocument := none
  values : Slice ValueDocument := .nil
  conditions : Slice ConditionDocument := .nil
  condition : Option ConditionDocument := none
  text : Bytes := []
  ipPrefix : Bytes := []

structure RuleDocument where
  id : PolicyID := []
  priority : Int := 0
  tenant : TenantID := []
  action : Action := []
  resourceType : ResourceType := []
  resourceID : ResourceID := []
  effect : Bytes := []
  condition : Option ConditionDocument := none
  conditionName : Bytes := []
  conditionVersion : UInt64 := 0

structure NamedConditionDocument where
  name : Bytes := []
  version : UInt64 := 0
  condition : ConditionDocument := {}

structure Document where
  version : UInt64 := 0
  limits : Limits := ⟨0, 0, 0, 0, 0, 0, 0⟩
  rules : Slice RuleDocument := .nil
  namedConditions : Slice NamedConditionDocument := .nil

/-! ### Building -/

/-- The parsers of the standard library that literals go through:
`time.Parse` with the layout `RFC3339Nano`, `netip.ParseAddr` and
`netip.ParsePrefix`. -/
structure Literals where
  parseTime : Bytes → Option Time
  parseAddr : Bytes → Option Addr
  parsePrefix : Bytes → Option Prefix

/-- What a parser found, or `ErrInvalidDocument`. -/
def parsed {α : Type} (value : Option α) : Except GoError α :=
  match value with
  | some value => .ok value
  | none => .error (.sentinel documentErrors.invalidDocument)

section Build

variable (literals : Literals)

def ValueDocument.build (document : ValueDocument) : Except GoError Core.Value :=
  if document.kind = valueNull then .ok .null
  else if document.kind = valueString then .ok (.string document.string)
  else if document.kind = valueBool then .ok (.bool document.bool)
  else if document.kind = valueInt then .ok (.int document.int)
  else if document.kind = valueFloat then floatValue document.float
  else if document.kind = valueTime then (parsed (literals.parseTime document.time)).map timeValue
  else if document.kind = valueIP then (parsed (literals.parseAddr document.ip)).map ipValue
  else if document.kind = valueStringSet then .ok (stringSetValue document.stringSet.toList)
  else .error (.sentinel documentErrors.invalidDocument)

def ConditionDocument.reference (document : ConditionDocument) : Except GoError Reference :=
  let source : Option Source :=
    if document.source = sourceSubject then some .subject
    else if document.source = sourceResource then some .resource
    else if document.source = sourceRequest then some .request
    else if document.source = sourceEnvironment then some .environment
    else none
  match source with
  | none => .error (.sentinel documentErrors.invalidDocument)
  | some source =>
    if document.attributeName = [] then .error (.sentinel documentErrors.invalidDocument)
    else .ok ⟨source, document.attributeName⟩

/-- The second switch of `build`: the operators on one attribute. -/
def ConditionDocument.buildLeaf (document : ConditionDocument) (reference : Reference) :
    Except GoError Condition :=
  if document.operator = operatorExists then .ok (.existsCondition reference)
  else if document.operator = operatorIsNull then .ok (.nullCondition reference)
  else if document.operator = operatorEqual ∨ document.operator = operatorGreaterThan ∨
      document.operator = operatorLessThan then
    match document.value with
    | none => .error (.sentinel documentErrors.invalidDocument)
    | some value => (value.build literals).map fun value =>
        if document.operator = operatorEqual then .equalCondition reference value
        else if document.operator = operatorGreaterThan then
          .comparisonCondition reference value .compareGreater
        else .comparisonCondition reference value .compareLess
  else if document.operator = operatorIn then
    (buildList (ValueDocument.build literals) document.values.toList).map
      (.inCondition reference)
  else if document.operator = operatorSetContains then
    .ok (.setContainsCondition reference document.text)
  else if document.operator = operatorHasPrefix then
    .ok (.stringCondition reference document.text .stringPrefix)
  else if document.operator = operatorHasSuffix then
    .ok (.stringCondition reference document.text .stringSuffix)
  else if document.operator = operatorStringContains then
    .ok (.stringCondition reference document.text .stringContains)
  else if document.operator = operatorIPIn then
    (parsed (literals.parsePrefix document.ipPrefix)).map (ipIn reference)
  else .error (.sentinel documentErrors.invalidDocument)

mutual

def ConditionDocument.build : ConditionDocument → Except GoError Condition
  | document@⟨operator, _, _, _, _, conditions, condition, _, _⟩ =>
    if operator = operatorAll ∨ operator = operatorAny then
      (buildSlice conditions).map fun conditions =>
        if operator = operatorAll then .allCondition conditions else .anyCondition conditions
    else if operator = operatorNot then (buildPointer condition).map .notCondition
    else
      match document.reference with
      | .error err => .error err
      | .ok reference => document.buildLeaf literals reference

/-- The loop over the children of `all` and `any`. -/
def buildSlice : Slice ConditionDocument → Except GoError (List Condition)
  | .nil => .ok []
  | .of elems _ => buildConditions elems

/-- The child of `not`, which must be there. -/
def buildPointer : Option ConditionDocument → Except GoError Condition
  | none => .error (.sentinel documentErrors.invalidDocument)
  | some child => child.build

def buildConditions : List ConditionDocument → Except GoError (List Condition)
  | [] => .ok []
  | child :: rest =>
    match child.build with
    | .error err => .error err
    | .ok built => (buildConditions rest).map fun others => built :: others

end

/-! ### The depth check -/

/-- The children the operator selects. -/
def ConditionDocument.children (document : ConditionDocument) : List ConditionDocument :=
  if document.operator = operatorAll ∨ document.operator = operatorAny then
    document.conditions.toList
  else if document.operator = operatorNot then document.condition.toList
  else []

mutual

/-- The number of nodes, with those that are not selected. -/
def ConditionDocument.nodes : ConditionDocument → Nat
  | ⟨_, _, _, _, _, conditions, condition, _, _⟩ =>
    1 + (nodesOfSlice conditions + nodesOfPointer condition)

def nodesOfSlice : Slice ConditionDocument → Nat
  | .nil => 0
  | .of elems _ => nodesOfList elems

def nodesOfList : List ConditionDocument → Nat
  | [] => 0
  | document :: rest => document.nodes + nodesOfList rest

def nodesOfPointer : Option ConditionDocument → Nat
  | none => 0
  | some document => document.nodes

end

/-- The loop of `validateConditionDocumentLimits`; the top of the stack is the head
of the list.  A turn takes one node off, so the fuel is their number. -/
def validateDocumentStack (maxDepth : Int) :
    Nat → List (ConditionDocument × Int) → Except GoError Unit
  | 0, _ => .ok ()
  | _ + 1, [] => .ok ()
  | fuel + 1, (document, depth) :: stack =>
    if depth > maxDepth then .error (.sentinel .abacErrDepthExceeded)
    else validateDocumentStack maxDepth fuel
      (document.children.map (fun child => (child, depth + 1)) ++ stack)

/-- `validateConditionDocumentLimits`. -/
def validateConditionDocumentLimits (limits : Limits) (root : ConditionDocument) :
    Except GoError Unit :=
  validateDocumentStack limits.maxDepth (root.nodes + 1) [(root, 1)]

def RuleDocument.validateLimits (limits : Limits) (rule : RuleDocument) : Except GoError Unit :=
  match rule.condition with
  | none => .ok ()
  | some condition => validateConditionDocumentLimits limits condition

def NamedConditionDocument.build (definition : NamedConditionDocument) :
    Except GoError NamedCondition :=
  (definition.condition.build literals).map fun condition =>
    ⟨definition.name, definition.version, condition⟩

/-- The inline condition of a rule, nil if it has none. -/
def RuleDocument.buildCondition (rule : RuleDocument) : Except GoError Condition :=
  match rule.condition with
  | none => .ok .nil
  | some condition => condition.build literals

def RuleDocument.build (rule : RuleDocument) : Except GoError Rule :=
  match documentErrors.parseEffect rule.effect with
  | .error err => .error err
  | .ok effect => (rule.buildCondition literals).map fun condition =>
      { id := rule.id
        priority := rule.priority
        tenant := rule.tenant
        action := rule.action
        resourceType := rule.resourceType
        resourceID := rule.resourceID
        effect := effect
        condition := condition
        conditionName := rule.conditionName
        conditionVersion := rule.conditionVersion }

/-- `Build`: all conditions are checked for their depth before one is built. -/
def Document.build (document : Document) : Except GoError Evaluator :=
  if document.version ≠ documentVersion then
    .error (.sentinel documentErrors.unsupportedDocumentVersion)
  else do
    let limits := normalizedLimits document.limits
    let _ ← buildEach "named condition "
      (fun definition : NamedConditionDocument =>
        validateConditionDocumentLimits limits definition.condition)
      0 document.namedConditions.toList
    let _ ← buildEach "rule " (RuleDocument.validateLimits limits) 0 document.rules.toList
    let named ← buildEach "named condition " (NamedConditionDocument.build literals) 0
      document.namedConditions.toList
    let rules ← buildEach "rule " (RuleDocument.build literals) 0 document.rules.toList
    new rules named [document.limits]

/-- **What `Build` accepts and what it builds.** -/
theorem Document.build_eq_ok_iff {document : Document} {evaluator : Evaluator} :
    document.build literals = .ok evaluator ↔ document.version = documentVersion ∧
      (∀ definition ∈ document.namedConditions.toList, validateConditionDocumentLimits
        (normalizedLimits document.limits) definition.condition = .ok ()) ∧
      (∀ rule ∈ document.rules.toList,
        rule.validateLimits (normalizedLimits document.limits) = .ok ()) ∧
      ∃ named rules,
        List.Forall₂ (fun (definition : NamedConditionDocument) built =>
          definition.build literals = .ok built) document.namedConditions.toList named ∧
        List.Forall₂ (fun (rule : RuleDocument) built => rule.build literals = .ok built)
          document.rules.toList rules ∧
        new rules named [document.limits] = .ok evaluator := by
  unfold Document.build
  constructor
  · intro h
    split at h
    · cases h
    · rename_i hversion
      obtain ⟨checkedNamed, hnamedDepths, h⟩ := bind_eq_ok.mp h
      obtain ⟨checkedRules, hruleDepths, h⟩ := bind_eq_ok.mp h
      obtain ⟨named, hnamed, h⟩ := bind_eq_ok.mp h
      obtain ⟨rules, hrules, h⟩ := bind_eq_ok.mp h
      exact ⟨not_not.mp hversion, exists_buildEach_iff.mp ⟨checkedNamed, hnamedDepths⟩,
        exists_buildEach_iff.mp ⟨checkedRules, hruleDepths⟩, named, rules,
        buildEach_eq_ok_iff.mp hnamed, buildEach_eq_ok_iff.mp hrules, h⟩
  · rintro ⟨hversion, hnamedDepths, hruleDepths, named, rules, hnamed, hrules, h⟩
    obtain ⟨checkedNamed, hcheckedNamed⟩ := exists_buildEach_iff.mpr hnamedDepths
    obtain ⟨checkedRules, hcheckedRules⟩ := exists_buildEach_iff.mpr hruleDepths
    rw [if_neg (not_not.mpr hversion)]
    refine bind_eq_ok.mpr ⟨checkedNamed, hcheckedNamed, ?_⟩
    refine bind_eq_ok.mpr ⟨checkedRules, hcheckedRules, ?_⟩
    refine bind_eq_ok.mpr ⟨named, buildEach_eq_ok_iff.mpr hnamed, ?_⟩
    exact bind_eq_ok.mpr ⟨rules, buildEach_eq_ok_iff.mpr hrules, h⟩

end Build

/-! ### The JSON format -/

section Format

variable (floats : FloatText floatFinite)

def valueFields : List (StructField ValueDocument) :=
  [field (str "kind") .string ValueDocument.kind fun kind document => { document with kind },
    omitempty (str "string") .string ValueDocument.string
      fun string document => { document with string },
    omitempty (str "bool") .bool ValueDocument.bool fun bool document => { document with bool },
    omitempty (str "int") .int64 ValueDocument.int fun int document => { document with int },
    omitempty (str "float") (.float64 floats) ValueDocument.float
      fun float document => { document with float },
    omitempty (str "time") .string ValueDocument.time fun time document => { document with time },
    omitempty (str "ip") .string ValueDocument.ip fun ip document => { document with ip },
    omitempty (str "string_set") (.slice .string) ValueDocument.stringSet
      fun stringSet document => { document with stringSet }]

def valueCodec : Codec ValueDocument := .struct {} (valueFields floats)

/-- The fields of a condition, given the codec of its children. -/
def conditionFields (children : Codec ConditionDocument) : List (StructField ConditionDocument) :=
  [field (str "operator") .string ConditionDocument.operator
      fun operator document => { document with operator },
    omitempty (str "source") .string ConditionDocument.source
      fun source document => { document with source },
    omitempty (str "attribute") .string ConditionDocument.attributeName
      fun attributeName document => { document with attributeName },
    omitempty (str "value") (.pointer (valueCodec floats)) ConditionDocument.value
      fun value document => { document with value },
    omitempty (str "values") (.slice (valueCodec floats)) ConditionDocument.values
      fun values document => { document with values },
    omitempty (str "conditions") (.slice children) ConditionDocument.conditions
      fun conditions document => { document with conditions },
    omitempty (str "condition") (.pointer children) ConditionDocument.condition
      fun condition document => { document with condition },
    omitempty (str "text") .string ConditionDocument.text
      fun text document => { document with text },
    omitempty (str "prefix") .string ConditionDocument.ipPrefix
      fun ipPrefix document => { document with ipPrefix }]

/-- Conditions nested so deep at most. -/
def nestedCodec : Nat → Codec ConditionDocument
  | 0 => .never {}
  | n + 1 => .struct {} (conditionFields floats (nestedCodec n))

/-- Conditions; what is nested deeper than `encoding/json` allows is neither written
nor read. -/
def conditionCodec : Codec ConditionDocument := nestedCodec floats maxDepth

def ruleFields : List (StructField RuleDocument) :=
  [field (str "id") .string RuleDocument.id fun id rule => { rule with id },
    omitempty (str "priority") .int RuleDocument.priority
      fun priority rule => { rule with priority },
    omitempty (str "tenant") .string RuleDocument.tenant fun tenant rule => { rule with tenant },
    field (str "action") .string RuleDocument.action fun action rule => { rule with action },
    field (str "resource_type") .string RuleDocument.resourceType
      fun resourceType rule => { rule with resourceType },
    omitempty (str "resource_id") .string RuleDocument.resourceID
      fun resourceID rule => { rule with resourceID },
    field (str "effect") .string RuleDocument.effect fun effect rule => { rule with effect },
    omitempty (str "condition") (.pointer (conditionCodec floats)) RuleDocument.condition
      fun condition rule => { rule with condition },
    omitempty (str "condition_name") .string RuleDocument.conditionName
      fun conditionName rule => { rule with conditionName },
    omitempty (str "condition_version") .uint64 RuleDocument.conditionVersion
      fun conditionVersion rule => { rule with conditionVersion }]

def namedConditionFields : List (StructField NamedConditionDocument) :=
  [field (str "name") .string NamedConditionDocument.name
      fun name definition => { definition with name },
    field (str "version") .uint64 NamedConditionDocument.version
      fun version definition => { definition with version },
    field (str "condition") (conditionCodec floats) NamedConditionDocument.condition
      fun condition definition => { definition with condition }]

def limitsFields : List (StructField Limits) :=
  [omitempty (str "max_rules") .int Limits.maxRules fun maxRules limits => { limits with maxRules },
    omitempty (str "max_depth") .int Limits.maxDepth fun maxDepth limits => { limits with maxDepth },
    omitempty (str "max_cost") .int Limits.maxCost fun maxCost limits => { limits with maxCost },
    omitempty (str "max_matches") .int Limits.maxMatches
      fun maxMatches limits => { limits with maxMatches },
    omitempty (str "max_set_size") .int Limits.maxSetSize
      fun maxSetSize limits => { limits with maxSetSize },
    omitempty (str "max_batch_size") .int Limits.maxBatchSize
      fun maxBatchSize limits => { limits with maxBatchSize },
    omitempty (str "max_named_conditions") .int Limits.maxNamedConditions
      fun maxNamedConditions limits => { limits with maxNamedConditions }]

def ruleCodec : Codec RuleDocument := .struct {} (ruleFields floats)

def namedConditionCodec : Codec NamedConditionDocument := .struct {} (namedConditionFields floats)

def limitsCodec : Codec Limits := .struct ⟨0, 0, 0, 0, 0, 0, 0⟩ limitsFields

def documentFields : List (StructField Document) :=
  [field (str "version") .uint64 Document.version fun version document => { document with version },
    omitempty (str "limits") limitsCodec Document.limits
      fun limits document => { document with limits },
    field (str "rules") (.slice (ruleCodec floats)) Document.rules
      fun rules document => { document with rules },
    field (str "named_conditions") (.slice (namedConditionCodec floats)) Document.namedConditions
      fun namedConditions document => { document with namedConditions }]

def documentCodec : Codec Document := .struct {} (documentFields floats)

/-- `EncodeDocument`. -/
def encodeDocument (literals : Literals) (document : Document) : Except GoError Bytes :=
  Core.encodeDocument documentErrors (documentCodec floats) (Document.build literals) document

/-- `DecodeDocument`. -/
def decodeDocument (literals : Literals) (encoded : Bytes) : Except GoError Evaluator :=
  Core.decodeDocument documentErrors (documentCodec floats) (Document.build literals) encoded

end Format

end Authorization.Abac
