import Authorization.Core.Snapshot
import Authorization.Foundation.Json.Struct

/-!
# Policy manifests

`policy/manifest.go`: the manifest and its records, `Validate`, `Encode` and
`Decode`.

A slice of records is `none` when it is nil, which JSON writes as `null`.  When an
object repeats the member `policies`, `encoding/json` reads the second list into
the records of the first, and records cut off by a shorter list come back with
their old fields; `Decoding` keeps these.
-/

namespace Authorization.Policy

open Authorization.Foundation Authorization.Core Authorization.Foundation.Json

abbrev Format := Bytes
abbrev Algorithm := Bytes
abbrev Model := Bytes

def maxEncodedManifestBytes : Nat := 16777216

def formatV1 : Format := str "authorization.policy/v1"

def algorithmDenyOverrides : Algorithm := str "deny-overrides"
def algorithmAllowOverrides : Algorithm := str "allow-overrides"
def algorithmFirstApplicable : Algorithm := str "first-applicable"
def algorithmPriorityOrder : Algorithm := str "priority-order"

def modelACL : Model := str "acl"
def modelRBAC : Model := str "rbac"
def modelABAC : Model := str "abac"
def modelComposite : Model := str "composite"

structure Record where
  id : PolicyID := []
  revision : Revision := 0
  model : Model := []
  priority : Int64 := 0
  activeFrom : Option Time := none
  activeUntil : Option Time := none
  metadata : Metadata := ∅
  document : Bytes := []
deriving DecidableEq

structure Manifest where
  format : Format := []
  revision : Revision := 0
  algorithm : Algorithm := []
  policies : Option (List Record) := none
deriving DecidableEq

/-- The records; a nil slice has none. -/
def Manifest.records (manifest : Manifest) : List Record := manifest.policies.getD []

/-! ### Validation -/

/-- `Algorithm.valid`. -/
def algorithmValid (algorithm : Algorithm) : Bool :=
  algorithm == algorithmDenyOverrides || algorithm == algorithmAllowOverrides ||
    algorithm == algorithmFirstApplicable || algorithm == algorithmPriorityOrder

/-- `Model.valid`. -/
def modelValid (model : Model) : Bool :=
  model == modelACL || model == modelRBAC || model == modelABAC || model == modelComposite

/-- `validDocument`. -/
def validDocument (document : Bytes) : Bool :=
  let trimmed := Utf8.trimSpace document
  if trimmed.length < 2 then false
  else if trimmed.head? ≠ some 0x7B then false
  else Json.valid trimmed

/-- The window of a record is empty. -/
def Record.windowEmpty (record : Record) : Bool :=
  match record.activeFrom, record.activeUntil with
  | some activeFrom, some activeUntil => !activeUntil.after activeFrom
  | _, _ => false

/-- The body of the loop of `Validate`. -/
def checkRecord (index : Nat) (policyIDs : List PolicyID) (record : Record) : Option GoError :=
  if record.id = [] ∨ record.revision = 0 ∨ modelValid record.model = false ∨
      validDocument record.document = false then
    some (.errorf [.text "policy ", .num index, .text ": "] (.sentinel .policyErrInvalidManifest))
  else if record.id ∈ policyIDs then
    some (.errorf [.text "policy ", .quoted record.id, .text ": "]
      (.sentinel .policyErrDuplicateRecord))
  else if record.windowEmpty then
    some (.errorf [.text "policy ", .quoted record.id, .text " activation: "]
      (.sentinel .policyErrInvalidManifest))
  else none

/-- `Manifest.Validate`. -/
def Manifest.validate (manifest : Manifest) : Option GoError :=
  if manifest.format ≠ formatV1 ∨ manifest.revision = 0 ∨
      algorithmValid manifest.algorithm = false then
    some (.sentinel .policyErrInvalidManifest)
  else checkEach Record.id checkRecord 0 [] manifest.records

/-! ### Encoding -/

inductive RecordField
  | id | revision | model | priority | activeFrom | activeUntil | metadata | document
deriving DecidableEq

/-- The names of the JSON tags. -/
def RecordField.name : RecordField → Bytes
  | .id => str "id"
  | .revision => str "revision"
  | .model => str "model"
  | .priority => str "priority"
  | .activeFrom => str "active_from"
  | .activeUntil => str "active_until"
  | .metadata => str "metadata"
  | .document => str "document"

inductive ManifestField
  | format | revision | algorithm | policies
deriving DecidableEq

def ManifestField.name : ManifestField → Bytes
  | .format => str "format"
  | .revision => str "revision"
  | .algorithm => str "algorithm"
  | .policies => str "policies"

/-- The member for a pointer to a time, omitted when it is nil. -/
def timeMembers (field : RecordField) (t : Option Time) : Option (List (RecordField × Tree)) :=
  match t with
  | none => some []
  | some t => (encodeTime t).map fun tree => [(field, tree)]

def priorityMembers (priority : Int64) : List (RecordField × Tree) :=
  if priority = 0 then [] else [(.priority, .num (.ofInt priority))]

def metadataMembers (metadata : Metadata) : List (RecordField × Tree) :=
  if metadata = ∅ then [] else [(.metadata, encodeMap metadata)]

def Record.members (record : Record) (activeFrom activeUntil : List (RecordField × Tree))
    (document : Tree) : List (RecordField × Tree) :=
  [(.id, .str (quoteBody record.id)), (.revision, .num (.ofUint record.revision)),
    (.model, .str (quoteBody record.model))] ++ (priorityMembers record.priority ++
      (activeFrom ++ (activeUntil ++ (metadataMembers record.metadata ++ [(.document, document)]))))

/-- The text of a record, without white space. -/
def Record.tree (record : Record) : Option Tree :=
  (timeMembers .activeFrom record.activeFrom).bind fun activeFrom =>
  (timeMembers .activeUntil record.activeUntil).bind fun activeUntil =>
  (embed record.document).map fun document =>
    encodeStruct RecordField.name (record.members activeFrom activeUntil document)

def policiesTree : Option (List Record) → Option Tree
  | none => some .null
  | some records => (records.mapM Record.tree).map array

/-- The text of a manifest, without white space. -/
def Manifest.tree (manifest : Manifest) : Option Tree :=
  (policiesTree manifest.policies).map fun policies =>
    encodeStruct ManifestField.name [(.format, .str (quoteBody manifest.format)),
      (.revision, .num (.ofUint manifest.revision)),
      (.algorithm, .str (quoteBody manifest.algorithm)), (.policies, policies)]

/-- `json.MarshalIndent`, two spaces a level. -/
def marshalIndent (text : Option Tree) : Option Bytes :=
  text.bind fun t => if t.depth ≤ maxDepth then some (t.indent 0).print else none

/-- `Encode`. -/
def encode (manifest : Manifest) : Except GoError Bytes :=
  match manifest.validate with
  | some err => .error err
  | none =>
    match marshalIndent manifest.tree with
    | none => .error (.errorf [.text "encode manifest: "] (.foreign []))
    | some encoded =>
      if encoded.length + 1 > maxEncodedManifestBytes then
        .error (.sentinel .policyErrManifestLimitExceeded)
      else .ok (encoded ++ [0x0A])

/-! ### Decoding -/

def recordFields : List (Bytes × RecordField) :=
  [.id, .revision, .model, .priority, .activeFrom, .activeUntil, .metadata, .document].map
    fun field : RecordField => (field.name, field)

/-- One member of a record; the document is kept as it stands. -/
def RecordField.decode (field : RecordField) (t : Tree) (record : Record) : Option Record :=
  match field with
  | .id => (decodeString t record.id).map fun id => { record with id := id }
  | .revision => (decodeUint t record.revision).map fun revision =>
      { record with revision := revision }
  | .model => (decodeString t record.model).map fun model => { record with model := model }
  | .priority => (decodeInt t record.priority).map fun priority =>
      { record with priority := priority }
  | .activeFrom => (decodeTime t).map fun activeFrom => { record with activeFrom := activeFrom }
  | .activeUntil => (decodeTime t).map fun activeUntil =>
      { record with activeUntil := activeUntil }
  | .metadata => (decodeMap t record.metadata).map fun metadata =>
      { record with metadata := metadata }
  | .document => some { record with document := t.print }

def decodeRecord (t : Tree) (record : Record) : Option Record :=
  decodeStruct recordFields RecordField.decode t record

/-- A manifest being read; `spare` are the records behind the end of its slice. -/
structure Decoding where
  manifest : Manifest := {}
  spare : List Record := []

/-- The elements of an array, each into the record at its place. -/
def decodeElements : List Tree → List Record → Option (List Record)
  | [], _ => some []
  | t :: rest, slots =>
    (decodeRecord t (slots.headD {})).bind fun record =>
    (decodeElements rest slots.tail).map fun records => record :: records

def decodePolicies (t : Tree) (state : Decoding) : Option Decoding :=
  match t with
  | .null => some { manifest := { state.manifest with policies := none } }
  | t => t.elements?.bind fun elements =>
      let slots := state.manifest.records ++ state.spare
      (decodeElements elements slots).map fun records =>
        { manifest := { state.manifest with policies := some records }
          spare := if elements = [] then [] else slots.drop elements.length }

def manifestFields : List (Bytes × ManifestField) :=
  [.format, .revision, .algorithm, .policies].map
    fun field : ManifestField => (field.name, field)

def ManifestField.decode (field : ManifestField) (t : Tree) (state : Decoding) :
    Option Decoding :=
  match field with
  | .format => (decodeString t state.manifest.format).map fun format =>
      { state with manifest := { state.manifest with format := format } }
  | .revision => (decodeUint t state.manifest.revision).map fun revision =>
      { state with manifest := { state.manifest with revision := revision } }
  | .algorithm => (decodeString t state.manifest.algorithm).map fun algorithm =>
      { state with manifest := { state.manifest with algorithm := algorithm } }
  | .policies => decodePolicies t state

def decodeManifest (t : Tree) : Option Manifest :=
  (decodeStruct manifestFields ManifestField.decode t {}).map Decoding.manifest

/-- `Decode`. -/
def decode (encoded : Bytes) : Except GoError Manifest :=
  if encoded.length > maxEncodedManifestBytes then
    .error (.sentinel .policyErrManifestLimitExceeded)
  else
    match parseValue maxDepth (skipSpace encoded) with
    | none => .error (.errorf [.text "decode manifest: "] (.sentinel .policyErrInvalidManifest))
    | some (t, rest) =>
      match decodeManifest t with
      | none => .error (.errorf [.text "decode manifest: "] (.sentinel .policyErrInvalidManifest))
      | some manifest =>
        if rest.all isSpace = false then
          .error (.errorf [.text "decode manifest trailing data: "]
            (.sentinel .policyErrInvalidManifest))
        else
          match manifest.validate with
          | some err => .error err
          | none => .ok manifest

end Authorization.Policy
