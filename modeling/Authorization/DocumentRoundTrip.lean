import Authorization.Abac.ReadBack
import Authorization.Acl.Document
import Authorization.Rbac.Document

/-!
# Documents round trip

The three document formats carry everything an evaluation depends on: the evaluator
`DecodeDocument` makes of the bytes `EncodeDocument` wrote gives the answers of the
one `Build` makes of the document.
-/

namespace Authorization

open Authorization.Foundation Authorization.Core Authorization.Foundation.Json

/-- **Encoded documents decode to evaluators with the same answers**, in each of the
three formats, if their strings are valid UTF-8. -/
theorem document_round_trip (floats : FloatText floatFinite) (literals : Abac.Literals)
    (acl : Acl.Document) (hacl : ∀ s ∈ acl.strings, Utf8.valid s = true)
    (rbac : Rbac.Document) (hrbac : ∀ s ∈ rbac.strings, Utf8.valid s = true)
    (abac : Abac.Document) (habac : ∀ s ∈ abac.strings, Utf8.valid s = true) :
    acl.RoundTrips ∧ rbac.RoundTrips ∧ abac.RoundTrips floats literals :=
  ⟨Acl.Document.roundTrips hacl, Rbac.Document.roundTrips hrbac,
    Abac.Document.roundTrips floats literals habac⟩

/-! ### Sample documents -/

/-- One and a half. -/
def threeHalves : UInt64 := 0x3FF8000000000000

def threeHalvesText : Json.Num := ⟨str "1.5", rfl⟩

/-- One and a half in decimals, other floats by the number of their bits. -/
def sampleFloats : FloatText floatFinite where
  format bits := if bits = threeHalves then threeHalvesText else .ofUint bits
  parse text := if text = threeHalvesText then some threeHalves else parseUint text.bytes
  parse_format bits _ := by
    by_cases hbits : bits = threeHalves
    · rw [if_pos hbits, if_pos rfl, hbits]
    · have hne : Json.Num.ofUint bits ≠ threeHalvesText := by
        intro heq
        have hread : parseUint threeHalvesText.bytes = some bits := by
          rw [← heq]
          exact parseUint_formatUint bits
        have hnone : parseUint threeHalvesText.bytes = none := by decide
        rw [hnone] at hread
        cases hread
      rw [if_neg hbits, if_neg hne]
      exact parseUint_formatUint bits

def sampleLiterals : Abac.Literals where
  parseTime := parseTime
  parseAddr s := if s = str "10.0.0.1" then some (.v4 0x0A000001#32) else none
  parsePrefix s := if s = str "10.0.0.0/8" then some (.v4 0x0A000000#32 8) else none

def sampleAclDocument : Acl.Document where
  version := 1
  globalInheritance := true
  limits := ⟨-1, 5, 0, 7⟩
  entries := .of [⟨str "e", str "user", str "é", str "read", str "document", [], [], str "deny"⟩] []

def sampleRbacDocument : Rbac.Document where
  version := 1
  roles := .of [⟨str "r", [], .of [str "s"] []⟩, ⟨str "s", [], .of [] []⟩] []
  permissions := .of [⟨str "p", str "s", [], str "read", str "document", [], str "allow", -4⟩] []
  assignments := .of [⟨str "m", str "user", str "u", str "r", []⟩] []

/-- A negative zero, and a candidate in a field that its operator does not use. -/
def sampleCondition : Abac.ConditionDocument where
  operator := str "equal"
  source := str "subject"
  attributeName := str "score"
  value := some { kind := str "float", float := negativeZero, ip := str "unused" }
  values := .of [{ kind := str "float", float := threeHalves }] []

def sampleNetwork : Abac.ConditionDocument where
  operator := str "ip_in"
  source := str "environment"
  attributeName := str "ip"
  ipPrefix := str "10.0.0.0/8"

def sampleDeadline : Abac.ConditionDocument where
  operator := str "less_than"
  source := str "environment"
  attributeName := str "now"
  value := some { kind := str "time", time := str "2024-01-01T00:00:00Z" }

/-- An inline condition of two levels. -/
def sampleInlineRule : Abac.RuleDocument where
  id := str "a"
  priority := 3
  action := str "read"
  resourceType := str "document"
  effect := str "allow"
  condition := some
    { operator := str "all"
      conditions :=
        .of [{ operator := str "not", condition := some sampleCondition }, sampleNetwork] [] }

def sampleNamedRule : Abac.RuleDocument where
  id := str "b"
  action := str "read"
  resourceType := str "document"
  effect := str "deny"
  conditionName := str "early"
  conditionVersion := 2

def sampleAbacDocument : Abac.Document where
  version := 1
  limits := ⟨0, 0, -2, 0, 0, 9, 0⟩
  rules := .of [sampleInlineRule, sampleNamedRule] []
  namedConditions := .of [⟨str "early", 2, sampleDeadline⟩] []

theorem document_round_trip_sample :
    ((Acl.encodeDocument sampleAclDocument).isOk = true ∧
      (Rbac.encodeDocument {} sampleRbacDocument).isOk = true ∧
      (Abac.encodeDocument sampleFloats sampleLiterals sampleAbacDocument).isOk = true) ∧
    sampleAclDocument.RoundTrips ∧ sampleRbacDocument.RoundTrips ∧
      sampleAbacDocument.RoundTrips sampleFloats sampleLiterals :=
  ⟨⟨by decide +kernel, by decide +kernel, by decide +kernel⟩,
    document_round_trip sampleFloats sampleLiterals sampleAclDocument (by decide +kernel)
      sampleRbacDocument (by decide +kernel) sampleAbacDocument (by decide +kernel)⟩

end Authorization
