import Authorization.Abac.Document
import Authorization.Abac.Validation

/-!
# Range conditions

`IPIn` clears the host bits of its prefix and `IPValue` unmaps its address, each
before the two meet.  The first does not change what the prefix contains
(`contains_masked`), so a range condition tests the unmapped address
(`ipIn_matches`).  An IPv4-mapped address therefore counts as the IPv4 address it
holds: it lies in IPv4 prefixes, and in no IPv6 prefix, those that are themselves
written `::ffff:…` included (`ipIn_mapped`).
-/

namespace Authorization.Abac

open Authorization.Foundation Authorization.Core

/-- The attribute of a request that a reference names. -/
def attributeOf (request : Request) (reference : Reference) : Option Core.Value :=
  (reading request 0).attribute reference

theorem validate_ipIn {reference : Reference} {network : Prefix}
    (hreference : validateReference reference = none) (hvalid : network.isValid = true) :
    (ipIn reference network).validate = none := by
  simp only [ipIn, Condition.validate, Prefix.isValid_masked, hvalid, hreference]
  rfl

/-- The test of a range condition on an address. -/
theorem ask_ipIn {reference : Reference} {network : Prefix} {address : Addr} {request : Request}
    (maxSetSize : Int) (hattribute : attributeOf request reference = some (ipValue address)) :
    (reading request maxSetSize).ask (ipIn reference network)
      = .ofMatched (network.contains address.unmap) := by
  have hpresent : (reading request maxSetSize).presentValue reference = some (ipValue address) := by
    have hread : (reading request maxSetSize).attribute reference = some (ipValue address) :=
      hattribute
    rw [EvaluationState.presentValue, hread]
    rfl
  rw [ipIn, EvaluationState.ask, EvaluationState.testLoaded, hpresent]
  show Answer.ofMatched (network.masked.contains address.unmap) = _
  rw [Prefix.contains_masked]

/-- A valid range condition is evaluated without an error. -/
theorem evaluateCondition_ipIn {W : Type} {ctx : Context W} (hctx : ctx.Quiet)
    {reference : Reference} {network : Prefix} {address : Addr} {request : Request}
    (hreference : validateReference reference = none) (hvalid : network.isValid = true)
    (hattribute : attributeOf request reference = some (ipValue address)) (limits : Limits) (w : W) :
    (evaluateCondition ctx (ipIn reference network) request limits w).1
      = (Answer.ofMatched (network.contains address.unmap)).withCost 1 := by
  have hpos : 0 < (normalizedLimits limits).maxSetSize := overrideLimit_pos (by decide)
  rw [evaluateCondition_leaf hctx rfl (validate_ipIn hreference hvalid) hpos.le, ask_ipIn _ hattribute]

/-- The document of a range condition builds `IPIn`. -/
theorem build_ipIn {literals : Literals} {document : ConditionDocument} {reference : Reference}
    {network : Prefix} (hoperator : document.operator = operatorIPIn)
    (hreference : document.reference = .ok reference)
    (hnetwork : literals.parsePrefix document.ipPrefix = some network) :
    document.build literals = .ok (ipIn reference network) := by
  obtain ⟨operator, source, name, value, values, conditions, condition, text, ipPrefix⟩ := document
  dsimp only at hoperator hnetwork
  subst hoperator
  rw [ConditionDocument.build, if_neg (by decide), if_neg (by decide), hreference]
  dsimp only
  rw [ConditionDocument.buildLeaf, hnetwork]
  rfl

/-- **A range condition tests the unmapped address**, whether it is built in code or
from a document. -/
theorem ipIn_matches (literals : Literals) {reference : Reference} {network : Prefix}
    (hreference : validateReference reference = none) (hvalid : network.isValid = true)
    {condition : Condition}
    (hcondition : condition = ipIn reference network ∨
      ∃ document : ConditionDocument, document.operator = operatorIPIn ∧
        document.reference = .ok reference ∧
        literals.parsePrefix document.ipPrefix = some network ∧
        document.build literals = .ok condition)
    {W : Type} {ctx : Context W} (hctx : ctx.Quiet) {request : Request} {address : Addr}
    (hattribute : attributeOf request reference = some (ipValue address)) (limits : Limits) (w : W) :
    ∃ result, (evaluateCondition ctx condition request limits w).1 = .returned result none ∧
      (result.matched = true ↔ network.contains address.unmap = true) ∧
      ((address.is4In6 = true → network.is4 = true) →
        (result.matched = true ↔
          network.contains address = true ∨ network.contains address.unmap = true)) := by
  have hsame : condition = ipIn reference network := by
    rcases hcondition with h | ⟨document, hoperator, href, hnetwork, hbuild⟩
    · exact h
    · rw [build_ipIn hoperator href hnetwork] at hbuild
      injection hbuild with h
      exact h.symm
  subst hsame
  rw [evaluateCondition_ipIn hctx hreference hvalid hattribute]
  have hmatched : ∃ result, (Answer.ofMatched (network.contains address.unmap)).withCost 1
      = .returned result none ∧ result.matched = network.contains address.unmap := by
    cases network.contains address.unmap with
    | true => exact ⟨_, rfl, rfl⟩
    | false => exact ⟨_, rfl, rfl⟩
  obtain ⟨result, hresult, hmatched⟩ := hmatched
  refine ⟨result, hresult, by rw [hmatched], fun hmapped => ?_⟩
  rw [hmatched]
  constructor
  · exact Or.inr
  · rintro (h | h)
    · exact Prefix.contains_unmap hmapped h
    · exact h

/-- The request of a client at `::ffff:10.0.0.1`. -/
def mappedClient : Request :=
  asking ((∅ : Attributes).insert (str "ip") (ipValue (.v6 0xffff0a000001#128 [])))

theorem eight_lt : 8 < 33 := by decide

/-- `10.1.2.3/8`. -/
def tenNetwork : Prefix := .v4 0x0a010203#32 ⟨8, eight_lt⟩

/-- The parsers of a document that says `10.1.2.3/8`. -/
def tenLiterals : Literals where
  parseTime _ := none
  parseAddr _ := none
  parsePrefix text := if text = str "10.1.2.3/8" then some tenNetwork else none

theorem ipIn_matches_ten : ∃ condition result,
    (⟨operatorIPIn, sourceRequest, str "ip", none, .nil, .nil, none, [], str "10.1.2.3/8"⟩ :
      ConditionDocument).build tenLiterals = .ok condition ∧
    (evaluateCondition (.background (W := Unit)) condition mappedClient {} ()).1
      = .returned result none ∧ result.matched = true := by
  have hbuild : (⟨operatorIPIn, sourceRequest, str "ip", none, .nil, .nil, none, [],
      str "10.1.2.3/8"⟩ : ConditionDocument).build tenLiterals
        = .ok (ipIn (requested "ip") tenNetwork) := rfl
  have hattribute : attributeOf mappedClient (requested "ip")
      = some (ipValue (.v6 0xffff0a000001#128 [])) := rfl
  obtain ⟨result, hresult, hmatched, -⟩ := ipIn_matches tenLiterals
    (show validateReference (requested "ip") = none by decide)
    (show tenNetwork.isValid = true from rfl)
    (Or.inr ⟨_, rfl, rfl, rfl, hbuild⟩) Context.quiet_background hattribute {} ()
  exact ⟨_, result, hbuild, hresult, hmatched.mpr (by decide)⟩

/-- **A mapped prefix matches nothing mapped**: `::ffff:10.0.0.1` lies in
`::ffff:10.0.0.0/104`, and the condition does not match. -/
theorem ipIn_mapped : ∃ (network : Prefix) (address : Addr),
    network.isValid = true ∧ network.contains address = true ∧
    attributeOf mappedClient (requested "ip") = some (ipValue address) ∧
    (evaluateCondition (.background (W := Unit)) (ipIn (requested "ip") network) mappedClient {}
      ()).1 = .returned { status := .statusNoMatch, cost := 1 } none :=
  ⟨.v6 0xffff0a000000#128 104, .v6 0xffff0a000001#128 [], rfl, by decide, rfl, by decide +kernel⟩

end Authorization.Abac
