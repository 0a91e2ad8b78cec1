import Authorization.Core.Request

/-!
# Decisions

`decision.go`.  An outcome is an 8-bit value of which three are defined: an
evaluator may return any of the others, so the type does not exclude them.
`combine` resolves the decisions of several policies.
-/

namespace Authorization.Core

open Authorization.Foundation

/-- An `Outcome`; values above `deny` are invalid. -/
abbrev Outcome := UInt8

namespace Outcome

def notApplicable : Outcome := 0
def allow : Outcome := 1
def deny : Outcome := 2

theorem cases_of_le_deny {o : Outcome} (h : o ≤ deny) : o = notApplicable ∨ o = allow ∨ o = deny := by
  rw [UInt8.le_iff_toNat_le] at h
  have h' : o.toNat ≤ 2 := h
  have hcases : o.toNat = 0 ∨ o.toNat = 1 ∨ o.toNat = 2 := by omega
  rcases hcases with e | e | e
  · exact Or.inl (UInt8.toNat_inj.mp e)
  · exact Or.inr (Or.inl (UInt8.toNat_inj.mp e))
  · exact Or.inr (Or.inr (UInt8.toNat_inj.mp e))

end Outcome

/-- A positive override replaces a limit, any other leaves it. -/
def overrideLimit (override current : Int) : Int := if override > 0 then override else current

theorem overrideLimit_pos {override current : Int} (h : 0 < current) :
    0 < overrideLimit override current := by
  unfold overrideLimit
  split
  · assumption
  · exact h

abbrev ReasonCode := Bytes
abbrev PolicyID := Bytes
abbrev Revision := UInt64

def reasonDefaultDeny : ReasonCode := str "default-deny"
def reasonInvalidRequest : ReasonCode := str "invalid-request"
def reasonEvaluationError : ReasonCode := str "evaluation-error"
def reasonContextCanceled : ReasonCode := str "context-canceled"
def reasonPolicyInactive : ReasonCode := str "policy-inactive"
def reasonPolicyStale : ReasonCode := str "policy-stale"

structure TraceEntry where
  policyID : PolicyID
  outcome : Outcome
  reason : ReasonCode
deriving DecidableEq, Repr

structure Decision where
  outcome : Outcome := .notApplicable
  reason : ReasonCode := []
  matchedPolicyIDs : List PolicyID := []
  matchedPolicyIDsTruncated : Bool := false
  revision : Revision := 0
  trace : List TraceEntry := []
  traceTruncated : Bool := false
deriving DecidableEq, Repr

/-- What a call that may panic came back with. -/
inductive CallResult
  | returned (decision : Decision) (err : Option GoError)
  | panicked
deriving DecidableEq, Repr

/-- A `CombiningAlgorithm`; values above `priorityOrder` are invalid. -/
abbrev CombiningAlgorithm := UInt8

namespace CombiningAlgorithm

def denyOverrides : CombiningAlgorithm := 0
def allowOverrides : CombiningAlgorithm := 1
def firstApplicable : CombiningAlgorithm := 2
def priorityOrder : CombiningAlgorithm := 3

end CombiningAlgorithm

open CombiningAlgorithm in
/-- The second loop of `Combine`: `result` is the last applicable decision. -/
def combineLoop (algorithm : CombiningAlgorithm) : Decision → List Decision → Decision
  | result, [] => result
  | result, decision :: rest =>
    if (algorithm = firstApplicable ∨ algorithm = priorityOrder) ∧
        decision.outcome ≠ .notApplicable then decision
    else if algorithm = denyOverrides ∧ decision.outcome = .deny then decision
    else if algorithm = allowOverrides ∧ decision.outcome = .allow then decision
    else combineLoop algorithm
      (if decision.outcome ≠ .notApplicable then decision else result) rest

/-- `Combine`. -/
def combine (algorithm : CombiningAlgorithm) (decisions : List Decision) :
    Except GoError Decision :=
  if algorithm > .priorityOrder then .error (.sentinel .errInvalidCombiningAlgorithm)
  else if decisions.any (fun d => d.outcome > .deny) then .error (.sentinel .errInvalidOutcome)
  else .ok (combineLoop algorithm {} decisions)

/-- What the loop returns is the decision it started with or one of the list's. -/
theorem combineLoop_mem (algorithm : CombiningAlgorithm) : ∀ (decisions : List Decision)
    (result : Decision), combineLoop algorithm result decisions = result ∨
      combineLoop algorithm result decisions ∈ decisions := by
  intro decisions
  induction decisions with
  | nil => intro result; exact Or.inl rfl
  | cons decision rest ih =>
    intro result
    rw [combineLoop]
    split
    · exact Or.inr (by simp)
    · split
      · exact Or.inr (by simp)
      · split
        · exact Or.inr (by simp)
        · split
          · rcases ih decision with h | h
            · rw [h]; exact Or.inr (by simp)
            · exact Or.inr (List.mem_cons_of_mem _ h)
          · rcases ih result with h | h
            · exact Or.inl h
            · exact Or.inr (List.mem_cons_of_mem _ h)

/-- An applicable result of `Combine` is one of the decisions it was given. -/
theorem mem_of_combine {algorithm : CombiningAlgorithm} {decisions : List Decision}
    {decision : Decision} (h : combine algorithm decisions = .ok decision)
    (ha : decision.outcome ≠ .notApplicable) : decision ∈ decisions := by
  unfold combine at h
  split at h
  · cases h
  · split at h
    · cases h
    · injection h with h
      subst h
      rcases combineLoop_mem algorithm decisions {} with he | hm
      · rw [he] at ha; exact absurd rfl ha
      · exact hm

end Authorization.Core
