import Authorization.Core.Decision

/-!
# Collecting matches

ACL, RBAC and ABAC evaluation end in the same loop body: a matching item is
refused at the match limit, else its identifier is appended and its effect
recorded, a deny for good and an allow only while nothing applies.  `recordAll`
is that body over the matching items.

`recordAll_eq` is what it computes: the items are added all together if they fit
under the limit.  Their order decides the order of the identifiers and nothing
else.

The batches of the three models are one loop as well, `evaluateBatch`.
-/

namespace Authorization.Core

open Authorization.Foundation

/-- The reason codes of one policy model. -/
structure MatchReasons where
  allow : ReasonCode
  explicitDeny : ReasonCode
  limitExceeded : ReasonCode

/-- One matching item; `none` when the limit is reached. -/
def recordMatch (reasons : MatchReasons) (maxMatches : Int) (decision : Decision)
    (match' : PolicyID × Outcome) : Option Decision :=
  if decision.matchedPolicyIDs.length ≥ maxMatches then none
  else
    let matched := { decision with matchedPolicyIDs := decision.matchedPolicyIDs ++ [match'.1] }
    if match'.2 = .deny then some { matched with outcome := .deny, reason := reasons.explicitDeny }
    else if decision.outcome = .notApplicable then
      some { matched with outcome := .allow, reason := reasons.allow }
    else some matched

/-- All matching items in turn. -/
def recordAll (reasons : MatchReasons) (maxMatches : Int) :
    Decision → List (PolicyID × Outcome) → Option Decision
  | decision, [] => some decision
  | decision, match' :: rest =>
    (recordMatch reasons maxMatches decision match').bind fun decision =>
      recordAll reasons maxMatches decision rest

theorem recordAll_append (reasons : MatchReasons) (maxMatches : Int) :
    ∀ (ms ms' : List (PolicyID × Outcome)) (decision : Decision),
      recordAll reasons maxMatches decision (ms ++ ms')
        = (recordAll reasons maxMatches decision ms).bind fun decision =>
          recordAll reasons maxMatches decision ms' := by
  intro ms ms'
  induction ms with
  | nil => intro decision; rfl
  | cons m ms ih =>
    intro decision
    rw [List.cons_append, recordAll, recordAll, Option.bind_assoc]
    congr 1
    funext decision'
    exact ih decision'

/-- The decision that comes with a limit error. -/
def MatchReasons.limitDecision (reasons : MatchReasons) : Decision :=
  { outcome := .deny, reason := reasons.limitExceeded }

/-! ### What the loop computes -/

/-- A decision with matching items added: the identifiers in order, deny if any
item denies, else allow if there is one and nothing applied before. -/
def Decision.withMatches (reasons : MatchReasons) (decision : Decision)
    (matches' : List (PolicyID × Outcome)) : Decision :=
  { decision with
    matchedPolicyIDs := decision.matchedPolicyIDs ++ matches'.map Prod.fst
    outcome :=
      if matches'.any (fun m => m.2 = .deny) then .deny
      else if decision.outcome = .notApplicable ∧ matches' ≠ [] then .allow
      else decision.outcome
    reason :=
      if matches'.any (fun m => m.2 = .deny) then reasons.explicitDeny
      else if decision.outcome = .notApplicable ∧ matches' ≠ [] then reasons.allow
      else decision.reason }

section Closed

variable (reasons : MatchReasons) (maxMatches : Int)

@[simp] theorem withMatches_nil (decision : Decision) :
    decision.withMatches reasons [] = decision := by
  simp [Decision.withMatches]

theorem recordMatch_eq (decision : Decision) (m : PolicyID × Outcome) :
    recordMatch reasons maxMatches decision m
      = if decision.matchedPolicyIDs.length ≥ maxMatches then none
        else some (decision.withMatches reasons [m]) := by
  unfold recordMatch
  split
  · rfl
  · by_cases hd : m.2 = .deny
    · simp [Decision.withMatches, hd]
    · by_cases hn : decision.outcome = .notApplicable
      · simp [Decision.withMatches, hd, hn]
      · simp [Decision.withMatches, hd, hn]

theorem withMatches_cons (decision : Decision) (m : PolicyID × Outcome)
    (ms : List (PolicyID × Outcome)) :
    (decision.withMatches reasons [m]).withMatches reasons ms
      = decision.withMatches reasons (m :: ms) := by
  have hdeny : Outcome.deny ≠ Outcome.notApplicable := by decide
  have hallow : Outcome.allow ≠ Outcome.notApplicable := by decide
  by_cases hd : m.2 = .deny
  · by_cases hany : ms.any (fun m => m.2 = .deny)
    · simp [Decision.withMatches, hd, hany]
    · simp [Decision.withMatches, hd, hany, hdeny]
  · by_cases hany : ms.any (fun m => m.2 = .deny)
    · simp [Decision.withMatches, hd, hany]
    · by_cases hn : decision.outcome = .notApplicable
      · simp [Decision.withMatches, hd, hany, hn, hallow]
      · simp [Decision.withMatches, hd, hany, hn]

/-- **What the loop computes**: all items, if they fit under the limit. -/
theorem recordAll_eq : ∀ (ms : List (PolicyID × Outcome)) (decision : Decision),
    recordAll reasons maxMatches decision ms
      = if ms = [] ∨ decision.matchedPolicyIDs.length + ms.length ≤ maxMatches then
          some (decision.withMatches reasons ms)
        else none := by
  intro ms
  induction ms with
  | nil => intro decision; simp [recordAll]
  | cons m ms ih =>
    intro decision
    have hlen : ((decision.withMatches reasons [m]).matchedPolicyIDs.length : Int)
        = decision.matchedPolicyIDs.length + 1 := by
      simp [Decision.withMatches]
    rw [recordAll, recordMatch_eq]
    by_cases hfull : (decision.matchedPolicyIDs.length : Int) ≥ maxMatches
    · rw [if_pos hfull, if_neg]
      · rfl
      · rintro (hc | hc)
        · cases hc
        · rw [List.length_cons] at hc
          push_cast at hc
          omega
    · rw [if_neg hfull, Option.bind_some, ih, withMatches_cons, hlen]
      have hiff : (ms = [] ∨ (decision.matchedPolicyIDs.length : Int) + 1 + ms.length ≤ maxMatches) ↔
          (m :: ms = [] ∨
            (decision.matchedPolicyIDs.length : Int) + (m :: ms).length ≤ maxMatches) := by
        rw [List.length_cons]
        push_cast
        constructor
        · rintro (rfl | hc)
          · simp only [List.length_nil, Nat.cast_zero]
            exact Or.inr (by omega)
          · exact Or.inr (by omega)
        · rintro (hc | hc)
          · cases hc
          · exact Or.inr (by omega)
      simp only [hiff]

/-- The decision table of matching items: deny if one denies, else allow if there
is one. -/
def tableDecision (ms : List (PolicyID × Outcome)) : Decision where
  outcome := if ∃ m ∈ ms, m.2 = .deny then .deny else if ms = [] then .notApplicable else .allow
  reason := if ∃ m ∈ ms, m.2 = .deny then reasons.explicitDeny
    else if ms = [] then [] else reasons.allow
  matchedPolicyIDs := ms.map Prod.fst

theorem withMatches_zero (ms : List (PolicyID × Outcome)) :
    ({} : Decision).withMatches reasons ms = tableDecision reasons ms := by
  have hany : ms.any (fun m => m.2 = .deny) = true ↔ ∃ m ∈ ms, m.2 = .deny := by
    simp only [List.any_eq_true, decide_eq_true_eq]
  unfold Decision.withMatches tableDecision
  by_cases hdeny : ∃ m ∈ ms, m.2 = .deny
  · simp only [hany, if_pos hdeny, List.nil_append]
  · by_cases hnil : ms = []
    · subst hnil
      rfl
    · simp only [hany, if_neg hdeny, if_neg hnil, true_and, ne_eq, if_pos hnil, List.nil_append]

/-- **The loop from the start** is the table, if the items fit under the limit. -/
theorem recordAll_zero (ms : List (PolicyID × Outcome)) :
    recordAll reasons maxMatches {} ms = if ms = [] ∨ (ms.length : Int) ≤ maxMatches then
      some (tableDecision reasons ms) else none := by
  rw [recordAll_eq, withMatches_zero]
  simp only [List.length_nil, Nat.cast_zero, zero_add]

/-- **The decision table**, row by row. -/
structure Decided (ms : List (PolicyID × Outcome)) (decision : Decision) : Prop where
  deny : decision.outcome = .deny ↔ ∃ m ∈ ms, m.2 = .deny
  deny_reason : decision.outcome = .deny → decision.reason = reasons.explicitDeny
  allow : decision.outcome = .allow ↔ ms ≠ [] ∧ ∀ m ∈ ms, m.2 ≠ .deny
  allow_reason : decision.outcome = .allow → decision.reason = reasons.allow
  notApplicable : decision.outcome = .notApplicable ↔ ms = []
  ids : decision.matchedPolicyIDs = ms.map Prod.fst

theorem decided_tableDecision (ms : List (PolicyID × Outcome)) :
    Decided reasons ms (tableDecision reasons ms) := by
  have hdeny_ne : Outcome.deny ≠ .allow ∧ Outcome.deny ≠ .notApplicable := by decide
  have hallow_ne : Outcome.allow ≠ .deny ∧ Outcome.allow ≠ .notApplicable := by decide
  have hnone_ne : Outcome.notApplicable ≠ .deny ∧ Outcome.notApplicable ≠ .allow := by decide
  by_cases hdeny : ∃ m ∈ ms, m.2 = .deny
  · obtain ⟨m, hm, hd⟩ := hdeny
    have houtcome : (tableDecision reasons ms).outcome = .deny := if_pos ⟨m, hm, hd⟩
    have hreason : (tableDecision reasons ms).reason = reasons.explicitDeny := if_pos ⟨m, hm, hd⟩
    refine ⟨?_, fun _ => hreason, ?_, ?_, ?_, rfl⟩ <;> rw [houtcome]
    · exact ⟨fun _ => ⟨m, hm, hd⟩, fun _ => rfl⟩
    · exact ⟨fun h => absurd h hdeny_ne.1, fun h => absurd hd (h.2 m hm)⟩
    · exact fun h => absurd h hdeny_ne.1
    · exact ⟨fun h => absurd h hdeny_ne.2, fun h => absurd h (List.ne_nil_of_mem hm)⟩
  · have hall : ∀ m ∈ ms, m.2 ≠ .deny := fun m hm hd => hdeny ⟨m, hm, hd⟩
    by_cases hnil : ms = []
    · have houtcome : (tableDecision reasons ms).outcome = .notApplicable :=
        (if_neg hdeny).trans (if_pos hnil)
      refine ⟨?_, ?_, ?_, ?_, ?_, rfl⟩ <;> rw [houtcome]
      · exact ⟨fun h => absurd h hnone_ne.1, fun h => absurd h hdeny⟩
      · exact fun h => absurd h hnone_ne.1
      · exact ⟨fun h => absurd h hnone_ne.2, fun h => absurd hnil h.1⟩
      · exact fun h => absurd h hnone_ne.2
      · exact ⟨fun _ => hnil, fun _ => rfl⟩
    · have houtcome : (tableDecision reasons ms).outcome = .allow :=
        (if_neg hdeny).trans (if_neg hnil)
      have hreason : (tableDecision reasons ms).reason = reasons.allow :=
        (if_neg hdeny).trans (if_neg hnil)
      refine ⟨?_, ?_, ?_, fun _ => hreason, ?_, rfl⟩ <;> rw [houtcome]
      · exact ⟨fun h => absurd h hallow_ne.1, fun h => absurd h hdeny⟩
      · exact fun h => absurd h hallow_ne.1
      · exact ⟨fun _ => ⟨hnil, hall⟩, fun _ => rfl⟩
      · exact ⟨fun h => absurd h hallow_ne.2, fun h => absurd h hnil⟩

end Closed

/-! ### The order of the items -/

/-- Equal but for the order of the identifiers. -/
structure Decision.Reordered (d d' : Decision) : Prop where
  ids : d.matchedPolicyIDs.Perm d'.matchedPolicyIDs
  rest : { d with matchedPolicyIDs := d'.matchedPolicyIDs } = d'

theorem Decision.Reordered.refl (d : Decision) : d.Reordered d := ⟨List.Perm.refl _, rfl⟩

section Order

variable {reasons : MatchReasons} {maxMatches : Int} {d d' : Decision}
  {ms ms' : List (PolicyID × Outcome)}

theorem withMatches_reordered (h : d.Reordered d') (hp : ms.Perm ms') :
    (d.withMatches reasons ms).Reordered (d'.withMatches reasons ms') := by
  have hnil : ms = [] ↔ ms' = [] := by
    constructor
    · rintro rfl; exact List.nil_perm.mp hp
    · rintro rfl; exact List.perm_nil.mp hp
  have hany : ms.any (fun m => m.2 = .deny) = ms'.any (fun m => m.2 = .deny) := hp.any_eq
  refine ⟨h.ids.append (hp.map _), ?_⟩
  rw [← h.rest]
  simp only [Decision.withMatches, hany, ne_eq, hnil]

variable (reasons maxMatches) in
/-- **The order of the items decides the order of the identifiers only.** -/
theorem recordAll_reordered (h : d.Reordered d') (hp : ms.Perm ms') :
    (recordAll reasons maxMatches d ms = none ∧ recordAll reasons maxMatches d' ms' = none) ∨
      ∃ e e', recordAll reasons maxMatches d ms = some e ∧
        recordAll reasons maxMatches d' ms' = some e' ∧ e.Reordered e' := by
  have hnil : ms = [] ↔ ms' = [] := by
    constructor
    · rintro rfl; exact List.nil_perm.mp hp
    · rintro rfl; exact List.perm_nil.mp hp
  rw [recordAll_eq, recordAll_eq, ← h.ids.length_eq, ← hp.length_eq]
  simp only [hnil]
  split
  · exact Or.inr ⟨_, _, rfl, rfl, withMatches_reordered h hp⟩
  · exact Or.inl ⟨rfl, rfl⟩

end Order

/-! ### Batches -/

/-- What a batch came back with; the decisions are nil at the limit. -/
inductive BatchResult
  | returned (decisions : Option (List Decision)) (err : Option GoError)
  | panicked
deriving DecidableEq

section Batch

variable {ρ W : Type}

/-- The loop of a batch, from position `index` on; `none` is a panic. -/
def evaluateEach (evaluate : Nat → ρ → W → CallResult × W) :
    Nat → List ρ → W → Option (List (Decision × Option GoError)) × W
  | _, [], w => (some [], w)
  | index, request :: rest, w =>
    match evaluate index request w with
    | (.panicked, w) => (none, w)
    | (.returned decision err, w) =>
      match evaluateEach evaluate (index + 1) rest w with
      | (results, w) => (results.map fun results => (decision, err) :: results, w)

/-- `EvaluateBatch` of each model: the limit first, then one request after the
other, with all errors joined. -/
def evaluateBatch (maxBatchSize : Int) (limitExceeded : Sentinel)
    (evaluate : Nat → ρ → W → CallResult × W) (requests : List ρ) (w : W) : BatchResult × W :=
  if requests.length > maxBatchSize then (.returned none (some (.sentinel limitExceeded)), w)
  else
    match evaluateEach evaluate 0 requests w with
    | (none, w) => (.panicked, w)
    | (some results, w) =>
      (.returned (some (results.map Prod.fst)) (GoError.join (results.filterMap Prod.snd)), w)

end Batch

/-- The result of a call that does not panic. -/
def CallResult.ofPair {W : Type} (result : (Decision × Option GoError) × W) : CallResult × W :=
  (.returned result.1.1 result.1.2, result.2)

end Authorization.Core
