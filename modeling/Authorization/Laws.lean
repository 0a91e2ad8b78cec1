import Authorization.Abac.Table
import Authorization.Acl.Scan
import Authorization.Core.Law
import Authorization.Rbac.Effective

/-!
# The laws of the three models

Which items of an access list, of a role graph or of a rule set match a request, said
in the terms of the items alone.  The limits on groups and matches are those of the
evaluator; the rules also have a budget, which is compared with the visits that the
rules in scope take together, and a bound on the sets they meet.

Each evaluator that `New` returns follows the law of what it was made from.
-/

namespace Authorization

open Authorization.Foundation Authorization.Core

variable {W : Type} {ctx : Context W}

/-! ### Access lists -/

namespace Acl

/-- The entries that match, up to the limits on groups and matches. -/
def law (entries : List Entry) (options : List AclOption) : Law where
  matched request := {item | ∃ entry ∈ entries,
    entry.Matches (configured options).inheritGlobal request ∧ item = (entry.id, entry.effect)}
  maxMatches := (configured options).limits.maxMatches
  within request := (request.subject.groups.length : Int) ≤ (configured options).limits.maxGroups

/-- The evaluator as a policy of an engine. -/
def Evaluator.policy (evaluator : Evaluator) : Core.Evaluator W := fun ctx request w =>
  CallResult.ofPair (evaluator.evaluate ctx request w)

theorem law_lists {entries : List Entry} {options : List AclOption} {evaluator : Evaluator}
    (hnew : new entries options = .ok evaluator) (request : Request) :
    (law entries options).Lists request (matched request (applicable evaluator request.subject
      request.action request.resource.type request.tenant)) := by
  have hperm := matched_perm_scan hnew request
  obtain ⟨⟨-, hnodup, -⟩, heq⟩ := new_eq_ok_iff.mp hnew
  have hinherit : evaluator.inheritGlobal = (configured options).inheritGlobal := by rw [heq]
  refine ⟨?_, fun m => ?_⟩
  · rw [hperm.nodup_iff]
    have hids : ((scan evaluator.inheritGlobal request entries).map Entry.id).Nodup :=
      hnodup.sublist (List.filter_sublist.map Entry.id)
    refine List.Nodup.of_map Prod.fst ?_
    rw [List.map_map]
    exact hids
  · rw [hperm.mem_iff, List.mem_map, hinherit]
    constructor
    · rintro ⟨entry, hentry, rfl⟩
      obtain ⟨hmem, hmatches⟩ := List.mem_filter.mp hentry
      exact ⟨entry, hmem, of_decide_eq_true hmatches, rfl⟩
    · rintro ⟨entry, hmem, hmatches, rfl⟩
      exact ⟨entry, List.mem_filter.mpr ⟨hmem, decide_eq_true hmatches⟩, rfl⟩

/-- **An access list follows its law.** -/
theorem follows_law {entries : List Entry} {options : List AclOption} {evaluator : Evaluator}
    (hnew : new entries options = .ok evaluator) (hctx : ctx.Quiet) :
    Core.Evaluator.Follows ctx evaluator.policy (law entries options) := by
  have hlimits : evaluator.limits = (configured options).limits := by
    rw [(new_eq_ok_iff.mp hnew).2]
  have hcall : ∀ request w, ∃ w', evaluator.policy ctx request w
      = (.returned (evaluator.evaluate ctx request w).1.1 (evaluator.evaluate ctx request w).1.2, w') :=
    fun request w => ⟨_, rfl⟩
  refine ⟨fun request w hadmits => ?_, fun request w hrefuses => ?_⟩
  · obtain ⟨w', hw⟩ := hcall request w
    obtain ⟨hgroups, hcount⟩ := (law_lists hnew request).admits_iff.mp hadmits
    have hfits : _ ≤ (configured options).limits.maxMatches := hcount
    rw [hw, evaluate_quiet hctx, hlimits, if_neg (not_lt.mpr hgroups), recordAll_zero,
      if_pos (Or.inr hfits)]
    exact ⟨_, rfl, (law_lists hnew request).rules (decided_tableDecision reasons _)⟩
  · obtain ⟨w', hw⟩ := hcall request w
    have hmax := maxMatches_configured options
    rw [(law_lists hnew request).admits_iff, not_and, not_le] at hrefuses
    rw [hw, evaluate_quiet hctx, hlimits]
    by_cases hgroups : (request.subject.groups.length : Int) ≤ (configured options).limits.maxGroups
    · have hmany : (configured options).limits.maxMatches < _ := hrefuses hgroups
      rw [if_neg (not_lt.mpr hgroups), recordAll_zero, if_neg]
      · exact ⟨_, _, rfl⟩
      · rintro (hnil | hle)
        · rw [hnil, List.length_nil] at hmany
          exact absurd hmany (by omega)
        · omega
    · rw [if_pos (not_le.mp hgroups)]
      exact ⟨_, _, rfl⟩

end Acl

/-! ### Roles -/

namespace Rbac

/-- The permissions granted through assignments and inheritance that match. -/
def law (input : Input) (options : List RbacOption) : Law where
  matched request := {item | ∃ permission,
    input.Grants (configured options).inheritGlobal request.subject request.tenant permission ∧
      permission.MatchesRequest request ∧ item = (permission.id, permission.effect)}
  maxMatches := (configured options).limits.maxMatches
  within request := (request.subject.groups.length : Int) ≤ (configured options).limits.maxGroups

/-- The evaluator as a policy of an engine; the ranges over the roles may take any
order. -/
def Evaluator.policy (evaluator : Evaluator) (order : W → MapRange RoleID) : Core.Evaluator W :=
  fun ctx request w => CallResult.ofPair (evaluator.evaluate (order w) ctx request w)

theorem law_lists {input : Input} (hwf : input.WellFormed) (options : List RbacOption)
    (request : Request) :
    (law input options).Lists request (matching request
      (sortBy (PriorityLe Permission.priority Permission.id)
        (input.granted options request.subject request.tenant))) := by
  refine ⟨?_, fun m => ?_⟩
  · refine List.Nodup.of_map Prod.fst ?_
    rw [matching, List.map_map]
    have hsorted : ((sortBy (PriorityLe Permission.priority Permission.id)
        (input.granted options request.subject request.tenant)).map Permission.id).Nodup :=
      ((sortBy_perm _ _).map _).nodup_iff.mpr (granted_nodup hwf options _ _)
    exact hsorted.sublist (List.filter_sublist.map Permission.id)
  · rw [matching, List.mem_map]
    constructor
    · rintro ⟨permission, hpermission, rfl⟩
      obtain ⟨hmem, hmatches⟩ := List.mem_filter.mp hpermission
      exact ⟨permission, (mem_granted_iff hwf.roles_nodup).mp ((mem_sortBy _).mp hmem),
        of_decide_eq_true hmatches, rfl⟩
    · rintro ⟨permission, hgrants, hmatches, rfl⟩
      exact ⟨permission, List.mem_filter.mpr ⟨(mem_sortBy _).mpr
        ((mem_granted_iff hwf.roles_nodup).mpr hgrants), decide_eq_true hmatches⟩, rfl⟩

/-- **A role graph follows its law**, whatever the orders of its ranges. -/
theorem follows_law {ranges : RoleRanges} {input : Input} {options : List RbacOption}
    {evaluator : Evaluator}
    (hnew : new ranges input.roles input.permissions input.assignments options = .ok evaluator)
    (order : W → MapRange RoleID) (hctx : ctx.Quiet) :
    Core.Evaluator.Follows ctx (evaluator.policy order) (law input options) := by
  obtain ⟨hwf, rfl⟩ := new_eq_ok hnew
  have hcall : ∀ request w, ∃ w', (input.evaluator options).policy order ctx request w
      = (.returned ((input.evaluator options).evaluate (order w) ctx request w).1.1
          ((input.evaluator options).evaluate (order w) ctx request w).1.2, w') :=
    fun request w => ⟨_, rfl⟩
  refine ⟨fun request w hadmits => ?_, fun request w hrefuses => ?_⟩
  · obtain ⟨w', hw⟩ := hcall request w
    obtain ⟨hgroups, hcount⟩ := (law_lists hwf options request).admits_iff.mp hadmits
    have hfits : _ ≤ (configured options).limits.maxMatches := hcount
    rw [hw, evaluate_eq hctx hwf hgroups, if_pos hfits]
    exact ⟨_, rfl, (law_lists hwf options request).rules (decided_tableDecision reasons _)⟩
  · obtain ⟨w', hw⟩ := hcall request w
    rw [(law_lists hwf options request).admits_iff, not_and] at hrefuses
    rw [hw]
    by_cases hgroups : (request.subject.groups.length : Int) ≤ (configured options).limits.maxGroups
    · have hmany : ¬ _ ≤ (configured options).limits.maxMatches := hrefuses hgroups
      rw [evaluate_eq hctx hwf hgroups, if_neg hmany]
      exact ⟨_, _, rfl⟩
    · obtain ⟨w₁, hw₁⟩ := hctx.err_eq w
      have heffective : (input.evaluator options).effectivePermissions (order w) ctx
          request.subject request.tenant w = (.error (.sentinel .rbacErrGroupLimitExceeded), w₁) := by
        rw [effectivePermissions_eq hwf, hw₁]
        exact if_pos (not_le.mp hgroups)
      rw [Evaluator.evaluate, heffective]
      exact ⟨_, _, rfl⟩

end Rbac

/-! ### Rules -/

namespace Abac

/-- The visits that the rules in scope take together. -/
def scopePrice (request : Request) (maxSetSize : Int) (rules : List Rule) : Nat :=
  ((rules.filter fun rule => rule.inScope request).map fun rule =>
    (rule.condition.meaning request maxSetSize).price).sum

/-- No rule in scope meets a set that is too large. -/
def SetsFit (request : Request) (maxSetSize : Int) (rules : List Rule) : Prop :=
  ∀ rule ∈ rules, rule.inScope request = true →
    (rule.condition.meaning request maxSetSize).value ≠ .tooLarge

/-- The rules whose scope covers the request and whose condition holds, up to the limits
on matches, sets and visits. -/
def law (rules : List Rule) (namedConditions : List NamedCondition) (options : List Limits) :
    Law where
  matched request := {item | ∃ rule ∈ rules, rule.Covers request ∧
    (rule.bound (namedMap namedConditions)).holds request (configured options) = true ∧
      item = (rule.id, rule.effect)}
  maxMatches := (configured options).maxMatches
  within request :=
    SetsFit request (configured options).maxSetSize
      (rules.map (Rule.bind (namedMap namedConditions))) ∧
    (scopePrice request (configured options).maxSetSize
      (rules.map (Rule.bind (namedMap namedConditions))) : Int) ≤ (configured options).maxCost

/-- The evaluator as a policy of an engine. -/
def Evaluator.policy (evaluator : Evaluator) : Core.Evaluator W := fun ctx request w =>
  evaluator.evaluate ctx request w

theorem scopePrice_cons (request : Request) (maxSetSize : Int) (rule : Rule) (rest : List Rule) :
    scopePrice request maxSetSize (rule :: rest)
      = (if rule.inScope request then (rule.condition.meaning request maxSetSize).price else 0)
        + scopePrice request maxSetSize rest := by
  rw [scopePrice, List.filter_cons]
  split
  · rw [List.map_cons, List.sum_cons]
    rfl
  · rw [Nat.zero_add]
    rfl

theorem scopePrice_perm (request : Request) (maxSetSize : Int) {rules rules' : List Rule}
    (h : rules.Perm rules') :
    scopePrice request maxSetSize rules = scopePrice request maxSetSize rules' :=
  ((h.filter _).map _).sum_eq

/-- **A loop that ends with a decision went through all the rules in scope.** -/
theorem rulesMeaning_answered (maxMatches : Int) (request : Request) (maxSetSize : Int) :
    ∀ (rules : List Rule) (decision decided : Decision),
      (rulesMeaning maxMatches request maxSetSize decision rules).value = .returned decided none →
      SetsFit request maxSetSize rules ∧
        (rulesMeaning maxMatches request maxSetSize decision rules).price
          = scopePrice request maxSetSize rules := by
  intro rules
  induction rules with
  | nil =>
    intro decision decided _
    exact ⟨fun _ h => absurd h List.not_mem_nil, rfl⟩
  | cons rule rest ih =>
    intro decision decided h
    rw [rulesMeaning] at h ⊢
    rw [scopePrice_cons]
    by_cases hscope : rule.inScope request = true
    · rw [if_neg (by simp [hscope]), Priced.bind_value] at h
      rw [if_neg (by simp [hscope]), if_pos hscope, Priced.bind_price]
      cases hverdict : (rule.condition.meaning request maxSetSize).value with
      | panicked => rw [hverdict] at h; cases h
      | tooLarge => rw [hverdict] at h; cases h
      | decided status =>
        rw [hverdict] at h
        dsimp only at h ⊢
        -- what is left of the loop, from whatever was recorded for this rule
        have hrest : ∀ {recorded : Decision},
            (rulesMeaning maxMatches request maxSetSize recorded rest).value
              = .returned decided none →
            SetsFit request maxSetSize (rule :: rest) ∧
            (rule.condition.meaning request maxSetSize).price
                + (rulesMeaning maxMatches request maxSetSize recorded rest).price
              = (rule.condition.meaning request maxSetSize).price
                + scopePrice request maxSetSize rest := by
          intro recorded hrecorded
          obtain ⟨hfit, hprice⟩ := ih recorded decided hrecorded
          refine ⟨List.forall_mem_cons.mpr ⟨fun _ => ?_, hfit⟩, by rw [hprice]⟩
          rw [hverdict]
          exact fun h => Verdict.noConfusion h
        by_cases hmatch : status = .statusMatch
        · simp only [if_pos hmatch] at h ⊢
          cases hrecord : recordMatch reasons maxMatches decision (rule.id, rule.effect) with
          | none => rw [hrecord] at h; cases h
          | some recorded =>
            rw [hrecord] at h
            exact hrest h
        · simp only [if_neg hmatch] at h ⊢
          exact hrest h
    · rw [if_pos (by simp [hscope])] at h
      rw [if_pos (by simp [hscope]), if_neg hscope, Nat.zero_add]
      obtain ⟨hfit, hprice⟩ := ih decision decided h
      exact ⟨List.forall_mem_cons.mpr ⟨fun h => absurd h hscope, hfit⟩, hprice⟩

/-- Whatever the loop ends with, if no set is too large it ends with a decision or with
the match limit. -/
theorem rulesMeaning_of_setsFit (maxMatches : Int) (request : Request) (maxSetSize : Int) :
    ∀ (rules : List Rule) (decision : Decision), SetsFit request maxSetSize rules →
      (∀ rule ∈ rules, rule.condition.wellFormed = true) →
      ∃ decided err,
        (rulesMeaning maxMatches request maxSetSize decision rules).value = .returned decided err ∧
        err ≠ some (.sentinel .abacErrSetLimitExceeded) := by
  intro rules
  induction rules with
  | nil => intro decision _ _; exact ⟨decision, none, rfl, nofun⟩
  | cons rule rest ih =>
    intro decision hfit hwell
    obtain ⟨hrule, hrest⟩ := List.forall_mem_cons.mp hfit
    obtain ⟨hwellRule, hwellRest⟩ := List.forall_mem_cons.mp hwell
    rw [rulesMeaning]
    by_cases hscope : rule.inScope request = true
    · rw [if_neg (by simp [hscope]), Priced.bind_value]
      cases hverdict : (rule.condition.meaning request maxSetSize).value with
      | panicked => exact absurd hverdict (meaning_ne_panicked rule.condition hwellRule)
      | tooLarge => exact absurd hverdict (hrule hscope)
      | decided status =>
        dsimp only
        by_cases hmatch : status = .statusMatch
        · simp only [if_pos hmatch]
          cases recordMatch reasons maxMatches decision (rule.id, rule.effect) with
          | none => exact ⟨_, _, rfl, fun h => by cases h⟩
          | some recorded => exact ih recorded hrest hwellRest
        · simp only [if_neg hmatch]
          exact ih decision hrest hwellRest
    · rw [if_pos (by simp [hscope])]
      exact ih decision hrest hwellRest

section Follows

variable {rules : List Rule} {namedConditions : List NamedCondition} {options : List Limits}

theorem wellFormed_boundEvaluator (haccepted : Accepted rules namedConditions options) :
    ∀ rule ∈ (boundEvaluator rules namedConditions options).rules,
      rule.condition.wellFormed = true := by
  intro rule hmem
  obtain ⟨source, hsource, rfl⟩ := List.mem_map.mp ((mem_sortBy _).mp hmem)
  exact wellFormed_of_valid (haccepted.rules_ok source hsource).valid

theorem law_lists (haccepted : Accepted rules namedConditions options) (request : Request) :
    (law rules namedConditions options).Lists request
      ((matchingRules request (configured options).maxSetSize
        (boundEvaluator rules namedConditions options).rules).map Rule.contribution) := by
  refine ⟨?_, fun m => ?_⟩
  · refine List.Nodup.of_map Prod.fst ?_
    rw [List.map_map]
    have hsorted : ((boundEvaluator rules namedConditions options).rules.map Rule.id).Nodup :=
      ((sortBy_perm _ _).map _).nodup_iff.mpr (bind_ids_nodup haccepted.rules_nodup _)
    exact hsorted.sublist (List.filter_sublist.map Rule.id)
  · rw [List.mem_map]
    constructor
    · rintro ⟨bound, hbound, rfl⟩
      obtain ⟨rule, hrule, rfl, hcovers, hholds⟩ := (mem_matchingRules haccepted).mp hbound
      exact ⟨rule, hrule, hcovers, hholds, rfl⟩
    · rintro ⟨rule, hrule, hcovers, hholds, rfl⟩
      exact ⟨rule.bind (namedMap namedConditions),
        (mem_matchingRules haccepted).mpr ⟨rule, hrule, rfl, hcovers, hholds⟩, rfl⟩

/-- The limits of the law, on the sorted rules of the evaluator. -/
theorem within_law_iff (request : Request) : (law rules namedConditions options).within request ↔
    SetsFit request (configured options).maxSetSize
      (boundEvaluator rules namedConditions options).rules ∧
    (scopePrice request (configured options).maxSetSize
      (boundEvaluator rules namedConditions options).rules : Int) ≤ (configured options).maxCost := by
  have hperm : (boundEvaluator rules namedConditions options).rules.Perm
      (rules.map (Rule.bind (namedMap namedConditions))) := sortBy_perm _ _
  rw [scopePrice_perm _ _ hperm]
  refine and_congr_left fun _ => ?_
  exact ⟨fun h rule hrule => h rule (hperm.mem_iff.mp hrule),
    fun h rule hrule => h rule (hperm.mem_iff.mpr hrule)⟩

/-- **A rule set follows its law.** -/
theorem follows_law {evaluator : Evaluator}
    (hnew : new rules namedConditions options = .ok evaluator) (hctx : ctx.Quiet) :
    Core.Evaluator.Follows ctx evaluator.policy (law rules namedConditions options) := by
  obtain ⟨haccepted, rfl⟩ := new_eq_ok_iff.mp hnew
  have hpositive := configured_positive options
  have hwell := wellFormed_boundEvaluator haccepted
  let bound := (boundEvaluator rules namedConditions options).rules
  let meaning := fun request => rulesMeaning (configured options).maxMatches request
    (configured options).maxSetSize {} bound
  -- the value if it can be paid for, or else the exhausted budget
  have hruns : ∀ request w,
      ((meaning request).price ≤ (configured options).maxCost ∧
        ((boundEvaluator rules namedConditions options).policy ctx request w).1
          = (meaning request).value) ∨
      ((configured options).maxCost < (meaning request).price ∧
        ((boundEvaluator rules namedConditions options).policy ctx request w).1
          = endingCall .exhausted) := by
    intro request w
    obtain ⟨ending, n, w', hmetered, hloop, -⟩ := evaluateRules_metered
      (configured options).maxMatches bound
      ((boundEvaluator rules namedConditions options).start ctx request) {} w hpositive.maxCost.le
    have hevaluate : (boundEvaluator rules namedConditions options).policy ctx request w
        = (endingCall ending, w') := hloop
    have hspent : ((boundEvaluator rules namedConditions options).start ctx request).cost = 0 := rfl
    have hsettled := hmetered.settled (not_fails hctx)
    rw [hspent, Nat.cast_zero, Int.zero_add, Nat.zero_add] at hsettled
    rw [hevaluate]
    rcases hsettled with ⟨hle, rfl, -⟩ | ⟨hlt, rfl, -⟩
    · exact Or.inl ⟨hle, rfl⟩
    · exact Or.inr ⟨hlt, rfl⟩
  refine ⟨fun request w hadmits => ?_, fun request w hrefuses => ?_⟩
  · obtain ⟨hwithin, hfits⟩ := (law_lists haccepted request).admits_iff.mp hadmits
    obtain ⟨hsets, hcost⟩ := (within_law_iff request).mp hwithin
    obtain ⟨decided, err, hvalue, hset⟩ := rulesMeaning_of_setsFit (configured options).maxMatches
      request (configured options).maxSetSize bound {} hsets hwell
    obtain ⟨-, -, htable⟩ := recorded_table hpositive.maxMatches
      (rulesMeaning_value _ _ _ _ _ _ _ hvalue hset)
    rw [List.length_map] at hfits
    obtain ⟨rfl, hdecided⟩ := htable hfits
    obtain ⟨-, hprice⟩ := rulesMeaning_answered _ _ _ _ _ _ hvalue
    rcases hruns request w with ⟨-, hresult⟩ | ⟨hshort, -⟩
    · exact ⟨decided, hresult.trans hvalue, (law_lists haccepted request).rules hdecided⟩
    · have hpaid : (meaning request).price = scopePrice request (configured options).maxSetSize
          bound := hprice
      rw [hpaid] at hshort
      exact absurd hcost (not_le.mpr hshort)
  · rcases hruns request w with ⟨hpaid, hresult⟩ | ⟨-, hresult⟩
    · cases hvalue : (meaning request).value with
      | panicked => exact absurd hvalue (rulesMeaning_ne_panicked _ _ _ _ _ hwell)
      | returned decided err =>
        cases err with
        | some err => exact ⟨decided, err, hresult.trans hvalue⟩
        | none =>
          -- an answer would mean that the law admits the request
          obtain ⟨hsets, hprice⟩ := rulesMeaning_answered _ _ _ _ _ _ hvalue
          obtain ⟨hlimit, -, -⟩ := recorded_table hpositive.maxMatches
            (rulesMeaning_value _ _ _ _ _ _ _ hvalue nofun)
          have hfits : ¬ (configured options).maxMatches < _ :=
            fun h => absurd (hlimit.mpr h) (Option.some_ne_none _).symm
          refine absurd ((law_lists haccepted request).admits_iff.mpr ⟨?_, ?_⟩) hrefuses
          · exact (within_law_iff request).mpr ⟨hsets, hprice ▸ hpaid⟩
          · rw [List.length_map]
            exact not_lt.mp hfits
    · exact ⟨_, _, hresult⟩

end Follows

end Abac

end Authorization
