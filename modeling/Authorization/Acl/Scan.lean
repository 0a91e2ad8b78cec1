import Authorization.Acl.Listing

/-!
# Evaluation as a scan

The index and the list of principals are there for speed.  What `Evaluate` answers
is what one would get by reading the entries one after the other (`scan`): every
entry that matches the request counts once, however often a group is listed and
whether or not the subject is one of its own groups.

The keys looked up are distinct (`nodup_principalKeys`), so the buckets read are
disjoint, and together they hold the entries of the scan in another order
(`matched_perm_scan`).  The order shows in the order of the identifiers only.
-/

namespace Authorization.Acl

open Authorization.Foundation Authorization.Core

variable {W : Type} {ctx : Context W}

/-- The entry matches the request, field by field. -/
structure Entry.Matches (entry : Entry) (inheritGlobal : Bool) (request : Request) : Prop where
  principal : (entry.subject.kind = request.subject.kind ∧ entry.subject.id = request.subject.id) ∨
    (entry.subject.kind = subjectGroup ∧ entry.subject.id ∈ request.subject.groups)
  action : entry.action = request.action
  resourceType : entry.resourceType = request.resource.type
  resourceID : entry.resourceID = [] ∨ entry.resourceID = request.resource.id
  tenant : entry.tenant = request.tenant ∨
    (entry.tenant = [] ∧ inheritGlobal = true ∧ request.tenant ≠ [])

theorem matches_iff {entry : Entry} {inheritGlobal : Bool} {request : Request} :
    entry.Matches inheritGlobal request ↔
      ((entry.subject.kind = request.subject.kind ∧ entry.subject.id = request.subject.id) ∨
        (entry.subject.kind = subjectGroup ∧ entry.subject.id ∈ request.subject.groups)) ∧
      entry.action = request.action ∧ entry.resourceType = request.resource.type ∧
      (entry.resourceID = [] ∨ entry.resourceID = request.resource.id) ∧
      (entry.tenant = request.tenant ∨
        (entry.tenant = [] ∧ inheritGlobal = true ∧ request.tenant ≠ [])) :=
  ⟨fun h => ⟨h.principal, h.action, h.resourceType, h.resourceID, h.tenant⟩,
    fun h => ⟨h.1, h.2.1, h.2.2.1, h.2.2.2.1, h.2.2.2.2⟩⟩

instance decidableMatches (entry : Entry) (inheritGlobal : Bool) (request : Request) :
    Decidable (entry.Matches inheritGlobal request) :=
  decidable_of_iff _ matches_iff.symm

/-- The entries that match, in the order of the list. -/
def scan (inheritGlobal : Bool) (request : Request) (entries : List Entry) : List Entry :=
  entries.filter fun entry => entry.Matches inheritGlobal request

/-! ### The index holds what the scan finds -/

theorem nodup_principalKeys (action : Action) (resourceType : ResourceType) :
    ∀ (subjects : List Subject) (seen : List EntryKey),
      (principalKeys action resourceType seen subjects).Nodup := by
  intro subjects
  induction subjects with
  | nil => intro seen; exact List.nodup_nil
  | cons principal rest ih =>
    intro seen
    rw [principalKeys]
    split
    · exact ih seen
    · refine List.nodup_cons.mpr ⟨fun hmem => ?_, ih _⟩
      exact (mem_principalKeys.mp hmem).1 List.mem_cons_self

theorem matchesTenant_iff {inheritGlobal : Bool} {entryTenant requestTenant : TenantID} :
    matchesTenant inheritGlobal entryTenant requestTenant = true ↔
      entryTenant = requestTenant ∨
        (entryTenant = [] ∧ inheritGlobal = true ∧ requestTenant ≠ []) := by
  unfold matchesTenant
  by_cases heq : entryTenant = requestTenant
  · simp [heq]
  · by_cases hrequest : requestTenant = []
    · simp [hrequest]
    · by_cases hentry : entryTenant = []
      · simp [hrequest, hentry]
      · simp [heq, hrequest, hentry]

/-- An entry's key is one of those looked up when it names the subject or one of its
groups, the action and the type. -/
theorem key_mem_principalKeys {entry : Entry} {subject : Subject} {action : Action}
    {resourceType : ResourceType} :
    entry.key ∈ principalKeys action resourceType [] (principals subject) ↔
      ((entry.subject.kind = subject.kind ∧ entry.subject.id = subject.id) ∨
        (entry.subject.kind = subjectGroup ∧ entry.subject.id ∈ subject.groups)) ∧
      entry.action = action ∧ entry.resourceType = resourceType := by
  rw [mem_principalKeys, principals]
  simp only [List.not_mem_nil, not_false_eq_true, true_and, List.mem_cons, List.mem_map,
    exists_eq_or_imp, exists_exists_and_eq_and, Entry.key, principalKey, EntryKey.mk.injEq]
  constructor
  · rintro (⟨hkind, hid, haction, htype⟩ | ⟨group, hgroup, hkind, hid, haction, htype⟩)
    · exact ⟨Or.inl ⟨hkind, hid⟩, haction, htype⟩
    · exact ⟨Or.inr ⟨hkind, hid ▸ hgroup⟩, haction, htype⟩
  · rintro ⟨⟨hkind, hid⟩ | ⟨hkind, hgroup⟩, haction, htype⟩
    · exact Or.inl ⟨hkind, hid, haction, htype⟩
    · exact Or.inr ⟨_, hgroup, hkind, rfl, haction, htype⟩

theorem applicable_perm {entries : List Entry} {options : List AclOption} {evaluator : Evaluator}
    (hnew : new entries options = .ok evaluator) (subject : Subject) (action : Action)
    (resourceType : ResourceType) (tenant : TenantID) :
    (applicable evaluator subject action resourceType tenant).Perm
      ((visible evaluator.inheritGlobal tenant entries).filter fun entry =>
        entry.key ∈ principalKeys action resourceType [] (principals subject)) := by
  have hindex : evaluator.entries = groupBy Entry.key entries := by rw [new_eq_ok hnew]
  have hbuckets : (fun key => visible evaluator.inheritGlobal tenant (bucket evaluator.entries key))
      = bucket (groupBy Entry.key (visible evaluator.inheritGlobal tenant entries)) := by
    funext key
    rw [hindex, visible_bucket, bucket_groupBy]
  rw [applicable, seenAt, hbuckets]
  exact flatMap_bucket_perm Entry.key _ (nodup_principalKeys action resourceType _ _)

/-- **The index holds what the scan finds**, each entry once. -/
theorem matched_perm_scan {entries : List Entry} {options : List AclOption}
    {evaluator : Evaluator} (hnew : new entries options = .ok evaluator) (request : Request) :
    (matched request (applicable evaluator request.subject request.action request.resource.type
        request.tenant)).Perm
      ((scan evaluator.inheritGlobal request entries).map fun entry => (entry.id, entry.effect)) := by
  have hperm := ((applicable_perm hnew request.subject request.action request.resource.type
    request.tenant).filter fun entry => entry.matchesResource request.resource.id).map
      fun entry => (entry.id, entry.effect)
  refine hperm.trans (List.Perm.of_eq ?_)
  rw [visible, List.filter_filter, List.filter_filter, scan]
  refine congrArg (List.map _) (List.filter_congr fun entry _ => ?_)
  rw [Bool.eq_iff_iff, Bool.and_eq_true, Bool.and_eq_true, decide_eq_true_eq, decide_eq_true_eq,
    matchesResource_iff, key_mem_principalKeys, matchesTenant_iff, matches_iff]
  constructor
  · rintro ⟨⟨hresource, hprincipal, haction, htype⟩, htenant⟩
    exact ⟨hprincipal, haction, htype, hresource, htenant⟩
  · rintro ⟨hprincipal, haction, htype, hresource, htenant⟩
    exact ⟨⟨hresource, hprincipal, haction, htype⟩, htenant⟩

/-! ### The answer -/

/-- A limit was exceeded: a denial with no identifier, and the error. -/
structure Refused (sentinel : Sentinel) (answer : Decision × Option GoError) : Prop where
  outcome : answer.1.outcome = .deny
  ids : answer.1.matchedPolicyIDs = []
  error : answer.2 = some (.sentinel sentinel)

theorem refused_limitDecision (sentinel : Sentinel) :
    Refused sentinel (reasons.limitDecision, some (.sentinel sentinel)) :=
  ⟨rfl, rfl, rfl⟩

/-- The decision table of the entries that match. -/
structure DecidedBy (matching : List Entry) (answer : Decision × Option GoError) : Prop where
  error : answer.2 = none
  deny : answer.1.outcome = .deny ↔ ∃ entry ∈ matching, entry.effect = .deny
  deny_reason : answer.1.outcome = .deny → answer.1.reason = reasons.explicitDeny
  allow : answer.1.outcome = .allow ↔
    matching ≠ [] ∧ ∀ entry ∈ matching, entry.effect ≠ .deny
  allow_reason : answer.1.outcome = .allow → answer.1.reason = reasons.allow
  notApplicable : answer.1.outcome = .notApplicable ↔ matching = []
  ids : answer.1.matchedPolicyIDs.Perm (matching.map Entry.id)
  once : answer.1.matchedPolicyIDs.Nodup

/-- What a scan that found `matching` answers. -/
structure Scanned (limits : Limits) (request : Request) (matching : List Entry)
    (answer : Decision × Option GoError) : Prop where
  groups : (request.subject.groups.length : Int) > limits.maxGroups →
    Refused .aclErrGroupLimitExceeded answer
  tooMany : (request.subject.groups.length : Int) ≤ limits.maxGroups →
    (matching.length : Int) > limits.maxMatches → Refused .aclErrMatchLimitExceeded answer
  decided : (request.subject.groups.length : Int) ≤ limits.maxGroups →
    (matching.length : Int) ≤ limits.maxMatches → DecidedBy matching answer

theorem maxMatches_configured (options : List AclOption) :
    0 < (configured options).limits.maxMatches := by
  refine List.foldlRecOn (motive := fun evaluator => 0 < evaluator.limits.maxMatches) options
    AclOption.apply ?_ fun evaluator h option _ => ?_
  · decide
  · cases option with
    | withGlobalInheritance => exact h
    | withLimits limits => exact overrideLimit_pos h

theorem maxMatches_of_new {entries : List Entry} {options : List AclOption}
    {evaluator : Evaluator} (hnew : new entries options = .ok evaluator) :
    0 < evaluator.limits.maxMatches := by
  rw [new_eq_ok hnew]
  exact maxMatches_configured options

/-- The answer within the caps, from the matches in any order. -/
theorem decidedBy_settle {matching : List Entry} {ms : List (PolicyID × Outcome)}
    {maxMatches : Int} (hperm : ms.Perm (matching.map fun entry => (entry.id, entry.effect)))
    (hfits : (matching.length : Int) ≤ maxMatches) (hnodup : (matching.map Entry.id).Nodup) :
    DecidedBy matching (settle (recordAll reasons maxMatches {} ms)) := by
  have hlength : ms.length = matching.length := by rw [hperm.length_eq, List.length_map]
  have hnil : ms = [] ↔ matching = [] := by
    rw [← List.length_eq_zero_iff, hlength, List.length_eq_zero_iff]
  have heffects : ∀ P : Outcome → Prop, (∃ m ∈ ms, P m.2) ↔ ∃ entry ∈ matching, P entry.effect := by
    intro P
    constructor
    · rintro ⟨m, hm, hP⟩
      obtain ⟨entry, hentry, rfl⟩ := List.mem_map.mp (hperm.mem_iff.mp hm)
      exact ⟨entry, hentry, hP⟩
    · rintro ⟨entry, hentry, hP⟩
      exact ⟨_, hperm.mem_iff.mpr (List.mem_map_of_mem hentry), hP⟩
  have hids : (ms.map Prod.fst).Perm (matching.map Entry.id) := by
    have h := hperm.map Prod.fst
    rw [List.map_map] at h
    exact h
  have htable := decided_tableDecision reasons ms
  rw [recordAll_zero, if_pos (Or.inr (by omega))]
  refine ⟨rfl, ?_, htable.deny_reason, ?_, htable.allow_reason, htable.notApplicable.trans hnil,
    ?_, ?_⟩
  · exact htable.deny.trans (heffects (· = .deny))
  · refine htable.allow.trans (and_congr (not_congr hnil) ?_)
    have h := not_congr (heffects (· = .deny))
    simp only [not_exists, not_and] at h
    exact h
  · show (tableDecision reasons ms).matchedPolicyIDs.Perm _
    rw [htable.ids]
    exact hids
  · show (tableDecision reasons ms).matchedPolicyIDs.Nodup
    rw [htable.ids]
    exact hids.nodup_iff.mpr hnodup

theorem evaluate_capped (hctx : ctx.Quiet) {evaluator : Evaluator} {request : Request} {w : W}
    (hcap : (request.subject.groups.length : Int) ≤ evaluator.limits.maxGroups) :
    (evaluator.evaluate ctx request w).1
      = settle (recordAll reasons evaluator.limits.maxMatches {} (matched request
          (applicable evaluator request.subject request.action request.resource.type
            request.tenant))) := by
  rw [evaluate_quiet hctx, if_neg (by omega)]

theorem scanned_evaluate {entries : List Entry} {options : List AclOption} {evaluator : Evaluator}
    (hnew : new entries options = .ok evaluator) (hctx : ctx.Quiet) (request : Request) (w : W) :
    Scanned evaluator.limits request (scan evaluator.inheritGlobal request entries)
      (evaluator.evaluate ctx request w).1 := by
  have hperm := matched_perm_scan hnew request
  have hmax := maxMatches_of_new hnew
  refine ⟨fun hgroups => ?_, fun hgroups hmany => ?_, fun hgroups hfits => ?_⟩
  · rw [evaluate_quiet hctx, if_pos hgroups]
    exact refused_limitDecision _
  · have hlength := hperm.length_eq
    rw [List.length_map] at hlength
    rw [evaluate_capped hctx hgroups, recordAll_zero, if_neg]
    · exact refused_limitDecision _
    · rintro (hnil | hle)
      · rw [hnil, List.length_nil] at hlength
        omega
      · omega
  · rw [evaluate_capped hctx hgroups]
    refine decidedBy_settle hperm hfits ?_
    exact (new_eq_ok_iff.mp hnew).1.2.1.sublist (List.filter_sublist.map Entry.id)

/-! ### Order and repetition -/

/-- The request with other groups. -/
def withGroups (request : Request) (groups : List SubjectID) : Request :=
  { request with subject := { request.subject with groups := groups } }

/-- The same groups, in whatever order and however often. -/
def SameGroups (groups groups' : List SubjectID) : Prop := ∀ group, group ∈ groups ↔ group ∈ groups'

/-- Two answers that differ at most in the order of the identifiers. -/
def SameAnswer (answer answer' : Decision × Option GoError) : Prop :=
  answer.1.Reordered answer'.1 ∧ answer.2 = answer'.2

theorem scan_withGroups {inheritGlobal : Bool} {request : Request} {groups : List SubjectID}
    (hgroups : SameGroups request.subject.groups groups) (entries : List Entry) :
    scan inheritGlobal (withGroups request groups) entries
      = scan inheritGlobal request entries := by
  refine List.filter_congr fun entry _ => decide_eq_decide.mpr ?_
  rw [matches_iff, matches_iff]
  simp only [withGroups, hgroups entry.subject.id]

theorem settle_reordered {maxMatches : Int} {ms ms' : List (PolicyID × Outcome)}
    (hperm : ms.Perm ms') :
    SameAnswer (settle (recordAll reasons maxMatches {} ms))
      (settle (recordAll reasons maxMatches {} ms')) := by
  rcases recordAll_reordered reasons maxMatches (Decision.Reordered.refl {}) hperm with
    ⟨h, h'⟩ | ⟨decision, decision', h, h', hreordered⟩
  · rw [h, h']
    exact ⟨Decision.Reordered.refl _, rfl⟩
  · rw [h, h']
    exact ⟨hreordered, rfl⟩

/-- **Evaluation is a scan of the entries**, and neither the order of the entries nor
the order or repetition of the groups shows in it. -/
theorem evaluate_scan {entries : List Entry} {options : List AclOption} {evaluator : Evaluator}
    (hnew : new entries options = .ok evaluator) :
    (∀ {W : Type} {ctx : Context W}, ctx.Quiet → ∀ request w,
      Scanned evaluator.limits request (scan evaluator.inheritGlobal request entries)
        (evaluator.evaluate ctx request w).1) ∧
    ∀ entries', entries'.Perm entries →
      ∃ evaluator', new entries' options = .ok evaluator' ∧
        ∀ {W W' : Type} {ctx : Context W} {ctx' : Context W'}, ctx.Quiet → ctx'.Quiet →
          ∀ request groups w w', SameGroups request.subject.groups groups →
            (request.subject.groups.length : Int) ≤ evaluator.limits.maxGroups →
            (groups.length : Int) ≤ evaluator.limits.maxGroups →
            SameAnswer (evaluator.evaluate ctx request w).1
              (evaluator'.evaluate ctx' (withGroups request groups) w').1 := by
  refine ⟨fun hctx request w => scanned_evaluate hnew hctx request w, ?_⟩
  intro entries' hentries
  obtain ⟨⟨hcount, hnodup, hcomplete⟩, heq⟩ := new_eq_ok_iff.mp hnew
  have hnew' : new entries' options
      = .ok { configured options with entries := groupBy Entry.key entries' } := by
    refine new_eq_ok_iff.mpr ⟨⟨?_, ?_, ?_⟩, rfl⟩
    · rw [hentries.length_eq]
      exact hcount
    · exact (hentries.map Entry.id).nodup_iff.mpr hnodup
    · exact fun entry hmem => hcomplete entry (hentries.mem_iff.mp hmem)
  refine ⟨_, hnew', ?_⟩
  intro W W' ctx ctx' hctx hctx' request groups w w' hsame hcap hcap'
  have hlimits : evaluator.limits = (configured options).limits := by rw [heq]
  have hinherit : evaluator.inheritGlobal = (configured options).inheritGlobal := by rw [heq]
  have hperm := matched_perm_scan hnew request
  have hperm' := matched_perm_scan hnew' (withGroups request groups)
  have hscan : (scan evaluator.inheritGlobal request entries).Perm
      (scan (configured options).inheritGlobal (withGroups request groups) entries') := by
    rw [scan_withGroups hsame, hinherit]
    exact (hentries.filter _).symm
  rw [evaluate_capped hctx hcap, evaluate_capped hctx' (hlimits ▸ hcap'), hlimits]
  exact settle_reordered (hperm.trans ((hscan.map _).trans hperm'.symm))

/-- The groups of `sharingSubject` once instead of twice, and the entries reversed. -/
theorem evaluate_scan_shared :
    let request : Request := { subject := sharingSubject, action := str "read",
                               resource := { type := str "doc", id := str "1" } }
    (scan false request sharedEntries).map Entry.id = [str "a", str "c"] ∧
    ∃ evaluator, new sharedEntries [] = .ok evaluator ∧
      Scanned evaluator.limits request (scan false request sharedEntries)
        (evaluator.evaluate (.background (W := Unit)) request ()).1 ∧
      ∃ evaluator', new sharedEntries.reverse [] = .ok evaluator' ∧
        SameAnswer (evaluator.evaluate (.background (W := Unit)) request ()).1
          (evaluator'.evaluate (.background (W := Unit)) (withGroups request [str "g"]) ()).1 := by
  intro request
  have hnew : new sharedEntries [] = .ok { configured [] with
    entries := groupBy Entry.key sharedEntries } := rfl
  obtain ⟨hscan, horder⟩ := evaluate_scan hnew
  obtain ⟨evaluator', hnew', hsame⟩ := horder sharedEntries.reverse (List.reverse_perm _)
  refine ⟨by decide, _, hnew, hscan Context.quiet_background request (), evaluator', hnew', ?_⟩
  exact hsame Context.quiet_background Context.quiet_background request [str "g"] () ()
    (fun group => by simp [request, sharingSubject]) (by decide) (by decide)

end Authorization.Acl
