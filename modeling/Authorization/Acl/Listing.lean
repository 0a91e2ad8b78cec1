import Authorization.Acl.Acl

/-!
# Listing and evaluation

`ListResourceIDs` and `Evaluate` walk the same index in two ways: one collects an
effect per instance and leaves at a denial of the whole type, the other filters by
instance.  Under a context that is not cancelled both are functions of one list, the
entries of the subject's keys that the tenant sees (`applicable`), and
`listing_agrees` compares them on it.
-/

namespace Authorization.Acl

open Authorization.Foundation Authorization.Core

variable {W : Type} {ctx : Context W}

/-! ### Both as functions of one list -/

/-- The entries of the keys that the tenant sees, key by key. -/
def seenAt (evaluator : Evaluator) (tenant : TenantID) (keys : List EntryKey) : List Entry :=
  keys.flatMap fun key => visible evaluator.inheritGlobal tenant (bucket evaluator.entries key)

def applicable (evaluator : Evaluator) (subject : Subject) (action : Action)
    (resourceType : ResourceType) (tenant : TenantID) : List Entry :=
  seenAt evaluator tenant (principalKeys action resourceType [] (principals subject))

theorem matched_append (request : Request) (entries entries' : List Entry) :
    matched request (entries ++ entries') = matched request entries ++ matched request entries' := by
  rw [matched, List.filter_append, List.map_append]
  rfl

/-- What `Evaluate` returns with its matches, all of them or too many. -/
def settle : Option Decision → Decision × Option GoError
  | none => (reasons.limitDecision, some (.sentinel .aclErrMatchLimitExceeded))
  | some decision => (decision, none)

theorem evaluatePrincipals_quiet (hctx : ctx.Quiet) (evaluator : Evaluator)
    (request : Request) : ∀ (principals : List Subject) (seen : List EntryKey)
    (decision : Decision) (w : W),
    (evaluatePrincipals evaluator ctx request principals seen decision w).1
      = settle (recordAll reasons evaluator.limits.maxMatches decision (matched request
          (seenAt evaluator request.tenant
            (principalKeys request.action request.resource.type seen principals)))) := by
  intro principals
  induction principals with
  | nil => intro seen decision w; rfl
  | cons principal rest ih =>
    intro seen decision w
    obtain ⟨w', hw⟩ := hctx.err_eq w
    rw [evaluatePrincipals, principalKeys, hw]
    dsimp only
    split
    · exact ih seen decision w'
    · rw [evaluateEntries_eq, seenAt, List.flatMap_cons, matched_append, recordAll_append]
      cases recordAll reasons evaluator.limits.maxMatches decision (matched request
        (visible evaluator.inheritGlobal request.tenant (bucket evaluator.entries
          (principalKey request.action request.resource.type principal)))) with
      | none => rfl
      | some decision' => exact ih _ decision' w'

theorem evaluate_quiet (hctx : ctx.Quiet) (evaluator : Evaluator)
    (request : Request) (w : W) : (evaluator.evaluate ctx request w).1 =
      if request.subject.groups.length > evaluator.limits.maxGroups then
        (reasons.limitDecision, some (.sentinel .aclErrGroupLimitExceeded))
      else settle (recordAll reasons evaluator.limits.maxMatches {} (matched request
        (applicable evaluator request.subject request.action request.resource.type
          request.tenant))) := by
  obtain ⟨w', hw⟩ := hctx.err_eq w
  rw [Evaluator.evaluate, hw]
  dsimp only
  split
  · rfl
  · exact evaluatePrincipals_quiet hctx evaluator request _ [] {} w'

/-- What `ListResourceIDs` returns when the entries are through, or before. -/
def conclude (order : MapRange ResourceID) :
    Except (Except GoError (List ResourceID)) ListState → Except GoError (List ResourceID)
  | .error early => early
  | .ok state => listed order state

theorem listKeys_quiet (hctx : ctx.Quiet) (evaluator : Evaluator)
    (order : MapRange ResourceID) (tenant : TenantID) : ∀ (keys : List EntryKey)
    (state : ListState) (w : W), (listKeys evaluator order ctx tenant keys state w).1
      = conclude order ((seenAt evaluator tenant keys).foldlM
          (listEntry evaluator.limits.maxMatches) state) := by
  intro keys
  induction keys with
  | nil => intro state w; rfl
  | cons key rest ih =>
    intro state w
    obtain ⟨w', hw⟩ := hctx.err_eq w
    rw [listKeys, hw]
    dsimp only
    rw [listEntries_visible, seenAt, List.flatMap_cons, List.foldlM_append]
    cases (visible evaluator.inheritGlobal tenant (bucket evaluator.entries key)).foldlM
      (listEntry evaluator.limits.maxMatches) state with
    | error early => rfl
    | ok state' => exact ih state' w'

theorem listResourceIDs_quiet (hctx : ctx.Quiet) (evaluator : Evaluator)
    (order : MapRange ResourceID) (subject : Subject) (action : Action)
    (resourceType : ResourceType) (tenant : TenantID) (w : W) :
    (evaluator.listResourceIDs order ctx subject action resourceType tenant w).1 =
      if subject.groups.length > evaluator.limits.maxGroups then
        .error (.sentinel .aclErrGroupLimitExceeded)
      else conclude order ((applicable evaluator subject action resourceType tenant).foldlM
        (listEntry evaluator.limits.maxMatches) {}) := by
  obtain ⟨w', hw⟩ := hctx.err_eq w
  rw [Evaluator.listResourceIDs, hw]
  dsimp only
  split
  · rfl
  · exact listKeys_quiet hctx evaluator order tenant _ {} w'

/-! ### What a listing has collected -/

abbrev Names (entries : List Entry) (resourceID : ResourceID) : Prop :=
  ∃ entry ∈ entries, entry.resourceID = resourceID

abbrev Denies (entries : List Entry) (resourceID : ResourceID) : Prop :=
  ∃ entry ∈ entries, entry.resourceID = resourceID ∧ entry.effect = .deny

/-- What the state of a listing says about the entries it has gone through. -/
structure Collected (entries : List Entry) (state : ListState) : Prop where
  count : state.matches' = entries.length
  typeWideDeny : ¬ Denies entries []
  typeWideAllow : state.typeWideAllow = true ↔ Names entries []
  untyped : state.resourceEffects.lookup [] = none
  effects : ∀ resourceID, resourceID ≠ [] → state.resourceEffects.lookup resourceID
    = if Denies entries resourceID then some .deny
      else if Names entries resourceID then some .allow else none

theorem collected_nil : Collected [] {} where
  count := rfl
  typeWideDeny := by rintro ⟨entry, hmem, -⟩; cases hmem
  typeWideAllow := by simp
  untyped := rfl
  effects := by intro resourceID _; rfl

theorem names_concat {entries : List Entry} {entry : Entry} {resourceID : ResourceID} :
    Names (entries ++ [entry]) resourceID ↔ Names entries resourceID ∨ entry.resourceID = resourceID := by
  simp [Names, or_and_right, exists_or]

theorem denies_concat {entries : List Entry} {entry : Entry} {resourceID : ResourceID} :
    Denies (entries ++ [entry]) resourceID ↔ Denies entries resourceID ∨
      entry.resourceID = resourceID ∧ entry.effect = .deny := by
  simp [Denies, or_and_right, exists_or]

/-- **One entry**: an early return at the limit or a denial of the type, or one
entry more. -/
theorem Collected.listEntry {entries : List Entry} {state : ListState}
    (h : Collected entries state) (maxMatches : Int) {entry : Entry}
    (heffect : entry.effect = .allow ∨ entry.effect = .deny) :
    listEntry maxMatches state entry = .error (.error (.sentinel .aclErrMatchLimitExceeded)) ∨
    (listEntry maxMatches state entry = .error (.ok []) ∧
      entry.resourceID = [] ∧ entry.effect = .deny) ∨
    ∃ state', listEntry maxMatches state entry = .ok state' ∧ state'.matches' ≤ maxMatches ∧
      Collected (entries ++ [entry]) state' := by
  have hcount : ((state.matches' + 1 : Nat) : Int) = state.matches' + 1 := by push_cast; rfl
  unfold Acl.listEntry
  split
  · exact Or.inl rfl
  · rename_i hroom
    have hle : ((state.matches' + 1 : Nat) : Int) ≤ maxMatches := by omega
    have hlength : state.matches' + 1 = (entries ++ [entry]).length := by
      rw [h.count, List.length_append]
      rfl
    dsimp only
    by_cases hwide : entry.resourceID = []
    · rw [if_pos hwide]
      by_cases hdeny : entry.effect = .deny
      · exact Or.inr (Or.inl ⟨if_pos hdeny, hwide, hdeny⟩)
      · rw [if_neg hdeny]
        refine Or.inr (Or.inr ⟨_, rfl, hle, hlength, ?_, ?_, h.untyped, ?_⟩)
        · rw [denies_concat]
          rintro (hd | hd)
          · exact h.typeWideDeny hd
          · exact hdeny hd.2
        · rw [names_concat]
          exact ⟨fun _ => Or.inr hwide, fun _ => rfl⟩
        · intro resourceID hne
          have hother : entry.resourceID ≠ resourceID := fun he => hne (he ▸ hwide)
          simp only [denies_concat, names_concat, hother, false_and, or_false]
          exact h.effects resourceID hne
    · rw [if_neg hwide]
      have hkeep : ¬ Denies (entries ++ [entry]) [] ∧
          (state.typeWideAllow = true ↔ Names (entries ++ [entry]) []) := by
        simp only [denies_concat, names_concat, hwide, false_and, or_false]
        exact ⟨h.typeWideDeny, h.typeWideAllow⟩
      have hold := h.effects entry.resourceID hwide
      split
      · rename_i hset
        refine Or.inr (Or.inr ⟨_, rfl, hle, hlength, hkeep.1, hkeep.2, ?_, ?_⟩)
        · dsimp only
          rw [AList.lookup_insert_ne (Ne.symm hwide)]
          exact h.untyped
        · intro resourceID hne
          dsimp only
          by_cases hsame : entry.resourceID = resourceID
          · subst hsame
            rw [AList.lookup_insert]
            simp only [denies_concat, names_concat, true_and, or_true, if_true]
            rcases heffect with hallow | hdeny
            · have hallowed : entry.effect ≠ .deny := by rw [hallow]; decide
              have hnew : ¬ Denies entries entry.resourceID := by
                intro hd
                rw [hold, if_pos hd] at hset
                rcases hset with hset | hset
                · exact hallowed hset
                · cases hset
              rw [if_neg (not_or.mpr ⟨hnew, hallowed⟩), hallow]
            · rw [if_pos (Or.inr hdeny), hdeny]
          · rw [AList.lookup_insert_ne (Ne.symm hsame)]
            simp only [denies_concat, names_concat, hsame, false_and, or_false]
            exact h.effects resourceID hne
      · rename_i hset
        refine Or.inr (Or.inr ⟨_, rfl, hle, hlength, hkeep.1, hkeep.2, h.untyped, ?_⟩)
        obtain ⟨hallowed, hset⟩ := not_or.mp hset
        intro resourceID hne
        dsimp only
        by_cases hsame : entry.resourceID = resourceID
        · subst hsame
          have hnamed : Names entries entry.resourceID := by
            by_contra hn
            have hdenied : ¬ Denies entries entry.resourceID := by
              rintro ⟨other, hmem, he, -⟩
              exact hn ⟨other, hmem, he⟩
            rw [hold, if_neg hdenied, if_neg hn] at hset
            exact hset rfl
          simp only [denies_concat, names_concat, hallowed, and_false, or_false, hnamed, true_or,
            if_true]
          rw [hold, if_pos hnamed]
        · simp only [denies_concat, names_concat, hsame, false_and, or_false]
          exact h.effects resourceID hne

/-- **All entries**: the count stays under the limit, or the listing returns early. -/
theorem Collected.foldlM (maxMatches : Int) : ∀ {rest entries : List Entry} {state : ListState},
    Collected entries state → (∀ entry ∈ rest, entry.effect = .allow ∨ entry.effect = .deny) →
    rest.foldlM (Acl.listEntry maxMatches) state
        = .error (.error (.sentinel .aclErrMatchLimitExceeded)) ∨
    (rest.foldlM (Acl.listEntry maxMatches) state = .error (.ok []) ∧ Denies rest []) ∨
    ∃ state', rest.foldlM (Acl.listEntry maxMatches) state = .ok state' ∧
      (rest = [] ∨ (entries ++ rest).length ≤ maxMatches) ∧ Collected (entries ++ rest) state' := by
  intro rest
  induction rest with
  | nil =>
    intro entries state h _
    exact Or.inr (Or.inr ⟨state, rfl, Or.inl rfl, by rwa [List.append_nil]⟩)
  | cons entry rest ih =>
    intro entries state h heffects
    rw [List.foldlM_cons]
    rcases h.listEntry maxMatches (heffects entry List.mem_cons_self) with
      hlimit | ⟨hwide, hid, hdeny⟩ | ⟨state₁, hok, hle, hcollected⟩
    · exact Or.inl (by rw [hlimit]; rfl)
    · exact Or.inr (Or.inl ⟨by rw [hwide]; rfl, entry, List.mem_cons_self, hid, hdeny⟩)
    · rw [hok]
      rcases ih hcollected fun e he => heffects e (List.mem_cons_of_mem _ he) with
        hlimit | ⟨hwide, hdeny⟩ | ⟨state', hok', hbound, hcollected'⟩
      · exact Or.inl hlimit
      · obtain ⟨e, he, hrest⟩ := hdeny
        exact Or.inr (Or.inl ⟨hwide, e, List.mem_cons_of_mem _ he, hrest⟩)
      · rw [List.append_assoc] at hbound hcollected'
        refine Or.inr (Or.inr ⟨state', hok', Or.inr ?_, hcollected'⟩)
        rcases hbound with rfl | hbound
        · rw [← hcollected.count]
          exact hle
        · exact hbound

/-! ### Agreement -/

/-- The request asks what a listing is asked, of some resource. -/
structure Asks (request : Request) (subject : Subject) (action : Action)
    (resourceType : ResourceType) (tenant : TenantID) : Prop where
  subject_eq : request.subject = subject
  action_eq : request.action = action
  type_eq : request.resource.type = resourceType
  tenant_eq : request.tenant = tenant

/-- `Evaluate` returned Allow and no error. -/
def Allows (result : Decision × Option GoError) : Prop :=
  result.1.outcome = .allow ∧ result.2 = none

/-- The entry applies to the subject, action, type and tenant. -/
structure Entry.AppliesTo (entry : Entry) (inheritGlobal : Bool) (subject : Subject)
    (action : Action) (resourceType : ResourceType) (tenant : TenantID) : Prop where
  principal : ∃ principal ∈ principals subject,
    entry.subject.kind = principal.kind ∧ entry.subject.id = principal.id
  action_eq : entry.action = action
  type_eq : entry.resourceType = resourceType
  tenant_ok : matchesTenant inheritGlobal entry.tenant tenant = true

theorem mem_principalKeys {action : Action} {resourceType : ResourceType} {key : EntryKey} :
    ∀ {subjects : List Subject} {seen : List EntryKey},
      key ∈ principalKeys action resourceType seen subjects ↔
        key ∉ seen ∧ ∃ principal ∈ subjects, key = principalKey action resourceType principal := by
  intro subjects
  induction subjects with
  | nil => intro seen; simp [principalKeys]
  | cons principal rest ih =>
    intro seen
    rw [principalKeys]
    split
    · rename_i hseen
      rw [ih]
      constructor
      · rintro ⟨hnew, p, hp, he⟩
        exact ⟨hnew, p, List.mem_cons_of_mem _ hp, he⟩
      · rintro ⟨hnew, p, hp, he⟩
        rcases List.mem_cons.mp hp with rfl | hp
        · exact absurd (he ▸ hseen) hnew
        · exact ⟨hnew, p, hp, he⟩
    · rename_i hseen
      rw [List.mem_cons, ih]
      constructor
      · rintro (rfl | ⟨hnew, p, hp, he⟩)
        · exact ⟨hseen, principal, List.mem_cons_self, rfl⟩
        · exact ⟨fun hm => hnew (List.mem_cons_of_mem _ hm), p, List.mem_cons_of_mem _ hp, he⟩
      · rintro ⟨hnew, p, hp, he⟩
        by_cases hfirst : key = principalKey action resourceType principal
        · exact Or.inl hfirst
        · rcases List.mem_cons.mp hp with rfl | hp
          · exact absurd he hfirst
          · refine Or.inr ⟨fun hm => ?_, p, hp, he⟩
            rcases List.mem_cons.mp hm with hm | hm
            · exact hfirst hm
            · exact hnew hm

theorem mem_applicable {entries : List Entry} {options : List AclOption} {evaluator : Evaluator}
    (hnew : new entries options = .ok evaluator) {subject : Subject} {action : Action}
    {resourceType : ResourceType} {tenant : TenantID} {entry : Entry} :
    entry ∈ applicable evaluator subject action resourceType tenant ↔
      entry ∈ entries ∧
        entry.AppliesTo evaluator.inheritGlobal subject action resourceType tenant := by
  have hindex : evaluator.entries = groupBy Entry.key entries := by rw [new_eq_ok hnew]
  rw [applicable, seenAt, List.mem_flatMap]
  constructor
  · rintro ⟨key, hkey, hentry⟩
    rw [hindex, visible_bucket, List.mem_filter, visible, List.mem_filter] at hentry
    obtain ⟨⟨hmem, htenant⟩, hkey'⟩ := hentry
    obtain ⟨-, principal, hp, rfl⟩ := mem_principalKeys.mp hkey
    have heq := of_decide_eq_true hkey'
    simp only [Entry.key, principalKey, EntryKey.mk.injEq] at heq
    exact ⟨hmem, ⟨principal, hp, heq.1, heq.2.1⟩, heq.2.2.1, heq.2.2.2, htenant⟩
  · rintro ⟨hmem, ⟨principal, hp, hkind, hid⟩, haction, htype, htenant⟩
    refine ⟨entry.key, mem_principalKeys.mpr ⟨List.not_mem_nil, principal, hp, ?_⟩, ?_⟩
    · rw [Entry.key, principalKey, hkind, hid, haction, htype]
    · rw [hindex, visible_bucket, List.mem_filter, visible, List.mem_filter]
      exact ⟨⟨hmem, htenant⟩, decide_eq_true rfl⟩

theorem matchesResource_iff {entry : Entry} {resourceID : ResourceID} :
    entry.matchesResource resourceID = true ↔
      entry.resourceID = [] ∨ entry.resourceID = resourceID := by
  simp [Entry.matchesResource]

theorem allows_settle {maxMatches : Int} {ms : List (PolicyID × Outcome)} :
    Allows (settle (recordAll reasons maxMatches {} ms)) ↔
      ms.length ≤ maxMatches ∧ ms ≠ [] ∧ ∀ m ∈ ms, m.2 ≠ .deny := by
  rw [recordAll_zero]
  by_cases hnil : ms = []
  · rw [if_pos (Or.inl hnil)]
    exact ⟨fun h => absurd hnil ((decided_tableDecision reasons ms).allow.mp h.1).1,
      fun h => absurd hnil h.2.1⟩
  · by_cases hfits : (ms.length : Int) ≤ maxMatches
    · rw [if_pos (Or.inr hfits)]
      exact ⟨fun h => ⟨hfits, (decided_tableDecision reasons ms).allow.mp h.1⟩,
        fun h => ⟨(decided_tableDecision reasons ms).allow.mpr h.2, rfl⟩⟩
    · rw [if_neg (not_or.mpr ⟨hnil, hfits⟩)]
      exact ⟨fun h => absurd h.2 nofun, fun h => absurd h.1 hfits⟩

/-- **When `Evaluate` allows**, in terms of the applicable entries. -/
theorem allows_evaluate_iff (hctx : ctx.Quiet) (evaluator : Evaluator) {request : Request}
    {subject : Subject} {action : Action} {resourceType : ResourceType} {tenant : TenantID}
    (hasks : Asks request subject action resourceType tenant)
    (hgroups : ¬ subject.groups.length > evaluator.limits.maxGroups) (w : W) :
    Allows (evaluator.evaluate ctx request w).1 ↔
      (matched request (applicable evaluator subject action resourceType tenant)).length
          ≤ evaluator.limits.maxMatches ∧
      (∃ entry ∈ applicable evaluator subject action resourceType tenant,
        entry.matchesResource request.resource.id = true) ∧
      ∀ entry ∈ applicable evaluator subject action resourceType tenant,
        entry.matchesResource request.resource.id = true → entry.effect ≠ .deny := by
  obtain ⟨rfl, rfl, rfl, rfl⟩ := hasks
  rw [evaluate_quiet hctx, if_neg hgroups, allows_settle]
  refine and_congr_right fun _ => and_congr ?_ ?_
  · rw [matched, ne_eq, List.map_eq_nil_iff, List.filter_eq_nil_iff]
    simp only [not_forall, not_not, exists_prop]
  · simp only [matched, List.mem_map, List.mem_filter]
    constructor
    · intro h entry hmem hresource
      exact h _ ⟨entry, ⟨hmem, hresource⟩, rfl⟩
    · rintro h _ ⟨entry, ⟨hmem, hresource⟩, rfl⟩
      exact h entry hmem hresource

theorem length_matched_le (request : Request) (entries : List Entry) :
    (matched request entries).length ≤ entries.length := by
  rw [matched, List.length_map]
  exact List.length_filter_le _ _

/-- The allowed instances of a listing without an entry for the whole type. -/
theorem Collected.mem_listed {entries : List Entry} {state : ListState}
    (h : Collected entries state) {order : MapRange ResourceID} {ids : List ResourceID}
    (hlisted : listed order state = .ok ids) :
    ids.Pairwise (· < ·) ∧ ¬ Names entries [] ∧
      ∀ resourceID, resourceID ∈ ids ↔ Names entries resourceID ∧ ¬ Denies entries resourceID := by
  unfold listed at hlisted
  split at hlisted
  · cases hlisted
  · rename_i hwide
    have hunnamed : ¬ Names entries [] := fun hn => hwide (h.typeWideAllow.mpr hn)
    injection hlisted with hlisted
    subst hlisted
    refine ⟨?_, hunnamed, ?_⟩
    · exact pairwise_lt_sortBy
        (((order.perm _).nodup_iff.mpr state.resourceEffects.keys_nodup).filter _)
    · intro resourceID
      rw [mem_sortBy, List.mem_filter, MapRange.mem_order, decide_eq_true_eq]
      have hkeys : state.resourceEffects.lookup resourceID = some .allow →
          resourceID ∈ state.resourceEffects.keys := by
        intro hl
        exact AList.mem_keys.mp (AList.lookup_isSome.mp (by rw [hl]; rfl))
      rw [and_iff_right_of_imp hkeys]
      by_cases hne : resourceID = []
      · subst hne
        rw [h.untyped]
        exact ⟨fun hc => absurd hc (by simp), fun hc => absurd hc.1 hunnamed⟩
      · rw [h.effects resourceID hne]
        by_cases hdenied : Denies entries resourceID
        · simp [hdenied, Outcome.deny, Outcome.allow]
        · by_cases hnamed : Names entries resourceID
          · simp [hdenied, hnamed]
          · simp [hdenied, hnamed]

theorem effect_of_new {entries : List Entry} {options : List AclOption} {evaluator : Evaluator}
    (hnew : new entries options = .ok evaluator) :
    ∀ entry ∈ entries, entry.effect = .allow ∨ entry.effect = .deny := fun entry hmem =>
  ((new_eq_ok_iff.mp hnew).1.2.2 entry hmem).effect

/-- How a listing can end: at a limit, at a denial of the type, or with everything
collected. -/
theorem listResourceIDs_cases {entries : List Entry} {options : List AclOption}
    {evaluator : Evaluator} (hnew : new entries options = .ok evaluator) (hctx : ctx.Quiet)
    (order : MapRange ResourceID) (subject : Subject) (action : Action)
    (resourceType : ResourceType) (tenant : TenantID) (w : W) :
    (evaluator.listResourceIDs order ctx subject action resourceType tenant w).1
        = .error (.sentinel .aclErrGroupLimitExceeded) ∨
    (evaluator.listResourceIDs order ctx subject action resourceType tenant w).1
        = .error (.sentinel .aclErrMatchLimitExceeded) ∨
    (¬ subject.groups.length > evaluator.limits.maxGroups ∧
      (((evaluator.listResourceIDs order ctx subject action resourceType tenant w).1 = .ok [] ∧
        Denies (applicable evaluator subject action resourceType tenant) []) ∨
      ∃ state, Collected (applicable evaluator subject action resourceType tenant) state ∧
        (applicable evaluator subject action resourceType tenant = [] ∨
          (applicable evaluator subject action resourceType tenant).length
            ≤ evaluator.limits.maxMatches) ∧
        (evaluator.listResourceIDs order ctx subject action resourceType tenant w).1
          = listed order state)) := by
  rw [listResourceIDs_quiet hctx]
  split
  · exact Or.inl rfl
  · rename_i hgroups
    have heffects : ∀ entry ∈ applicable evaluator subject action resourceType tenant,
        entry.effect = .allow ∨ entry.effect = .deny := fun entry hmem =>
      effect_of_new hnew entry ((mem_applicable hnew).mp hmem).1
    rcases collected_nil.foldlM evaluator.limits.maxMatches heffects with
      h | ⟨h, hdeny⟩ | ⟨state, h, hbound, hcollected⟩
    · exact Or.inr (Or.inl (by rw [h]; rfl))
    · exact Or.inr (Or.inr ⟨hgroups, Or.inl ⟨by rw [h]; rfl, hdeny⟩⟩)
    · exact Or.inr (Or.inr ⟨hgroups, Or.inr ⟨state, hcollected, hbound, by rw [h]; rfl⟩⟩)

/-- **Listing agrees with evaluation.**  A list holds exactly the instances that are
allowed; an unbounded set means that everything is but what an instance denies. -/
theorem listing_agrees {entries : List Entry} {options : List AclOption} {evaluator : Evaluator}
    (hnew : new entries options = .ok evaluator) (hctx : ctx.Quiet) (order : MapRange ResourceID)
    (subject : Subject) (action : Action) (resourceType : ResourceType) (tenant : TenantID)
    (w : W) :
    (∀ ids, (evaluator.listResourceIDs order ctx subject action resourceType tenant w).1 = .ok ids →
      ids.Pairwise (· < ·) ∧
      ∀ request w', Asks request subject action resourceType tenant →
        (request.resource.id ∈ ids ↔ Allows (evaluator.evaluate ctx request w').1)) ∧
    ((evaluator.listResourceIDs order ctx subject action resourceType tenant w).1
        = .error (.sentinel .aclErrUnboundedResourceSet) →
      ∀ request w', Asks request subject action resourceType tenant →
        (Allows (evaluator.evaluate ctx request w').1 ↔ ¬ ∃ entry ∈ entries,
          entry.AppliesTo evaluator.inheritGlobal subject action resourceType tenant ∧
          entry.resourceID = request.resource.id ∧ entry.resourceID ≠ [] ∧
          entry.effect = .deny)) := by
  have hcases := listResourceIDs_cases hnew hctx order subject action resourceType tenant w
  constructor
  · intro ids hids
    rw [hids] at hcases
    rcases hcases with h | h | ⟨hgroups, ⟨h, entry, hmem, hwide, hdeny⟩ |
      ⟨state, hcollected, hbound, h⟩⟩
    · cases h
    · cases h
    · -- a denial of the type denies every instance
      cases h
      refine ⟨List.Pairwise.nil, fun request w' hasks => ⟨fun hr => absurd hr List.not_mem_nil, ?_⟩⟩
      rw [allows_evaluate_iff hctx evaluator hasks hgroups]
      rintro ⟨-, -, hnone⟩
      exact absurd hdeny (hnone entry hmem (matchesResource_iff.mpr (Or.inl hwide)))
    · obtain ⟨hsorted, hunnamed, hids'⟩ := hcollected.mem_listed h.symm
      refine ⟨hsorted, fun request w' hasks => ?_⟩
      have hresource : ∀ entry ∈ applicable evaluator subject action resourceType tenant,
          (entry.matchesResource request.resource.id = true ↔
            entry.resourceID = request.resource.id) := by
        intro entry hmem
        rw [matchesResource_iff]
        exact ⟨fun hr => hr.resolve_left fun hwide => hunnamed ⟨entry, hmem, hwide⟩, Or.inr⟩
      rw [allows_evaluate_iff hctx evaluator hasks hgroups, hids']
      constructor
      · rintro ⟨⟨entry, hmem, he⟩, hdenied⟩
        refine ⟨?_, ⟨entry, hmem, (hresource entry hmem).mpr he⟩, fun other ho hr hd =>
          hdenied ⟨other, ho, (hresource other ho).mp hr, hd⟩⟩
        have hle := hbound.resolve_left (List.ne_nil_of_mem hmem)
        have hlength := length_matched_le request
          (applicable evaluator subject action resourceType tenant)
        omega
      · rintro ⟨-, ⟨entry, hmem, hr⟩, hnone⟩
        refine ⟨⟨entry, hmem, (hresource entry hmem).mp hr⟩, ?_⟩
        rintro ⟨other, ho, he, hd⟩
        exact hnone other ho ((hresource other ho).mpr he) hd
  · intro hunbounded request w' hasks
    rw [hunbounded] at hcases
    rcases hcases with h | h | ⟨hgroups, ⟨h, -⟩ | ⟨state, hcollected, hbound, h⟩⟩
    · cases h
    · cases h
    · cases h
    · have hwide : state.typeWideAllow = true := by
        by_contra hoff
        rw [listed, if_neg hoff] at h
        cases h
      obtain ⟨entry, hmem, he⟩ := hcollected.typeWideAllow.mp hwide
      rw [allows_evaluate_iff hctx evaluator hasks hgroups]
      constructor
      · rintro ⟨-, -, hnone⟩ ⟨other, ho, happlies, hr, -, hd⟩
        exact hnone other ((mem_applicable hnew).mpr ⟨ho, happlies⟩)
          (matchesResource_iff.mpr (Or.inr hr)) hd
      · intro hnone
        refine ⟨?_, ⟨entry, hmem, matchesResource_iff.mpr (Or.inl he)⟩, ?_⟩
        · have hle := hbound.resolve_left (List.ne_nil_of_mem hmem)
          have hlength := length_matched_le request
            (applicable evaluator subject action resourceType tenant)
          omega
        · intro other ho hr hd
          obtain ⟨hentries, happlies⟩ := (mem_applicable hnew).mp ho
          by_cases hother : other.resourceID = []
          · exact hcollected.typeWideDeny ⟨other, ho, hother, hd⟩
          · exact hnone ⟨other, hentries, happlies,
              (matchesResource_iff.mp hr).resolve_left hother, hother, hd⟩

/-- An allowance and a denial of one document to a group, and an allowance of
another to the user. -/
def sharedEntries : List Entry :=
  [{ id := str "a", subject := ⟨str "group", str "g", [], ∅⟩, action := str "read",
     resourceType := str "doc", resourceID := str "1", effect := .allow },
   { id := str "b", subject := ⟨str "user", str "u", [], ∅⟩, action := str "read",
     resourceType := str "doc", resourceID := str "2", effect := .allow },
   { id := str "c", subject := ⟨str "group", str "g", [], ∅⟩, action := str "read",
     resourceType := str "doc", resourceID := str "1", effect := .deny }]

def sharingSubject : Subject := ⟨str "user", str "u", [str "g", str "g"], ∅⟩

theorem listing_agrees_shared : ∃ evaluator, new sharedEntries [] = .ok evaluator ∧
    (evaluator.listResourceIDs .insertion (.background (W := Unit)) sharingSubject (str "read")
      (str "doc") [] ()).1 = .ok [str "2"] ∧
    ∀ request w', Asks request sharingSubject (str "read") (str "doc") [] →
      (request.resource.id ∈ [str "2"] ↔
        Allows (evaluator.evaluate (.background (W := Unit)) request w').1) := by
  refine ⟨_, rfl, by decide, ?_⟩
  exact ((listing_agrees (show new sharedEntries [] = .ok _ from rfl) Context.quiet_background
    .insertion sharingSubject (str "read") (str "doc") [] ()).1 [str "2"] (by decide)).2

end Authorization.Acl
