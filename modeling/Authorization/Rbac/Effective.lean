import Authorization.Rbac.Inheritance

/-!
# Effective permissions

What `EffectivePermissions` returns, said without the index and the search: the
permissions whose role is reached from a role assigned to the subject or to one of
its groups, in a tenant the request sees (`Input.Grants`).  `Evaluate` is the
decision table on those that match, up to the match limit.
-/

namespace Authorization.Rbac

open Authorization.Foundation Authorization.Core

/-- The assignment is the subject's own or one of its groups'. -/
def Assignment.Names (assignment : Assignment) (subject : Subject) : Prop :=
  (assignment.subject.kind = subject.kind ∧ assignment.subject.id = subject.id) ∨
    (assignment.subject.kind = subjectGroup ∧ assignment.subject.id ∈ subject.groups)

/-- The permission is inherited by a role that is assigned to the subject. -/
def Input.Grants (input : Input) (inheritGlobal : Bool) (subject : Subject) (tenant : TenantID)
    (permission : Permission) : Prop :=
  permission ∈ input.permissions ∧ ∃ assignment ∈ input.assignments,
    assignment.Names subject ∧
    (assignment.tenant = tenant ∨ (inheritGlobal = true ∧ assignment.tenant = [])) ∧
    Relation.ReflTransGen (ParentEdge input.roles) assignment.roleID permission.roleID

theorem matchesTenant_iff {inheritGlobal : Bool} {policyTenant requestTenant : TenantID} :
    matchesTenant inheritGlobal policyTenant requestTenant = true ↔
      policyTenant = requestTenant ∨ (inheritGlobal = true ∧ policyTenant = []) := by
  unfold matchesTenant
  by_cases heq : policyTenant = requestTenant
  · simp [heq]
  · by_cases hempty : policyTenant = []
    · have hne : requestTenant ≠ [] := fun h => heq (hempty.trans h.symm)
      simp [hempty, hne]
    · simp [heq, hempty]

theorem names_iff {assignment : Assignment} {subject : Subject} :
    (∃ principal ∈ principals subject, subjectKey assignment.subject = subjectKey principal) ↔
      assignment.Names subject := by
  simp only [principals, subjectKey, List.mem_cons, List.mem_map, SubjectKey.mk.injEq,
    Assignment.Names]
  constructor
  · rintro ⟨principal, rfl | ⟨groupID, hgroup, rfl⟩, hkind, hid⟩
    · exact Or.inl ⟨hkind, hid⟩
    · exact Or.inr ⟨hkind, hid ▸ hgroup⟩
  · rintro (⟨hkind, hid⟩ | ⟨hkind, hid⟩)
    · exact ⟨subject, Or.inl rfl, hkind, hid⟩
    · exact ⟨_, Or.inr ⟨assignment.subject.id, hid, rfl⟩, hkind, rfl⟩

/-- The search finds exactly what is granted. -/
theorem mem_granted_iff {input : Input} (hnodup : (input.roles.map Role.id).Nodup)
    {options : List RbacOption} {subject : Subject} {tenant : TenantID} {permission : Permission} :
    permission ∈ input.granted options subject tenant ↔
      input.Grants (configured options).inheritGlobal subject tenant permission := by
  have hreaches : ∀ a b, Reaches (parentsOf (input.evaluator options).roles) a b ↔
      Relation.ReflTransGen (ParentEdge input.roles) a b := by
    intro a b
    rw [← edge_eq hnodup]
    rfl
  rw [Input.granted, List.mem_filter, decide_eq_true_eq, mem_rolesOf]
  refine and_congr_right fun _ => ?_
  constructor
  · rintro ⟨assigned, hassigned, hreach⟩
    obtain ⟨principal, hp, assignment, hmem, hkey, htenant, rfl⟩ := mem_assigned.mp hassigned
    exact ⟨assignment, hmem, names_iff.mp ⟨principal, hp, hkey⟩, matchesTenant_iff.mp htenant,
      (hreaches _ _).mp hreach⟩
  · rintro ⟨assignment, hmem, hnames, htenant, hreach⟩
    obtain ⟨principal, hp, hkey⟩ := names_iff.mpr hnames
    exact ⟨assignment.roleID, mem_assigned.mpr
      ⟨principal, hp, assignment, hmem, hkey, matchesTenant_iff.mpr htenant, rfl⟩,
      (hreaches _ _).mpr hreach⟩

/-! ### Evaluation -/

/-- The permission is about the request's action and resource. -/
def Permission.MatchesRequest (permission : Permission) (request : Request) : Prop :=
  permission.action = request.action ∧ permission.resourceType = request.resource.type ∧
    (permission.resourceID = [] ∨ permission.resourceID = request.resource.id)

instance (permission : Permission) (request : Request) :
    Decidable (permission.MatchesRequest request) := by
  unfold Permission.MatchesRequest
  infer_instance

theorem permissionMatchesRequest_eq (permission : Permission) (request : Request) :
    permissionMatchesRequest permission request = decide (permission.MatchesRequest request) := by
  rw [Bool.eq_iff_iff, decide_eq_true_eq]
  unfold permissionMatchesRequest Permission.MatchesRequest
  by_cases haction : permission.action = request.action
  · by_cases htype : permission.resourceType = request.resource.type
    · by_cases hid : permission.resourceID = []
      · simp [haction, htype, hid]
      · simp [haction, htype, hid]
    · simp [haction, htype]
  · simp [haction]

/-- The matching permissions with their effects, in order. -/
def matching (request : Request) (permissions : List Permission) : List (PolicyID × Outcome) :=
  (permissions.filter fun permission => permission.MatchesRequest request).map fun permission =>
    (permission.id, permission.effect)

theorem evaluatePermissions_eq (maxMatches : Int) (request : Request) :
    ∀ (permissions : List Permission) (decision : Decision),
      evaluatePermissions maxMatches request decision permissions
        = recordAll reasons maxMatches decision (matching request permissions) := by
  intro permissions
  induction permissions with
  | nil => intro decision; rfl
  | cons permission rest ih =>
    intro decision
    rw [evaluatePermissions, permissionMatchesRequest_eq, matching, List.filter_cons]
    by_cases hmatches : permission.MatchesRequest request
    · rw [if_neg (by simp [hmatches]), if_pos (decide_eq_true hmatches), List.map_cons, recordAll]
      cases recordMatch reasons maxMatches decision (permission.id, permission.effect) with
      | none => rfl
      | some decision' => exact ih decision'
    · rw [if_pos (by simp [hmatches]), if_neg (by simp [hmatches])]
      exact ih decision

variable {W : Type} {ctx : Context W}

theorem effectivePermissions_quiet (hctx : ctx.Quiet) {input : Input} {options : List RbacOption}
    (hwf : input.WellFormed) {subject : Subject} (tenant : TenantID)
    (hgroups : subject.groups.length ≤ (configured options).limits.maxGroups)
    (order : MapRange RoleID) (w : W) :
    ∃ w', (input.evaluator options).effectivePermissions order ctx subject tenant w
      = (.ok (sortBy (PriorityLe Permission.priority Permission.id)
          (input.granted options subject tenant)), w') := by
  obtain ⟨w', hw⟩ := hctx.err_eq w
  refine ⟨w', ?_⟩
  rw [effectivePermissions_eq hwf, hw]
  exact if_neg (not_lt.mpr hgroups)

theorem maxMatches_pos (options : List RbacOption) :
    0 < (configured options).limits.maxMatches := by
  refine List.foldlRecOn (motive := fun evaluator => 0 < evaluator.limits.maxMatches) options
    RbacOption.apply ?_ fun evaluator h option _ => ?_
  · decide
  · cases option with
    | withGlobalInheritance => exact h
    | withLimits limits => exact overrideLimit_pos h

/-- The decision on matching permissions, or the refusal of too many. -/
theorem evaluate_eq (hctx : ctx.Quiet) {input : Input} {options : List RbacOption}
    (hwf : input.WellFormed) {request : Request}
    (hgroups : request.subject.groups.length ≤ (configured options).limits.maxGroups)
    (order : MapRange RoleID) (w : W) :
    ((input.evaluator options).evaluate order ctx request w).1
      = if ((matching request (sortBy (PriorityLe Permission.priority Permission.id)
            (input.granted options request.subject request.tenant))).length : Int)
            ≤ (configured options).limits.maxMatches then
          (tableDecision reasons (matching request (sortBy
            (PriorityLe Permission.priority Permission.id)
            (input.granted options request.subject request.tenant))), none)
        else (reasons.limitDecision, some (.sentinel .rbacErrMatchLimitExceeded)) := by
  obtain ⟨w', heffective⟩ := effectivePermissions_quiet hctx hwf request.tenant hgroups order w
  have hpos := maxMatches_pos options
  have hlimits : (input.evaluator options).limits = (configured options).limits := rfl
  rw [Evaluator.evaluate, heffective]
  dsimp only
  rw [hlimits, evaluatePermissions_eq, recordAll_zero]
  generalize matching request (sortBy (PriorityLe Permission.priority Permission.id)
    (input.granted options request.subject request.tenant)) = ms
  by_cases hfits : (ms.length : Int) ≤ (configured options).limits.maxMatches
  · rw [if_pos (Or.inr hfits), if_pos hfits]
  · have hnil : ms ≠ [] := by
      rintro rfl
      exact hfits hpos.le
    rw [if_neg (not_or.mpr ⟨hnil, hfits⟩), if_neg hfits]

/-- The same subject with its groups in another order. -/
structure SameSubject (a b : Subject) : Prop where
  kind_eq : a.kind = b.kind
  id_eq : a.id = b.id
  groups : a.groups.Perm b.groups

theorem Input.Grants.of_reordered {a b : Input} {inheritGlobal : Bool} {subject subject' : Subject}
    {tenant : TenantID} {permission : Permission} (hp : a.Reordered b)
    (hs : SameSubject subject subject') (h : a.Grants inheritGlobal subject tenant permission) :
    b.Grants inheritGlobal subject' tenant permission := by
  obtain ⟨hmem, assignment, ha, hnames, htenant, hreach⟩ := h
  refine ⟨hp.permissions.mem_iff.mp hmem, assignment, hp.assignments.mem_iff.mp ha, ?_, htenant,
    ParentEdge.of_perm hp.roles ▸ hreach⟩
  rcases hnames with ⟨hkind, hid⟩ | ⟨hkind, hid⟩
  · exact Or.inl ⟨hkind.trans hs.kind_eq, hid.trans hs.id_eq⟩
  · exact Or.inr ⟨hkind, hs.groups.mem_iff.mp hid⟩

theorem granted_nodup {input : Input} (hwf : input.WellFormed) (options : List RbacOption)
    (subject : Subject) (tenant : TenantID) :
    ((input.granted options subject tenant).map Permission.id).Nodup :=
  hwf.permissions_nodup.sublist (List.filter_sublist.map _)

theorem granted_sorted_eq {a b : Input} {options : List RbacOption} {subject subject' : Subject}
    {tenant : TenantID} (ha : a.WellFormed) (hb : b.WellFormed) (hp : a.Reordered b)
    (hs : SameSubject subject subject') :
    sortBy (PriorityLe Permission.priority Permission.id) (b.granted options subject' tenant)
      = sortBy (PriorityLe Permission.priority Permission.id)
          (a.granted options subject tenant) := by
  have hna := granted_nodup ha options subject tenant
  have hnb := granted_nodup hb options subject' tenant
  have hback : b.Reordered a := ⟨hp.roles.symm, hp.permissions.symm, hp.assignments.symm⟩
  have hsback : SameSubject subject' subject :=
    ⟨hs.kind_eq.symm, hs.id_eq.symm, hs.groups.symm⟩
  refine sortBy_eq_of_perm _ ?_ (PriorityLe.eq_of_nodup hnb)
  rw [List.perm_ext_iff_of_nodup hnb.of_map hna.of_map]
  intro permission
  rw [mem_granted_iff hb.roles_nodup, mem_granted_iff ha.roles_nodup]
  exact ⟨fun h => h.of_reordered hback hsback, fun h => h.of_reordered hp hs⟩

/-- **What a subject may do**, for one list of effective permissions. -/
structure EffectiveLaw (input : Input) (options : List RbacOption) (ctx : Context W)
    (subject : Subject) (tenant : TenantID) (permissions : List Permission) : Prop where
  nodup : permissions.Nodup
  sorted : permissions.Pairwise (PriorityLt Permission.priority Permission.id)
  /-- The permissions are exactly those of the closure. -/
  closure : ∀ permission, permission ∈ permissions ↔
    input.Grants (configured options).inheritGlobal subject tenant permission
  /-- Neither the order of the input nor that of the groups nor that of a range
  matters. -/
  returned : ∀ ranges input' evaluator subject' order w, input.Reordered input' →
    SameSubject subject subject' →
    new ranges input'.roles input'.permissions input'.assignments options = .ok evaluator →
    (evaluator.effectivePermissions order ctx subject' tenant w).1 = .ok permissions
  /-- At most `MaxMatches` matching permissions are decided by the table. -/
  decided : ∀ ranges input' evaluator request order w, input.Reordered input' →
    SameSubject subject request.subject → request.tenant = tenant →
    new ranges input'.roles input'.permissions input'.assignments options = .ok evaluator →
    (matching request permissions).length ≤ (configured options).limits.maxMatches →
    ∃ decision, (evaluator.evaluate order ctx request w).1 = (decision, none) ∧
      Decided reasons (matching request permissions) decision
  /-- More are refused. -/
  refused : ∀ ranges input' evaluator request order w, input.Reordered input' →
    SameSubject subject request.subject → request.tenant = tenant →
    new ranges input'.roles input'.permissions input'.assignments options = .ok evaluator →
    (configured options).limits.maxMatches < (matching request permissions).length →
    (evaluator.evaluate order ctx request w).1
      = (reasons.limitDecision, some (.sentinel .rbacErrMatchLimitExceeded))

/-- **Effective permissions are the closure**, and evaluation is the table on those
that match. -/
theorem effective_closure (hctx : ctx.Quiet) {ranges : RoleRanges} {input : Input}
    {options : List RbacOption} {evaluator : Evaluator}
    (hnew : new ranges input.roles input.permissions input.assignments options = .ok evaluator)
    (subject : Subject) (tenant : TenantID)
    (hgroups : subject.groups.length ≤ evaluator.limits.maxGroups) :
    ∃ permissions, EffectiveLaw input options ctx subject tenant permissions := by
  obtain ⟨hwf, rfl⟩ := new_eq_ok hnew
  have hnodup := granted_nodup hwf options subject tenant
  refine ⟨sortBy (PriorityLe Permission.priority Permission.id)
    (input.granted options subject tenant), ?_, pairwise_priorityLt hnodup, ?_, ?_, ?_, ?_⟩
  · exact (sortBy_perm _ _).nodup_iff.mpr hnodup.of_map
  · intro permission
    rw [mem_sortBy, mem_granted_iff hwf.roles_nodup]
  · intro ranges' input' evaluator' subject' order w hp hs hnew'
    obtain ⟨hwf', rfl⟩ := new_eq_ok hnew'
    obtain ⟨w', heffective⟩ := effectivePermissions_quiet hctx hwf' tenant
      (hs.groups.length_eq ▸ hgroups) order w
    rw [heffective, granted_sorted_eq hwf hwf' hp hs]
  · intro ranges' input' evaluator' request order w hp hs htenant hnew' hfits
    obtain ⟨hwf', rfl⟩ := new_eq_ok hnew'
    subst htenant
    rw [evaluate_eq hctx hwf' (hs.groups.length_eq ▸ hgroups), granted_sorted_eq hwf hwf' hp hs,
      if_pos hfits]
    exact ⟨_, rfl, decided_tableDecision reasons _⟩
  · intro ranges' input' evaluator' request order w hp hs htenant hnew' hmany
    obtain ⟨hwf', rfl⟩ := new_eq_ok hnew'
    subst htenant
    rw [evaluate_eq hctx hwf' (hs.groups.length_eq ▸ hgroups), granted_sorted_eq hwf hwf' hp hs,
      if_neg (not_le.mpr hmany)]

/-- A user with the first role of the diamond, and what its first and last role may
do. -/
def diamondInput : Input where
  roles := diamondRoles
  permissions := [
    { id := str "p", roleID := str "a", action := str "read", resourceType := str "doc",
      effect := .allow },
    { id := str "q", roleID := str "d", action := str "read", resourceType := str "doc",
      effect := .allow, priority := 1 }]
  assignments := [{ id := str "s", subject := ⟨str "user", str "u", [], ∅⟩, roleID := str "a" }]

def diamondRequest : Request :=
  ⟨⟨str "user", str "u", [], ∅⟩, str "read", ⟨str "doc", [], ∅⟩, [], {}, ∅⟩

theorem Input.Reordered.refl (input : Input) : input.Reordered input :=
  ⟨.refl _, .refl _, .refl _⟩

theorem effective_closure_diamond : ∃ permissions : List Permission,
    permissions.map Permission.id = [str "q", str "p"] ∧
    EffectiveLaw diamondInput [] (.background (W := Unit)) diamondRequest.subject [] permissions := by
  have hnew : new {} diamondInput.roles diamondInput.permissions diamondInput.assignments []
      = .ok (diamondInput.evaluator []) := rfl
  obtain ⟨permissions, hlaw⟩ := effective_closure (Context.quiet_background (W := Unit)) hnew
    diamondRequest.subject [] (by decide)
  have hreturned := hlaw.returned {} diamondInput _ diamondRequest.subject .insertion ()
    (.refl _) ⟨rfl, rfl, .refl _⟩ hnew
  have hcomputed : ((diamondInput.evaluator []).effectivePermissions .insertion
      (.background (W := Unit)) diamondRequest.subject [] ()).1
        = .ok (diamondInput.permissions.reverse) := by decide
  rw [hcomputed] at hreturned
  cases hreturned
  exact ⟨_, by decide, hlaw⟩

/-- **Permissions that only allow can still end in a denial**, when more of them match
than the limit admits. -/
theorem effective_overflow : ∃ evaluator permissions,
    new {} diamondInput.roles diamondInput.permissions diamondInput.assignments
      [.withLimits { maxMatches := 1 }] = .ok evaluator ∧
    (evaluator.effectivePermissions .insertion (.background (W := Unit)) diamondRequest.subject []
      ()).1 = .ok permissions ∧
    (∃ permission ∈ permissions, permission.MatchesRequest diamondRequest) ∧
    (∀ permission ∈ permissions, permission.effect = .allow) ∧
    (evaluator.evaluate .insertion (.background (W := Unit)) diamondRequest ()).1
      = (reasons.limitDecision, some (.sentinel .rbacErrMatchLimitExceeded)) := by
  refine ⟨diamondInput.evaluator [.withLimits { maxMatches := 1 }],
    diamondInput.permissions.reverse, rfl, by decide, by decide, by decide, by decide⟩

end Authorization.Rbac
