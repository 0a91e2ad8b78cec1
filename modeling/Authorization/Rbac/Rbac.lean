import Authorization.Core.Match
import Authorization.Core.Snapshot
import Authorization.Foundation.Closure

/-!
# Role-based access control

`rbac/rbac.go`.  Roles inherit along a graph that `New` checks: every parent
exists and has its child's tenant, there is no cycle, and no chain is too long.
A subject's permissions are those of the roles assigned to it or to one of its
groups, and of everything these roles inherit.

The role maps are ranged over in an order the runtime picks.
`effectivePermissions_eq` shows that the result does not depend on it: it is the
sorted list of the permissions whose role is reached from an assigned one.
-/

namespace Authorization.Rbac

open Authorization.Foundation Authorization.Core

abbrev RoleID := Bytes

def reasons : MatchReasons where
  allow := str "rbac-allow"
  explicitDeny := str "rbac-explicit-deny"
  limitExceeded := str "rbac-limit-exceeded"

structure Limits where
  maxInheritanceDepth : Int := 32
  maxRoles : Int := 1000
  maxPermissions : Int := 10000
  maxAssignments : Int := 10000
  maxGroups : Int := 100
  maxMatches : Int := 100
  maxBatchSize : Int := 1000
deriving DecidableEq

structure Role where
  id : RoleID
  tenant : TenantID := []
  parents : List RoleID := []
deriving DecidableEq

structure Permission where
  id : PolicyID
  roleID : RoleID
  tenant : TenantID := []
  action : Action
  resourceType : ResourceType
  /-- Empty for the whole type. -/
  resourceID : ResourceID := []
  effect : Outcome
  priority : Int := 0
deriving DecidableEq

structure Assignment where
  id : PolicyID
  subject : Subject
  roleID : RoleID
  tenant : TenantID := []
deriving DecidableEq

structure SubjectKey where
  kind : SubjectKind
  id : SubjectID
deriving DecidableEq

def subjectKey (subject : Subject) : SubjectKey := ⟨subject.kind, subject.id⟩

structure Evaluator where
  roles : GoMap RoleID Role
  permissions : GoMap RoleID (List Permission)
  assignments : GoMap SubjectKey (List Assignment)
  limits : Limits
  inheritGlobal : Bool

inductive RbacOption
  | withLimits (limits : Limits)
  | withGlobalInheritance

/-- `WithLimits`. -/
def Limits.withLimits (override current : Limits) : Limits where
  maxInheritanceDepth := overrideLimit override.maxInheritanceDepth current.maxInheritanceDepth
  maxRoles := overrideLimit override.maxRoles current.maxRoles
  maxPermissions := overrideLimit override.maxPermissions current.maxPermissions
  maxAssignments := overrideLimit override.maxAssignments current.maxAssignments
  maxGroups := overrideLimit override.maxGroups current.maxGroups
  maxMatches := overrideLimit override.maxMatches current.maxMatches
  maxBatchSize := overrideLimit override.maxBatchSize current.maxBatchSize

def RbacOption.apply (evaluator : Evaluator) : RbacOption → Evaluator
  | .withLimits limits => { evaluator with limits := limits.withLimits evaluator.limits }
  | .withGlobalInheritance => { evaluator with inheritGlobal := true }

/-- What the options make of the defaults. -/
def configured (options : List RbacOption) : Evaluator :=
  options.foldl RbacOption.apply ⟨∅, ∅, ∅, {}, false⟩

/-! ### The inheritance graph -/

/-- `evaluator.roles[roleID].Parents`. -/
def parentsOf (roles : GoMap RoleID Role) (roleID : RoleID) : List RoleID :=
  ((roles.lookup roleID).map Role.parents).getD []

/-- The parents of one role: each exists and has the role's tenant. -/
def checkParents (roles : GoMap RoleID Role) (role : Role) : List RoleID → Option GoError
  | [] => none
  | parentID :: rest =>
    let parts := [.text "role ", .quoted role.id, .text " parent ", .quoted parentID, .text ": "]
    match roles.lookup parentID with
    | none => some (.errorf parts (.sentinel .rbacErrUnknownParentRole))
    | some parent =>
      if parent.tenant ≠ role.tenant then
        some (.errorf parts (.sentinel .rbacErrCrossTenantInheritance))
      else checkParents roles role rest

/-- The first loop of `validateInheritance`, over the given roles. -/
def checkAllParents (roles : GoMap RoleID Role) (roleIDs : List RoleID) : Option GoError :=
  roleIDs.findSome? fun roleID =>
    (roles.lookup roleID).bind fun role => checkParents roles role role.parents

/-- `visit`: 1 marks a role whose ancestors are being visited, 2 one that is
done.  The fuel bounds the depth of the recursion. -/
def visit (roles : GoMap RoleID Role) :
    Nat → RoleID → GoMap RoleID UInt8 → Except GoError (GoMap RoleID UInt8)
  | 0, _, states => .ok states
  | fuel + 1, roleID, states =>
    let state := (states.lookup roleID).getD 0
    if state = 1 then .error (.sentinel .rbacErrRoleCycle)
    else if state = 2 then .ok states
    else do
      let states ← (parentsOf roles roleID).foldlM
        (fun states parentID => visit roles fuel parentID states) (states.insert roleID 1)
      return states.insert roleID 2

/-- `depth`, with the depths known so far. -/
def depth (roles : GoMap RoleID Role) :
    Nat → RoleID → GoMap RoleID Nat → Nat × GoMap RoleID Nat
  | 0, _, depths => (0, depths)
  | fuel + 1, roleID, depths =>
    match depths.lookup roleID with
    | some known => (known, depths)
    | none =>
      let result := (parentsOf roles roleID).foldl
        (fun acc parentID =>
          let parent := depth roles fuel parentID acc.2
          (max acc.1 (1 + parent.1), parent.2))
        (0, depths)
      (result.1, result.2.insert roleID result.1)

/-- The last loop of `validateInheritance`. -/
def checkDepths (roles : GoMap RoleID Role) (maxInheritanceDepth : Int) (fuel : Nat) :
    GoMap RoleID Nat → List RoleID → Option GoError
  | _, [] => none
  | depths, roleID :: rest =>
    let result := depth roles fuel roleID depths
    if result.1 > maxInheritanceDepth then
      some (.errorf [.text "role ", .quoted roleID, .text ": "]
        (.sentinel .rbacErrInheritanceDepthExceeded))
    else checkDepths roles maxInheritanceDepth fuel result.2 rest

/-- The orders of the three ranges over the roles. -/
structure RoleRanges where
  parents : MapRange RoleID := .insertion
  cycles : MapRange RoleID := .insertion
  depths : MapRange RoleID := .insertion

/-- The depth of recursion any graph over these roles needs. -/
def graphFuel (roles : GoMap RoleID Role) : Nat := roles.keys.length + 1

/-- `validateInheritance`. -/
def validateInheritance (roles : GoMap RoleID Role) (maxInheritanceDepth : Int)
    (ranges : RoleRanges) : Option GoError :=
  match checkAllParents roles (ranges.parents.order roles.keys) with
  | some err => some err
  | none =>
    let fuel := graphFuel roles
    match (ranges.cycles.order roles.keys).foldlM
        (fun states roleID => visit roles fuel roleID states) ∅ with
    | .error err => some err
    | .ok _ => checkDepths roles maxInheritanceDepth fuel ∅ (ranges.depths.order roles.keys)

/-! ### Construction -/

def checkRole (index : Nat) (roleIDs : List RoleID) (role : Role) : Option GoError :=
  if role.id = [] then
    some (.errorf [.text "role ", .num index, .text ": "] (.sentinel .rbacErrInvalidRole))
  else if role.id ∈ roleIDs then
    some (.errorf [.text "role ", .quoted role.id, .text ": "] (.sentinel .rbacErrDuplicateRole))
  else none

def validPermission (permission : Permission) : Bool :=
  if [] ∈ [permission.id, permission.roleID, permission.action, permission.resourceType] then false
  else permission.effect = .allow || permission.effect = .deny

def validAssignment (assignment : Assignment) : Bool :=
  [] ∉ [assignment.id, assignment.subject.kind, assignment.subject.id, assignment.roleID]

/-- The checks that permissions and assignments share: `what` is the word of the
messages, `invalid` and `duplicate` are the errors. -/
def checkBinding (roles : GoMap RoleID Role) (what : String) (invalid duplicate : Sentinel)
    (index : Nat) (ids : List PolicyID) (valid : Bool) (id : PolicyID) (roleID : RoleID)
    (tenant : TenantID) : Option GoError :=
  if !valid then
    some (.errorf [.text what, .text " ", .num index, .text ": "] (.sentinel invalid))
  else if id ∈ ids then
    some (.errorf [.text what, .text " ", .quoted id, .text ": "] (.sentinel duplicate))
  else
    match roles.lookup roleID with
    | none => some (.errorf [.text what, .text " ", .quoted id, .text " role ", .quoted roleID,
        .text ": "] (.sentinel .rbacErrUnknownRole))
    | some role =>
      if role.tenant ≠ tenant then
        some (.errorf [.text what, .text " ", .quoted id, .text ": "]
          (.sentinel .rbacErrRoleTenantMismatch))
      else none

def checkPermission (roles : GoMap RoleID Role) (index : Nat) (permissionIDs : List PolicyID)
    (permission : Permission) : Option GoError :=
  checkBinding roles "permission" .rbacErrInvalidPermission .rbacErrDuplicatePermission index
    permissionIDs (validPermission permission) permission.id permission.roleID permission.tenant

def checkAssignment (roles : GoMap RoleID Role) (index : Nat) (assignmentIDs : List PolicyID)
    (assignment : Assignment) : Option GoError :=
  checkBinding roles "assignment" .rbacErrInvalidAssignment .rbacErrDuplicateAssignment index
    assignmentIDs (validAssignment assignment) assignment.id assignment.roleID assignment.tenant

/-- `New`. -/
def new (ranges : RoleRanges) (roles : List Role) (permissions : List Permission)
    (assignments : List Assignment) (options : List RbacOption) : Except GoError Evaluator :=
  let evaluator := configured options
  if roles.length > evaluator.limits.maxRoles then .error (.sentinel .rbacErrRoleLimitExceeded)
  else if permissions.length > evaluator.limits.maxPermissions then
    .error (.sentinel .rbacErrPermissionLimitExceeded)
  else if assignments.length > evaluator.limits.maxAssignments then
    .error (.sentinel .rbacErrAssignmentLimitExceeded)
  else
    let roleMap := indexBy Role.id roles
    match checkEach Role.id checkRole 0 [] roles with
    | some err => .error err
    | none =>
      match validateInheritance roleMap evaluator.limits.maxInheritanceDepth ranges with
      | some err => .error err
      | none =>
        match checkEach Permission.id (checkPermission roleMap) 0 [] permissions with
        | some err => .error err
        | none =>
          match checkEach Assignment.id (checkAssignment roleMap) 0 [] assignments with
          | some err => .error err
          | none => .ok { evaluator with
              roles := roleMap
              permissions := groupBy Permission.roleID permissions
              assignments := groupBy (fun assignment => subjectKey assignment.subject)
                assignments }

/-! ### Evaluation -/

/-- `matchesTenant`. -/
def matchesTenant (inheritGlobal : Bool) (policyTenant requestTenant : TenantID) : Bool :=
  if policyTenant = requestTenant then true
  else inheritGlobal && policyTenant = [] && requestTenant ≠ []

/-- `addRoleClosure`. -/
def Evaluator.addRoleClosure (evaluator : Evaluator) (roleID : RoleID) (roleIDs : List RoleID) :
    List RoleID :=
  closure (parentsOf evaluator.roles) (graphFuel evaluator.roles) roleID roleIDs

/-- The roles of one principal, added to `roleIDs`. -/
def Evaluator.addAssigned (evaluator : Evaluator) (tenant : TenantID) (roleIDs : List RoleID)
    (principal : Subject) : List RoleID :=
  (bucket evaluator.assignments (subjectKey principal)).foldl
    (fun roleIDs assignment =>
      if matchesTenant evaluator.inheritGlobal assignment.tenant tenant then
        evaluator.addRoleClosure assignment.roleID roleIDs
      else roleIDs)
    roleIDs

def permissionMatchesRequest (permission : Permission) (request : Request) : Bool :=
  if permission.action ≠ request.action then false
  else if permission.resourceType ≠ request.resource.type then false
  else if permission.resourceID = [] then true
  else permission.resourceID = request.resource.id

/-- The loop of `Evaluate`; `none` at the match limit. -/
def evaluatePermissions (maxMatches : Int) (request : Request) :
    Decision → List Permission → Option Decision
  | decision, [] => some decision
  | decision, permission :: rest =>
    if !permissionMatchesRequest permission request then
      evaluatePermissions maxMatches request decision rest
    else
      match recordMatch reasons maxMatches decision (permission.id, permission.effect) with
      | none => none
      | some decision => evaluatePermissions maxMatches request decision rest

section Evaluate

variable {W : Type}

/-- `EffectivePermissions`; `order` is the order of the range over the roles. -/
def Evaluator.effectivePermissions (evaluator : Evaluator) (order : MapRange RoleID)
    (ctx : Context W) (subject : Subject) (tenant : TenantID) (w : W) :
    Except GoError (List Permission) × W :=
  match ctx.err w with
  | (some err, w) => (.error err, w)
  | (none, w) =>
    if subject.groups.length > evaluator.limits.maxGroups then
      (.error (.sentinel .rbacErrGroupLimitExceeded), w)
    else
      let roleIDs := (principals subject).foldl (evaluator.addAssigned tenant) []
      let permissions := (order.order roleIDs).flatMap (bucket evaluator.permissions)
      (.ok (sortBy (PriorityLe Permission.priority Permission.id) permissions), w)

/-- The decision that comes with an error of `EffectivePermissions`. -/
def failedDecision (err : GoError) : Decision where
  outcome := .deny
  reason :=
    if GoError.is .contextCanceled err || GoError.is .contextDeadlineExceeded err then
      reasonContextCanceled
    else reasons.limitExceeded

/-- `Evaluate`. -/
def Evaluator.evaluate (evaluator : Evaluator) (order : MapRange RoleID) (ctx : Context W)
    (request : Request) (w : W) : (Decision × Option GoError) × W :=
  match evaluator.effectivePermissions order ctx request.subject request.tenant w with
  | (.error err, w) => ((failedDecision err, some err), w)
  | (.ok permissions, w) =>
    match evaluatePermissions evaluator.limits.maxMatches request {} permissions with
    | none => ((reasons.limitDecision, some (.sentinel .rbacErrMatchLimitExceeded)), w)
    | some decision => ((decision, none), w)

/-- `EvaluateBatch`; `orders` are the orders of the ranges, one for each request. -/
def Evaluator.evaluateBatch (evaluator : Evaluator) (orders : Nat → MapRange RoleID)
    (ctx : Context W) (requests : List Request) (w : W) : BatchResult × W :=
  Core.evaluateBatch evaluator.limits.maxBatchSize .rbacErrBatchLimitExceeded
    (fun index request w => CallResult.ofPair (evaluator.evaluate (orders index) ctx request w)) requests w

end Evaluate

/-! ### What `New` accepts -/

theorem checkRole_eq_none_iff (index : Nat) (roleIDs : List RoleID) (role : Role) :
    checkRole index roleIDs role = none ↔ role.id ≠ [] ∧ role.id ∉ roleIDs := by
  unfold checkRole
  by_cases hempty : role.id = []
  · simp [hempty]
  · by_cases hseen : role.id ∈ roleIDs
    · simp [hempty, hseen]
    · simp [hempty, hseen]

theorem checkBinding_eq_none_iff {roles : GoMap RoleID Role} {what : String}
    {invalid duplicate : Sentinel} {index : Nat} {ids : List PolicyID} {valid : Bool}
    {id : PolicyID} {roleID : RoleID} {tenant : TenantID} :
    checkBinding roles what invalid duplicate index ids valid id roleID tenant = none ↔
      (valid = true ∧ ∃ role, roles.lookup roleID = some role ∧ role.tenant = tenant) ∧
        id ∉ ids := by
  unfold checkBinding
  cases valid with
  | false => simp
  | true =>
    by_cases hseen : id ∈ ids
    · simp [hseen]
    · cases hrole : roles.lookup roleID with
      | none => simp [hseen]
      | some role =>
        by_cases htenant : role.tenant = tenant
        · simp [hseen, htenant]
        · simp [hseen, htenant]

/-- What the check of a permission looks for besides its identifier. -/
def PermissionOk (roles : GoMap RoleID Role) (permission : Permission) : Prop :=
  validPermission permission = true ∧
    ∃ role, roles.lookup permission.roleID = some role ∧ role.tenant = permission.tenant

def AssignmentOk (roles : GoMap RoleID Role) (assignment : Assignment) : Prop :=
  validAssignment assignment = true ∧
    ∃ role, roles.lookup assignment.roleID = some role ∧ role.tenant = assignment.tenant

theorem checkPermission_eq_none_iff (roles : GoMap RoleID Role) (index : Nat)
    (ids : List PolicyID) (permission : Permission) :
    checkPermission roles index ids permission = none ↔
      PermissionOk roles permission ∧ permission.id ∉ ids := checkBinding_eq_none_iff

theorem checkAssignment_eq_none_iff (roles : GoMap RoleID Role) (index : Nat)
    (ids : List PolicyID) (assignment : Assignment) :
    checkAssignment roles index ids assignment = none ↔
      AssignmentOk roles assignment ∧ assignment.id ∉ ids := checkBinding_eq_none_iff

theorem checkParents_eq_none_iff {roles : GoMap RoleID Role} {role : Role} :
    ∀ {parents : List RoleID}, checkParents roles role parents = none ↔
      ∀ parentID ∈ parents, ∃ parent, roles.lookup parentID = some parent ∧
        parent.tenant = role.tenant := by
  intro parents
  induction parents with
  | nil => simp [checkParents]
  | cons first rest ih =>
    rw [checkParents, List.forall_mem_cons]
    cases hparent : roles.lookup first with
    | none => simp
    | some parent =>
      by_cases htenant : parent.tenant = role.tenant
      · simp [htenant, ih]
      · simp [htenant]

theorem checkAllParents_eq_none_iff {roles : GoMap RoleID Role} {order : MapRange RoleID} :
    checkAllParents roles (order.order roles.keys) = none ↔
      ∀ roleID role, roles.lookup roleID = some role → ∀ parentID ∈ role.parents,
        ∃ parent, roles.lookup parentID = some parent ∧ parent.tenant = role.tenant := by
  unfold checkAllParents
  rw [List.findSome?_eq_none_iff]
  constructor
  · intro h roleID role hrole
    have hkey : roleID ∈ order.order roles.keys := by
      rw [MapRange.mem_order, ← AList.mem_keys, ← AList.lookup_isSome, hrole]
      rfl
    have hcheck := h roleID hkey
    rw [hrole] at hcheck
    exact checkParents_eq_none_iff.mp hcheck
  · intro h roleID _
    cases hrole : roles.lookup roleID with
    | none => rfl
    | some role => exact checkParents_eq_none_iff.mpr (h roleID role hrole)

theorem validateInheritance_parents {roles : GoMap RoleID Role} {maxInheritanceDepth : Int}
    {ranges : RoleRanges} (h : validateInheritance roles maxInheritanceDepth ranges = none)
    {roleID : RoleID} {role : Role} (hrole : roles.lookup roleID = some role) :
    ∀ parentID ∈ role.parents, ∃ parent, roles.lookup parentID = some parent ∧
      parent.tenant = role.tenant := by
  unfold validateInheritance at h
  split at h
  · cases h
  · rename_i hall
    exact checkAllParents_eq_none_iff.mp hall roleID role hrole

/-- The input of `New` behind an evaluator. -/
structure Input where
  roles : List Role
  permissions : List Permission
  assignments : List Assignment

/-- What the checks of `New` establish. -/
structure Input.WellFormed (input : Input) : Prop where
  roles_nodup : (input.roles.map Role.id).Nodup
  permissions_nodup : (input.permissions.map Permission.id).Nodup
  assignments_nodup : (input.assignments.map Assignment.id).Nodup
  parents : ∀ role ∈ input.roles, ∀ parentID ∈ role.parents,
    ∃ parent ∈ input.roles, parent.id = parentID ∧ parent.tenant = role.tenant
  permission_role : ∀ permission ∈ input.permissions,
    ∃ role ∈ input.roles, role.id = permission.roleID ∧ role.tenant = permission.tenant
  assignment_role : ∀ assignment ∈ input.assignments,
    ∃ role ∈ input.roles, role.id = assignment.roleID ∧ role.tenant = assignment.tenant

/-- The evaluator `New` returns for an input it accepts. -/
def Input.evaluator (input : Input) (options : List RbacOption) : Evaluator :=
  { configured options with
    roles := indexBy Role.id input.roles
    permissions := groupBy Permission.roleID input.permissions
    assignments := groupBy (fun assignment => subjectKey assignment.subject) input.assignments }

/-- `New` accepts what passes every check, in this order. -/
theorem new_eq_ok_iff_checks {ranges : RoleRanges} {input : Input} {options : List RbacOption}
    {evaluator : Evaluator} :
    new ranges input.roles input.permissions input.assignments options = .ok evaluator ↔
      ¬ input.roles.length > (configured options).limits.maxRoles ∧
      ¬ input.permissions.length > (configured options).limits.maxPermissions ∧
      ¬ input.assignments.length > (configured options).limits.maxAssignments ∧
      checkEach Role.id checkRole 0 [] input.roles = none ∧
      validateInheritance (indexBy Role.id input.roles)
        (configured options).limits.maxInheritanceDepth ranges = none ∧
      checkEach Permission.id (checkPermission (indexBy Role.id input.roles)) 0 []
        input.permissions = none ∧
      checkEach Assignment.id (checkAssignment (indexBy Role.id input.roles)) 0 []
        input.assignments = none ∧
      evaluator = input.evaluator options := by
  unfold new
  dsimp only
  constructor
  · intro h
    split at h
    · cases h
    split at h
    · cases h
    split at h
    · cases h
    split at h
    · cases h
    split at h
    · cases h
    split at h
    · cases h
    split at h
    · cases h
    injection h with h
    exact ⟨by assumption, by assumption, by assumption, by assumption, by assumption,
      by assumption, by assumption, h.symm⟩
  · rintro ⟨hroles, hpermissions, hassignments, hr, hgraph, hp, ha, rfl⟩
    rw [if_neg hroles, if_neg hpermissions, if_neg hassignments, hr]
    dsimp only
    rw [hgraph]
    dsimp only
    rw [hp]
    dsimp only
    rw [ha]
    rfl

/-- **What `New` accepts and what it builds.** -/
theorem new_eq_ok {ranges : RoleRanges} {input : Input} {options : List RbacOption}
    {evaluator : Evaluator}
    (h : new ranges input.roles input.permissions input.assignments options = .ok evaluator) :
    input.WellFormed ∧ evaluator = input.evaluator options := by
  obtain ⟨-, -, -, hroles, hinherit, hpermissions, hassignments, h⟩ := new_eq_ok_iff_checks.mp h
  obtain ⟨hrnd, -, -⟩ := (checkEach_eq_none_iff checkRole_eq_none_iff).mp hroles
  obtain ⟨hpnd, -, hp⟩ := (checkEach_eq_none_iff (checkPermission_eq_none_iff _)).mp hpermissions
  obtain ⟨hand, -, ha⟩ := (checkEach_eq_none_iff (checkAssignment_eq_none_iff _)).mp hassignments
  have hbound : ∀ {roleID : RoleID} {tenant : TenantID},
      (∃ role, (indexBy Role.id input.roles).lookup roleID = some role ∧ role.tenant = tenant) →
      ∃ role ∈ input.roles, role.id = roleID ∧ role.tenant = tenant := by
    rintro roleID tenant ⟨role, hrole, htenant⟩
    obtain ⟨hmem, hid⟩ := (lookup_indexBy hrnd).mp hrole
    exact ⟨role, hmem, hid, htenant⟩
  refine ⟨⟨hrnd, hpnd, hand, ?_, ?_, ?_⟩, h⟩
  · intro role hrole parentID hparent
    have hlookup := (lookup_indexBy hrnd).mpr ⟨hrole, rfl⟩
    exact hbound (validateInheritance_parents hinherit hlookup parentID hparent)
  · intro permission hmem
    exact hbound (hp permission hmem).2
  · intro assignment hmem
    exact hbound (ha assignment hmem).2

/-! ### The effective permissions -/

theorem parentsOf_eq_nil {roles : GoMap RoleID Role} (roleID : RoleID) (h : roleID ∉ roles.keys) :
    parentsOf roles roleID = [] := by
  have hnone : roles.lookup roleID = none := AList.lookup_eq_none.mpr h
  rw [parentsOf, hnone]
  rfl

/-- The roles a tenant sees assigned to one principal. -/
def Evaluator.assignedTo (evaluator : Evaluator) (tenant : TenantID) (principal : Subject) :
    List RoleID :=
  ((bucket evaluator.assignments (subjectKey principal)).filter fun assignment =>
    matchesTenant evaluator.inheritGlobal assignment.tenant tenant).map Assignment.roleID

/-- The roles of a subject: assigned to it or to a group, or inherited by such a
role. -/
def Evaluator.rolesOf (evaluator : Evaluator) (subject : Subject) (tenant : TenantID) :
    List RoleID :=
  closureAll (parentsOf evaluator.roles) (graphFuel evaluator.roles)
    ((principals subject).flatMap (evaluator.assignedTo tenant))

theorem foldl_addAssigned (evaluator : Evaluator) (tenant : TenantID) :
    ∀ (subjects : List Subject) (roleIDs : List RoleID),
      subjects.foldl (evaluator.addAssigned tenant) roleIDs
        = (subjects.flatMap (evaluator.assignedTo tenant)).foldl
            (fun seen roleID => evaluator.addRoleClosure roleID seen) roleIDs := by
  intro subjects
  induction subjects with
  | nil => intro roleIDs; rfl
  | cons subject rest ih =>
    intro roleIDs
    have hone : evaluator.addAssigned tenant roleIDs subject
        = (evaluator.assignedTo tenant subject).foldl
            (fun seen roleID => evaluator.addRoleClosure roleID seen) roleIDs := by
      rw [Evaluator.assignedTo, List.foldl_map, List.foldl_filter]
      rfl
    rw [List.foldl_cons, List.flatMap_cons, List.foldl_append, ih, hone]

theorem mem_rolesOf {evaluator : Evaluator} {subject : Subject} {tenant : TenantID}
    {roleID : RoleID} :
    roleID ∈ evaluator.rolesOf subject tenant ↔
      ∃ assigned ∈ (principals subject).flatMap (evaluator.assignedTo tenant),
        Reaches (parentsOf evaluator.roles) assigned roleID :=
  mem_closureAll (fun k hk => parentsOf_eq_nil k hk) (Nat.lt_succ_self _)

theorem nodup_rolesOf (evaluator : Evaluator) (subject : Subject) (tenant : TenantID) :
    (evaluator.rolesOf subject tenant).Nodup :=
  nodup_closureAll (fun k hk => parentsOf_eq_nil k hk) (Nat.lt_succ_self _) _

/-- The permissions of a subject, in list order. -/
def Input.granted (input : Input) (options : List RbacOption) (subject : Subject)
    (tenant : TenantID) : List Permission :=
  input.permissions.filter fun permission =>
    permission.roleID ∈ (input.evaluator options).rolesOf subject tenant

/-- **The effective permissions are the granted ones, sorted**, whatever the
order of the range over the roles. -/
theorem effectivePermissions_eq {W : Type} {input : Input} (hwf : input.WellFormed)
    (options : List RbacOption) (order : MapRange RoleID) (ctx : Context W) (subject : Subject)
    (tenant : TenantID) (w : W) :
    (input.evaluator options).effectivePermissions order ctx subject tenant w
      = match ctx.err w with
        | (some err, w) => (.error err, w)
        | (none, w) =>
          if subject.groups.length > (input.evaluator options).limits.maxGroups then
            (.error (.sentinel .rbacErrGroupLimitExceeded), w)
          else (.ok (sortBy (PriorityLe Permission.priority Permission.id)
            (input.granted options subject tenant)), w) := by
  unfold Evaluator.effectivePermissions
  rcases ctx.err w with ⟨_ | err, w'⟩
  · dsimp only
    split
    · rfl
    · have hroles : (principals subject).foldl ((input.evaluator options).addAssigned tenant) []
          = (input.evaluator options).rolesOf subject tenant := foldl_addAssigned _ _ _ _
      have hnodup := nodup_rolesOf (input.evaluator options) subject tenant
      have horder := order.perm ((input.evaluator options).rolesOf subject tenant)
      have hperm : ((order.order ((input.evaluator options).rolesOf subject tenant)).flatMap
          (bucket (input.evaluator options).permissions)).Perm
          (input.granted options subject tenant) := by
        refine (flatMap_bucket_perm Permission.roleID input.permissions
          (horder.nodup_iff.mpr hnodup)).trans ?_
        rw [Input.granted]
        refine List.Perm.of_eq (List.filter_congr fun permission _ => ?_)
        simp only [horder.mem_iff]
      have hties : ((input.granted options subject tenant).map Permission.id).Nodup :=
        hwf.permissions_nodup.sublist (List.filter_sublist.map _)
      rw [hroles, sortBy_eq_of_perm _ hperm.symm (PriorityLe.eq_of_nodup hties)]
  · rfl

/-! ### What a tenant sees

Inheritance stays within a tenant, so everything an evaluation for a tenant can
reach belongs to the tenants it sees. -/

/-- Two inputs hold the same items of every tenant that is shown. -/
structure Input.Agree (shown : TenantID → Prop) (a b : Input) : Prop where
  roles : ∀ role, shown role.tenant → (role ∈ a.roles ↔ role ∈ b.roles)
  permissions : ∀ permission, shown permission.tenant →
    (permission ∈ a.permissions ↔ permission ∈ b.permissions)
  assignments : ∀ assignment, shown assignment.tenant →
    (assignment ∈ a.assignments ↔ assignment ∈ b.assignments)

section Agree

variable {shown : TenantID → Prop} {a b : Input}

theorem Input.Agree.symm (h : a.Agree shown b) : b.Agree shown a where
  roles role hs := (h.roles role hs).symm
  permissions permission hs := (h.permissions permission hs).symm
  assignments assignment hs := (h.assignments assignment hs).symm

theorem Input.WellFormed.parentsOf_eq {input : Input} (h : input.WellFormed) {role : Role}
    (hrole : role ∈ input.roles) :
    parentsOf (indexBy Role.id input.roles) role.id = role.parents := by
  rw [parentsOf, (lookup_indexBy h.roles_nodup).mpr ⟨hrole, rfl⟩]
  rfl

/-- A chain of parents from a shown role stays among the roles of its tenant, and
is a chain of the other input as well. -/
theorem Input.Agree.reaches (h : a.Agree shown b) (ha : a.WellFormed) (hb : b.WellFormed)
    {role : Role} (hrole : role ∈ a.roles) (hs : shown role.tenant) {roleID : RoleID}
    (hr : Reaches (parentsOf (indexBy Role.id a.roles)) role.id roleID) :
    (∃ reached ∈ a.roles, reached.id = roleID ∧ reached.tenant = role.tenant) ∧
      Reaches (parentsOf (indexBy Role.id b.roles)) role.id roleID := by
  induction hr with
  | refl => exact ⟨⟨role, hrole, rfl, rfl⟩, Relation.ReflTransGen.refl⟩
  | tail _ hstep ih =>
    obtain ⟨⟨reached, hreached, rfl, htenant⟩, hb'⟩ := ih
    rw [ha.parentsOf_eq hreached] at hstep
    obtain ⟨parent, hparent, hid, hpt⟩ := ha.parents reached hreached _ hstep
    have hother : reached ∈ b.roles := (h.roles reached (htenant ▸ hs)).mp hreached
    refine ⟨⟨parent, hparent, hid, hpt.trans htenant⟩, hb'.tail ?_⟩
    rw [hb.parentsOf_eq hother]
    exact hstep

theorem mem_assigned {input : Input} {options : List RbacOption} {subject : Subject}
    {tenant : TenantID} {roleID : RoleID} :
    roleID ∈ (principals subject).flatMap ((input.evaluator options).assignedTo tenant) ↔
      ∃ principal ∈ principals subject, ∃ assignment ∈ input.assignments,
        subjectKey assignment.subject = subjectKey principal ∧
        matchesTenant (configured options).inheritGlobal assignment.tenant tenant ∧
        assignment.roleID = roleID := by
  simp only [List.mem_flatMap, Evaluator.assignedTo, Input.evaluator, bucket_groupBy,
    List.mem_map, List.mem_filter, decide_eq_true_eq, and_assoc]

/-- The roles of a subject are shown roles of both inputs. -/
theorem Input.Agree.rolesOf {options : List RbacOption} {tenant : TenantID}
    (hshown : ∀ u, matchesTenant (configured options).inheritGlobal u tenant → shown u)
    (h : a.Agree shown b) (ha : a.WellFormed) (hb : b.WellFormed) {subject : Subject}
    {roleID : RoleID} (hr : roleID ∈ (a.evaluator options).rolesOf subject tenant) :
    (∃ role ∈ a.roles, role.id = roleID ∧ shown role.tenant) ∧
      roleID ∈ (b.evaluator options).rolesOf subject tenant := by
  obtain ⟨assigned, hassigned, hreach⟩ := mem_rolesOf.mp hr
  obtain ⟨principal, hprincipal, assignment, hmem, hkey, htenant, rfl⟩ := mem_assigned.mp hassigned
  obtain ⟨role, hrole, hid, hrt⟩ := ha.assignment_role assignment hmem
  have hs : shown role.tenant := by rw [hrt]; exact hshown _ htenant
  rw [← hid] at hreach
  obtain ⟨⟨reached, hreached, hreachedID, hreachedTenant⟩, hb'⟩ := h.reaches ha hb hrole hs hreach
  refine ⟨⟨reached, hreached, hreachedID, hreachedTenant ▸ hs⟩, mem_rolesOf.mpr ?_⟩
  have hother := (h.assignments assignment (hshown _ htenant)).mp hmem
  refine ⟨assignment.roleID, ?_, hid ▸ hb'⟩
  exact mem_assigned.mpr ⟨principal, hprincipal, assignment, hother, hkey, htenant, rfl⟩

theorem Input.Agree.mem_granted {options : List RbacOption} {tenant : TenantID}
    (hshown : ∀ u, matchesTenant (configured options).inheritGlobal u tenant → shown u)
    (h : a.Agree shown b) (ha : a.WellFormed) (hb : b.WellFormed) {subject : Subject}
    {permission : Permission} (hp : permission ∈ a.granted options subject tenant) :
    permission ∈ b.granted options subject tenant := by
  obtain ⟨hmem, hrole⟩ := List.mem_filter.mp hp
  obtain ⟨⟨role, hrm, hid, hs⟩, hother⟩ := h.rolesOf hshown ha hb (of_decide_eq_true hrole)
  obtain ⟨role', hrm', hid', htenant⟩ := ha.permission_role permission hmem
  have hsame : role' = role :=
    List.inj_on_of_nodup_map ha.roles_nodup hrm' hrm (hid'.trans hid.symm)
  have hshownp : shown permission.tenant := by rw [← htenant, hsame]; exact hs
  exact List.mem_filter.mpr
    ⟨(h.permissions permission hshownp).mp hmem, decide_eq_true hother⟩

/-- **Inputs that agree on what a tenant sees** grant it the same permissions. -/
theorem Input.Agree.effectivePermissions {W : Type} {options : List RbacOption}
    {tenant : TenantID}
    (hshown : ∀ u, matchesTenant (configured options).inheritGlobal u tenant → shown u)
    (h : a.Agree shown b) (ha : a.WellFormed) (hb : b.WellFormed) (order order' : MapRange RoleID)
    (ctx : Context W) (subject : Subject) (w : W) :
    (a.evaluator options).effectivePermissions order ctx subject tenant w
      = (b.evaluator options).effectivePermissions order' ctx subject tenant w := by
  have hta : ((a.granted options subject tenant).map Permission.id).Nodup :=
    ha.permissions_nodup.sublist (List.filter_sublist.map _)
  have htb : ((b.granted options subject tenant).map Permission.id).Nodup :=
    hb.permissions_nodup.sublist (List.filter_sublist.map _)
  have hperm : (a.granted options subject tenant).Perm (b.granted options subject tenant) := by
    rw [List.perm_ext_iff_of_nodup hta.of_map htb.of_map]
    intro permission
    exact ⟨h.mem_granted hshown ha hb, h.symm.mem_granted hshown hb ha⟩
  rw [effectivePermissions_eq ha, effectivePermissions_eq hb,
    sortBy_eq_of_perm _ hperm (PriorityLe.eq_of_nodup hta)]
  rfl

theorem Input.Agree.evaluate {W : Type} {options : List RbacOption} {request : Request}
    (hshown : ∀ u, matchesTenant (configured options).inheritGlobal u request.tenant → shown u)
    (h : a.Agree shown b) (ha : a.WellFormed) (hb : b.WellFormed) (order order' : MapRange RoleID)
    (ctx : Context W) (w : W) :
    (a.evaluator options).evaluate order ctx request w
      = (b.evaluator options).evaluate order' ctx request w := by
  unfold Evaluator.evaluate
  rw [h.effectivePermissions hshown ha hb order order']
  rfl

end Agree

end Authorization.Rbac
