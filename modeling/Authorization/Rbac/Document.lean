import Authorization.Rbac.Inheritance
import Authorization.Core.Document

/-!
# Documents of role-based access control

`rbac/document.go`.  A document of valid strings comes back from its encoding as it
was, but for the arrays behind its slices, and parents that were empty are nil.
`Build` does not see the difference, so `DecodeDocument` returns the evaluator that
`Build` does.  The orders in which `New` ranges over the roles may differ between
the two; what they return does not depend on them.
-/

namespace Authorization.Rbac

open Authorization.Foundation Authorization.Core Authorization.Foundation.Json

def documentErrors : DocumentErrors where
  invalidDocument := .rbacErrInvalidDocument
  unsupportedDocumentVersion := .rbacErrUnsupportedDocumentVersion
  documentLimitExceeded := .rbacErrDocumentLimitExceeded

structure RoleDocument where
  id : RoleID := []
  tenant : TenantID := []
  parents : Slice RoleID := .nil

structure PermissionDocument where
  id : PolicyID := []
  roleID : RoleID := []
  tenant : TenantID := []
  action : Action := []
  resourceType : ResourceType := []
  resourceID : ResourceID := []
  effect : Bytes := []
  priority : Int := 0

structure AssignmentDocument where
  id : PolicyID := []
  subjectKind : SubjectKind := []
  subjectID : SubjectID := []
  roleID : RoleID := []
  tenant : TenantID := []

structure Document where
  version : UInt64 := 0
  globalInheritance : Bool := false
  limits : Limits := ⟨0, 0, 0, 0, 0, 0, 0⟩
  roles : Slice RoleDocument := .nil
  permissions : Slice PermissionDocument := .nil
  assignments : Slice AssignmentDocument := .nil

/-! ### Building -/

/-- The conversion `Role(role)`. -/
def RoleDocument.toRole (role : RoleDocument) : Role :=
  ⟨role.id, role.tenant, role.parents.toList⟩

def PermissionDocument.build (permission : PermissionDocument) : Except GoError Permission :=
  (documentErrors.parseEffect permission.effect).map fun effect =>
    { id := permission.id
      roleID := permission.roleID
      tenant := permission.tenant
      action := permission.action
      resourceType := permission.resourceType
      resourceID := permission.resourceID
      effect := effect
      priority := permission.priority }

def AssignmentDocument.toAssignment (assignment : AssignmentDocument) : Assignment where
  id := assignment.id
  subject := ⟨assignment.subjectKind, assignment.subjectID, [], ∅⟩
  roleID := assignment.roleID
  tenant := assignment.tenant

def Document.options (document : Document) : List RbacOption :=
  .withLimits document.limits ::
    if document.globalInheritance then [.withGlobalInheritance] else []

/-- `Build`; `ranges` are the orders of the ranges in `New`. -/
def Document.build (ranges : RoleRanges) (document : Document) : Except GoError Evaluator :=
  if document.version ≠ documentVersion then
    .error (.sentinel documentErrors.unsupportedDocumentVersion)
  else
    match buildEach "permission " PermissionDocument.build 0 document.permissions.toList with
    | .error err => .error err
    | .ok permissions =>
      new ranges (document.roles.toList.map RoleDocument.toRole) permissions
        (document.assignments.toList.map AssignmentDocument.toAssignment) document.options

/-! ### The JSON format -/

def roleFields : List (StructField RoleDocument) :=
  [field (str "id") .string RoleDocument.id fun id role => { role with id },
    omitempty (str "tenant") .string RoleDocument.tenant fun tenant role => { role with tenant },
    omitempty (str "parents") (.slice .string) RoleDocument.parents
      fun parents role => { role with parents }]

def permissionFields : List (StructField PermissionDocument) :=
  [field (str "id") .string PermissionDocument.id fun id permission => { permission with id },
    field (str "role_id") .string PermissionDocument.roleID
      fun roleID permission => { permission with roleID },
    omitempty (str "tenant") .string PermissionDocument.tenant
      fun tenant permission => { permission with tenant },
    field (str "action") .string PermissionDocument.action
      fun action permission => { permission with action },
    field (str "resource_type") .string PermissionDocument.resourceType
      fun resourceType permission => { permission with resourceType },
    omitempty (str "resource_id") .string PermissionDocument.resourceID
      fun resourceID permission => { permission with resourceID },
    field (str "effect") .string PermissionDocument.effect
      fun effect permission => { permission with effect },
    omitempty (str "priority") .int PermissionDocument.priority
      fun priority permission => { permission with priority }]

def assignmentFields : List (StructField AssignmentDocument) :=
  [field (str "id") .string AssignmentDocument.id fun id assignment => { assignment with id },
    field (str "subject_kind") .string AssignmentDocument.subjectKind
      fun subjectKind assignment => { assignment with subjectKind },
    field (str "subject_id") .string AssignmentDocument.subjectID
      fun subjectID assignment => { assignment with subjectID },
    field (str "role_id") .string AssignmentDocument.roleID
      fun roleID assignment => { assignment with roleID },
    omitempty (str "tenant") .string AssignmentDocument.tenant
      fun tenant assignment => { assignment with tenant }]

def limitsFields : List (StructField Limits) :=
  [omitempty (str "max_inheritance_depth") .int Limits.maxInheritanceDepth
      fun maxInheritanceDepth limits => { limits with maxInheritanceDepth },
    omitempty (str "max_roles") .int Limits.maxRoles fun maxRoles limits => { limits with maxRoles },
    omitempty (str "max_permissions") .int Limits.maxPermissions
      fun maxPermissions limits => { limits with maxPermissions },
    omitempty (str "max_assignments") .int Limits.maxAssignments
      fun maxAssignments limits => { limits with maxAssignments },
    omitempty (str "max_groups") .int Limits.maxGroups
      fun maxGroups limits => { limits with maxGroups },
    omitempty (str "max_matches") .int Limits.maxMatches
      fun maxMatches limits => { limits with maxMatches },
    omitempty (str "max_batch_size") .int Limits.maxBatchSize
      fun maxBatchSize limits => { limits with maxBatchSize }]

def roleCodec : Codec RoleDocument := .struct {} roleFields

def permissionCodec : Codec PermissionDocument := .struct {} permissionFields

def assignmentCodec : Codec AssignmentDocument := .struct {} assignmentFields

def limitsCodec : Codec Limits := .struct ⟨0, 0, 0, 0, 0, 0, 0⟩ limitsFields

def documentFields : List (StructField Document) :=
  [field (str "version") .uint64 Document.version fun version document => { document with version },
    omitempty (str "global_inheritance") .bool Document.globalInheritance
      fun globalInheritance document => { document with globalInheritance },
    omitempty (str "limits") limitsCodec Document.limits
      fun limits document => { document with limits },
    field (str "roles") (.slice roleCodec) Document.roles
      fun roles document => { document with roles },
    field (str "permissions") (.slice permissionCodec) Document.permissions
      fun permissions document => { document with permissions },
    field (str "assignments") (.slice assignmentCodec) Document.assignments
      fun assignments document => { document with assignments }]

def documentCodec : Codec Document := .struct {} documentFields

/-- `EncodeDocument`. -/
def encodeDocument (ranges : RoleRanges) (document : Document) : Except GoError Bytes :=
  Core.encodeDocument documentErrors documentCodec (Document.build ranges) document

/-- `DecodeDocument`. -/
def decodeDocument (ranges : RoleRanges) (encoded : Bytes) : Except GoError Evaluator :=
  Core.decodeDocument documentErrors documentCodec (Document.build ranges) encoded

/-! ### Reading back -/

def RoleDocument.strings (role : RoleDocument) : List Bytes :=
  role.id :: role.tenant :: role.parents.toList

def PermissionDocument.strings (permission : PermissionDocument) : List Bytes :=
  [permission.id, permission.roleID, permission.tenant, permission.action,
    permission.resourceType, permission.resourceID, permission.effect]

def AssignmentDocument.strings (assignment : AssignmentDocument) : List Bytes :=
  [assignment.id, assignment.subjectKind, assignment.subjectID, assignment.roleID,
    assignment.tenant]

/-- The strings of a document. -/
def Document.strings (document : Document) : List Bytes :=
  document.roles.toList.flatMap RoleDocument.strings ++
    (document.permissions.toList.flatMap PermissionDocument.strings ++
      document.assignments.toList.flatMap AssignmentDocument.strings)

def RoleDocument.readBack (role : RoleDocument) : RoleDocument :=
  { role with parents := .ofList role.parents.toList }

theorem toRole_readBack (role : RoleDocument) : role.readBack.toRole = role.toRole := by
  simp [RoleDocument.toRole, RoleDocument.readBack]

theorem reads_role {role : RoleDocument} (h : ∀ s ∈ role.strings, Utf8.valid s = true) :
    roleCodec.Reads role role.readBack := by
  simp only [RoleDocument.strings, List.forall_mem_cons] at h
  obtain ⟨hid, htenant, hparents⟩ := h
  refine Codec.reads_struct rfl ?_
  refine .cons (reads_field (Codec.reads_string hid) rfl) ?_
  refine .cons (reads_omitempty (Codec.omitted_string htenant) rfl rfl) ?_
  refine .cons (reads_omitempty
    (Codec.omitted_slice_self fun s hs => Codec.reads_string (hparents s hs)) rfl rfl) ?_
  exact .nil _

theorem reads_permission {permission : PermissionDocument}
    (h : ∀ s ∈ permission.strings, Utf8.valid s = true) :
    permissionCodec.Reads permission permission := by
  simp only [PermissionDocument.strings, List.forall_mem_cons] at h
  obtain ⟨hid, hrole, htenant, haction, htype, hresource, heffect, -⟩ := h
  refine Codec.reads_struct rfl ?_
  refine .cons (reads_field (Codec.reads_string hid) rfl) ?_
  refine .cons (reads_field (Codec.reads_string hrole) rfl) ?_
  refine .cons (reads_omitempty (Codec.omitted_string htenant) rfl rfl) ?_
  refine .cons (reads_field (Codec.reads_string haction) rfl) ?_
  refine .cons (reads_field (Codec.reads_string htype) rfl) ?_
  refine .cons (reads_omitempty (Codec.omitted_string hresource) rfl rfl) ?_
  refine .cons (reads_field (Codec.reads_string heffect) rfl) ?_
  refine .cons (reads_omitempty (Codec.omitted_int _) rfl rfl) ?_
  exact .nil _

theorem reads_assignment {assignment : AssignmentDocument}
    (h : ∀ s ∈ assignment.strings, Utf8.valid s = true) :
    assignmentCodec.Reads assignment assignment := by
  simp only [AssignmentDocument.strings, List.forall_mem_cons] at h
  obtain ⟨hid, hkind, hsubject, hrole, htenant, -⟩ := h
  refine Codec.reads_struct rfl ?_
  refine .cons (reads_field (Codec.reads_string hid) rfl) ?_
  refine .cons (reads_field (Codec.reads_string hkind) rfl) ?_
  refine .cons (reads_field (Codec.reads_string hsubject) rfl) ?_
  refine .cons (reads_field (Codec.reads_string hrole) rfl) ?_
  refine .cons (reads_omitempty (Codec.omitted_string htenant) rfl rfl) ?_
  exact .nil _

theorem reads_limits (limits : Limits) : limitsCodec.Reads limits limits := by
  refine Codec.reads_struct rfl ?_
  refine .cons (reads_omitempty (Codec.omitted_int _) rfl rfl) ?_
  refine .cons (reads_omitempty (Codec.omitted_int _) rfl rfl) ?_
  refine .cons (reads_omitempty (Codec.omitted_int _) rfl rfl) ?_
  refine .cons (reads_omitempty (Codec.omitted_int _) rfl rfl) ?_
  refine .cons (reads_omitempty (Codec.omitted_int _) rfl rfl) ?_
  refine .cons (reads_omitempty (Codec.omitted_int _) rfl rfl) ?_
  refine .cons (reads_omitempty (Codec.omitted_int _) rfl rfl) ?_
  exact .nil _

/-- A document as it is read back. -/
def Document.readBack (document : Document) : Document :=
  { document with
    roles := document.roles.map RoleDocument.readBack
    permissions := document.permissions.map id
    assignments := document.assignments.map id }

theorem reads_document {document : Document} (h : ∀ s ∈ document.strings, Utf8.valid s = true) :
    documentCodec.Reads document document.readBack := by
  simp only [Document.strings, List.forall_mem_append, List.mem_flatMap, forall_exists_index,
    and_imp] at h
  obtain ⟨hroles, hpermissions, hassignments⟩ := h
  refine Codec.reads_struct rfl ?_
  refine .cons (reads_field (Codec.reads_uint64 _) rfl) ?_
  refine .cons (reads_omitempty (Codec.omitted_bool _) rfl rfl) ?_
  refine .cons (reads_omitempty (Codec.omitted_struct (reads_limits _)) rfl rfl) ?_
  refine .cons (reads_field
    (Codec.reads_slice fun role hr => reads_role fun s hs => hroles s role hr hs) rfl) ?_
  refine .cons (reads_field (Codec.reads_slice fun permission hp =>
    reads_permission fun s hs => hpermissions s permission hp hs) rfl) ?_
  refine .cons (reads_field (Codec.reads_slice fun assignment ha =>
    reads_assignment fun s hs => hassignments s assignment ha hs) rfl) ?_
  exact .nil _

/-! ### The round trip -/

theorem build_readBack (ranges : RoleRanges) (document : Document) :
    document.readBack.build ranges = document.build ranges := by
  have hroles : document.readBack.roles.toList.map RoleDocument.toRole
      = document.roles.toList.map RoleDocument.toRole := by
    rw [Document.readBack, Slice.toList_map, List.map_map]
    exact List.map_congr_left fun role _ => toRole_readBack role
  have hpermissions : document.readBack.permissions.toList = document.permissions.toList := by
    rw [Document.readBack, Slice.toList_map, List.map_id]
  have hassignments : document.readBack.assignments.toList = document.assignments.toList := by
    rw [Document.readBack, Slice.toList_map, List.map_id]
  unfold Document.build
  rw [hroles, hpermissions, hassignments]
  rfl

/-- **What a document that can be built is built into** does not depend on the
orders of the ranges. -/
theorem build_eq_ok {ranges : RoleRanges} {document : Document} {evaluator : Evaluator}
    (h : document.build ranges = .ok evaluator) :
    ∃ input : Input, input.WellFormed ∧ evaluator = input.evaluator document.options ∧
      ∀ ranges', document.build ranges' = .ok evaluator := by
  unfold Document.build at h ⊢
  split at h
  · cases h
  · rename_i hversion
    split at h
    · cases h
    · rename_i permissions hpermissions
      obtain ⟨input, hinput⟩ : ∃ input : Input, input =
          ⟨document.roles.toList.map RoleDocument.toRole, permissions,
            document.assignments.toList.map AssignmentDocument.toAssignment⟩ := ⟨_, rfl⟩
      have hnew : new ranges input.roles input.permissions input.assignments document.options
          = .ok evaluator := by
        rw [hinput]
        exact h
      obtain ⟨hwf, heq⟩ := new_eq_ok hnew
      obtain ⟨haccepted, -⟩ := new_eq_ok_iff.mp hnew
      refine ⟨input, hwf, heq, ?_⟩
      intro ranges'
      have hnew' : new ranges' input.roles input.permissions input.assignments document.options
          = .ok evaluator := new_eq_ok_iff.mpr ⟨haccepted, heq⟩
      rw [hinput] at hnew'
      rw [if_neg hversion]
      exact hnew'

/-- **`DecodeDocument` returns the evaluator of `Build`** on what `EncodeDocument`
wrote. -/
theorem decode_of_encode {ranges ranges' : RoleRanges} {document : Document} {encoded : Bytes}
    (hutf8 : ∀ s ∈ document.strings, Utf8.valid s = true)
    (h : encodeDocument ranges document = .ok encoded) :
    decodeDocument ranges' encoded = document.build ranges' := by
  rw [decodeDocument, decodeDocument_of_encode (reads_document hutf8) h, build_readBack]

/-- No call tells the evaluators apart, whatever the orders of the ranges. -/
structure Evaluator.Agrees (evaluator evaluator' : Evaluator) : Prop where
  evaluate : ∀ {W : Type} (order order' : MapRange RoleID) (ctx : Context W) (request : Request)
    (w : W), evaluator'.evaluate order' ctx request w = evaluator.evaluate order ctx request w
  maxBatchSize : evaluator'.limits.maxBatchSize = evaluator.limits.maxBatchSize
  evaluateBatch : ∀ {W : Type} (orders orders' : Nat → MapRange RoleID) (ctx : Context W)
    (requests : List Request) (w : W), evaluator'.evaluateBatch orders' ctx requests w
      = evaluator.evaluateBatch orders ctx requests w
  effectivePermissions : ∀ {W : Type} (order order' : MapRange RoleID) (ctx : Context W)
    (subject : Subject) (tenant : TenantID) (w : W),
    evaluator'.effectivePermissions order' ctx subject tenant w
      = evaluator.effectivePermissions order ctx subject tenant w

theorem Input.WellFormed.agrees_self {input : Input} (hwf : input.WellFormed)
    (options : List RbacOption) : (input.evaluator options).Agrees (input.evaluator options) := by
  have hpermissions : ∀ {W : Type} (order order' : MapRange RoleID) (ctx : Context W)
      (subject : Subject) (tenant : TenantID) (w : W),
      (input.evaluator options).effectivePermissions order' ctx subject tenant w
        = (input.evaluator options).effectivePermissions order ctx subject tenant w := by
    intro W order order' ctx subject tenant w
    rw [effectivePermissions_eq hwf, effectivePermissions_eq hwf]
  have hevaluate : ∀ {W : Type} (order order' : MapRange RoleID) (ctx : Context W)
      (request : Request) (w : W), (input.evaluator options).evaluate order' ctx request w
        = (input.evaluator options).evaluate order ctx request w := by
    intro W order order' ctx request w
    unfold Evaluator.evaluate
    rw [hpermissions order order']
  refine ⟨hevaluate, rfl, ?_, hpermissions⟩
  intro W orders orders' ctx requests w
  unfold Evaluator.evaluateBatch
  congr 1
  funext index request w
  rw [hevaluate (orders index) (orders' index)]

/-- What `EncodeDocument` writes, `DecodeDocument` makes an evaluator of that agrees
with the one of `Build`, each with its own orders of the ranges. -/
def Document.RoundTrips (document : Document) : Prop :=
  ∀ ranges encoded, encodeDocument ranges document = .ok encoded → ∀ ranges' ranges'',
    ∃ built decoded, document.build ranges' = .ok built ∧
      decodeDocument ranges'' encoded = .ok decoded ∧ built.Agrees decoded

theorem Document.roundTrips {document : Document}
    (hutf8 : ∀ s ∈ document.strings, Utf8.valid s = true) : document.RoundTrips := by
  intro ranges encoded h ranges' ranges''
  obtain ⟨⟨built, hbuilt⟩, -, -⟩ := encodeDocument_eq_ok.mp h
  obtain ⟨input, hwf, rfl, hall⟩ := build_eq_ok hbuilt
  exact ⟨_, _, hall ranges', (decode_of_encode hutf8 h).trans (hall ranges''),
    hwf.agrees_self document.options⟩

end Authorization.Rbac
