import Authorization.Foundation.DepthFirst
import Authorization.Rbac.Rbac

/-!
# What `validateInheritance` accepts

The three loops of `validateInheritance` are driven by maps: the parents of every
role, a search for cycles and the memoised depths.  `visit` and `depth` are the
searches of `Foundation/DepthFirst.lean` on the parents, so the check passes exactly
on the graphs that `GraphOk` describes, whatever the orders of the ranges.

`new_eq_ok_iff` does the same for `New`: what it accepts is a property of the sets of
roles, permissions and assignments.
-/

namespace Authorization.Rbac

open Authorization.Foundation Authorization.Core

/-- The second identifier is a parent of the role with the first. -/
def ParentEdge (roles : List Role) (child parent : RoleID) : Prop :=
  ∃ role ∈ roles, role.id = child ∧ parent ∈ role.parents

/-- The role graphs that may be inherited along. -/
structure GraphOk (roles : List Role) (maxInheritanceDepth : Int) : Prop where
  parents : ∀ role ∈ roles, ∀ parentID ∈ role.parents,
    ∃ parent ∈ roles, parent.id = parentID ∧ parent.tenant = role.tenant
  acyclic : ∀ roleID, ¬ Relation.TransGen (ParentEdge roles) roleID roleID
  depth : ∀ role ∈ roles, ∀ n last, Steps (ParentEdge roles) n role.id last →
    n ≤ maxInheritanceDepth

/-! ### The searches -/

section Searches

variable (roles : GoMap RoleID Role)

/-- `visit` is the search for cycles along the parents. -/
theorem visit_eq : ∀ (fuel : Nat) (roleID : RoleID) (states : GoMap RoleID UInt8),
    visit roles fuel roleID states = (colour (parentsOf roles) fuel roleID states).elim
      (.error (.sentinel .rbacErrRoleCycle)) .ok := by
  intro fuel
  induction fuel with
  | zero => intro roleID states; rfl
  | succ fuel ih =>
    intro roleID states
    rw [visit, colour]
    simp only [ih, foldlM_elim]
    split
    · rfl
    · split
      · rfl
      · cases (parentsOf roles roleID).foldlM
          (fun states parentID => colour (parentsOf roles) fuel parentID states)
          (states.insert roleID 1) <;> rfl

/-- `depth` is the longest chain of parents. -/
theorem depth_eq : ∀ (fuel : Nat) (roleID : RoleID) (depths : GoMap RoleID Nat),
    depth roles fuel roleID depths = longest (parentsOf roles) fuel roleID depths := by
  intro fuel
  induction fuel with
  | zero => intro roleID depths; rfl
  | succ fuel ih =>
    intro roleID depths
    cases hlookup : depths.lookup roleID with
    | some length => simp only [depth, longest, hlookup]
    | none => simp only [depth, longest, hlookup, ih]

/-- The loop over the depths passes when no chain from the roles is too long. -/
theorem checkDepths_eq_none {fuel : Nat} (hfuel : roles.keys.length < fuel)
    (maxInheritanceDepth : Int) : ∀ (roleIDs : List RoleID) (depths : GoMap RoleID Nat),
    (∀ roleID ∈ roleIDs, Founded (parentsOf roles) roleID) →
    Remembered (parentsOf roles) depths →
    (checkDepths roles maxInheritanceDepth fuel depths roleIDs = none ↔
      ∀ roleID ∈ roleIDs, ∀ n last, Steps (Edge (parentsOf roles)) n roleID last →
        n ≤ maxInheritanceDepth) := by
  intro roleIDs
  induction roleIDs with
  | nil => intro depths _ _; simp [checkDepths]
  | cons roleID rest ih =>
    intro depths hfounded hremembered
    have hnext : ∀ k, k ∉ roles.keys → parentsOf roles k = [] := parentsOf_eq_nil
    have hspec := longest_spec hnext fuel roleID [] depths
      (hfounded roleID List.mem_cons_self) (fun _ hg => absurd hg List.not_mem_nil)
      (Nat.lt_of_le_of_lt (List.length_filter_le _ _) hfuel) hremembered
    rw [checkDepths, depth_eq]
    obtain ⟨last, hlast⟩ := hspec.height.attained
    split
    · rename_i hdeep
      refine ⟨nofun, fun h => ?_⟩
      have hle := h roleID List.mem_cons_self _ last hlast
      omega
    · rename_i hshallow
      rw [ih _ (fun id hid => hfounded id (List.mem_cons_of_mem _ hid)) hspec.remembered]
      constructor
      · intro h id hid n x hsteps
        rcases List.mem_cons.mp hid with rfl | hid
        · have hn := hspec.height.bound n x hsteps
          omega
        · exact h id hid n x hsteps
      · intro h id hid
        exact h id (List.mem_cons_of_mem _ hid)

/-- The search for cycles over all roles. -/
def searchCycles (order : MapRange RoleID) : Option (GoMap RoleID UInt8) :=
  (order.order roles.keys).foldlM
    (fun states roleID => colour (parentsOf roles) (graphFuel roles) roleID states) ∅

theorem validateInheritance_eq_none_iff_loops (maxInheritanceDepth : Int) (ranges : RoleRanges) :
    validateInheritance roles maxInheritanceDepth ranges = none ↔
      checkAllParents roles (ranges.parents.order roles.keys) = none ∧
      searchCycles roles ranges.cycles ≠ none ∧
      checkDepths roles maxInheritanceDepth (graphFuel roles) ∅
        (ranges.depths.order roles.keys) = none := by
  unfold validateInheritance
  cases checkAllParents roles (ranges.parents.order roles.keys) with
  | some err => simp
  | none =>
    have hsearch : (ranges.cycles.order roles.keys).foldlM (fun states roleID =>
        visit roles (graphFuel roles) roleID states) ∅
          = (searchCycles roles ranges.cycles).elim (.error (.sentinel .rbacErrRoleCycle)) .ok := by
      simp only [visit_eq, foldlM_elim]
      rfl
    dsimp only
    rw [hsearch]
    cases searchCycles roles ranges.cycles with
    | none => simp
    | some states => simp

/-- The search fails exactly on a cycle, whatever the order of its range. -/
theorem searchCycles_eq_none (order : MapRange RoleID) :
    searchCycles roles order = none ↔
      ∃ roleID, Relation.TransGen (Edge (parentsOf roles)) roleID roleID := by
  have hnext : ∀ k, k ∉ roles.keys → parentsOf roles k = [] := parentsOf_eq_nil
  refine colourAll_eq_none hnext (Nat.lt_succ_self _) fun k hk => ?_
  rw [MapRange.mem_order]
  exact hk

end Searches

/-! ### The graph -/

section Graph

variable {roles : List Role} (hnodup : (roles.map Role.id).Nodup)

include hnodup

theorem edge_parentsOf (child parent : RoleID) :
    Edge (parentsOf (indexBy Role.id roles)) child parent ↔ ParentEdge roles child parent := by
  unfold Edge ParentEdge parentsOf
  cases hlookup : (indexBy Role.id roles).lookup child with
  | none =>
    refine ⟨nofun, ?_⟩
    rintro ⟨role, hrole, rfl, -⟩
    rw [(lookup_indexBy hnodup).mpr ⟨hrole, rfl⟩] at hlookup
    cases hlookup
  | some role =>
    obtain ⟨hmem, hid⟩ := (lookup_indexBy hnodup).mp hlookup
    constructor
    · intro hparent
      exact ⟨role, hmem, hid, hparent⟩
    · rintro ⟨other, hother, hid', hparent⟩
      rw [List.inj_on_of_nodup_map hnodup hmem hother (hid.trans hid'.symm)]
      exact hparent

theorem edge_eq : Edge (parentsOf (indexBy Role.id roles)) = ParentEdge roles := by
  funext child parent
  exact propext (edge_parentsOf hnodup child parent)

theorem mem_keys_indexBy {roleID : RoleID} :
    roleID ∈ (indexBy Role.id roles).keys ↔ ∃ role ∈ roles, role.id = roleID := by
  rw [← AList.mem_keys, ← AList.lookup_isSome, Option.isSome_iff_exists]
  constructor
  · rintro ⟨role, hrole⟩
    exact ⟨role, (lookup_indexBy hnodup).mp hrole⟩
  · rintro ⟨role, hrole⟩
    exact ⟨role, (lookup_indexBy hnodup).mpr hrole⟩

theorem parents_indexBy_iff :
    (∀ roleID role, (indexBy Role.id roles).lookup roleID = some role →
      ∀ parentID ∈ role.parents, ∃ parent, (indexBy Role.id roles).lookup parentID = some parent ∧
        parent.tenant = role.tenant) ↔
    ∀ role ∈ roles, ∀ parentID ∈ role.parents,
      ∃ parent ∈ roles, parent.id = parentID ∧ parent.tenant = role.tenant := by
  constructor
  · intro h role hrole parentID hparent
    obtain ⟨parent, hlookup, htenant⟩ :=
      h role.id role ((lookup_indexBy hnodup).mpr ⟨hrole, rfl⟩) parentID hparent
    obtain ⟨hmem, hid⟩ := (lookup_indexBy hnodup).mp hlookup
    exact ⟨parent, hmem, hid, htenant⟩
  · intro h roleID role hlookup parentID hparent
    obtain ⟨parent, hmem, hid, htenant⟩ :=
      h role ((lookup_indexBy hnodup).mp hlookup).1 parentID hparent
    exact ⟨parent, (lookup_indexBy hnodup).mpr ⟨hmem, hid⟩, htenant⟩

/-- **`validateInheritance` accepts exactly the well-formed graphs**, whatever the
orders of its ranges. -/
theorem validateInheritance_eq_none_iff (maxInheritanceDepth : Int) (ranges : RoleRanges) :
    validateInheritance (indexBy Role.id roles) maxInheritanceDepth ranges = none ↔
      GraphOk roles maxInheritanceDepth := by
  have hnext : ∀ k, k ∉ (indexBy Role.id roles).keys →
      parentsOf (indexBy Role.id roles) k = [] := parentsOf_eq_nil
  have hcycle : searchCycles (indexBy Role.id roles) ranges.cycles ≠ none ↔
      ∀ roleID, ¬ Relation.TransGen (ParentEdge roles) roleID roleID := by
    rw [ne_eq, searchCycles_eq_none, edge_eq hnodup, not_exists]
  have hdepth : (∀ roleID, ¬ Relation.TransGen (ParentEdge roles) roleID roleID) →
      (checkDepths (indexBy Role.id roles) maxInheritanceDepth (graphFuel (indexBy Role.id roles)) ∅
        (ranges.depths.order (indexBy Role.id roles).keys) = none ↔
      ∀ role ∈ roles, ∀ n last, Steps (ParentEdge roles) n role.id last →
        n ≤ maxInheritanceDepth) := by
    intro hacyclic
    rw [← edge_eq hnodup] at hacyclic
    have hfuel : (indexBy Role.id roles).keys.length < graphFuel (indexBy Role.id roles) :=
      Nat.lt_succ_self _
    have hempty : Remembered (parentsOf (indexBy Role.id roles)) ∅ := fun _ _ hk => nomatch hk
    rw [checkDepths_eq_none _ hfuel _ _ _
      (fun roleID _ => founded_of_acyclic hnext hacyclic roleID) hempty, edge_eq hnodup]
    simp only [MapRange.mem_order, mem_keys_indexBy hnodup]
    exact ⟨fun h role hrole => h role.id ⟨role, hrole, rfl⟩,
      fun h roleID hid => by obtain ⟨role, hrole, rfl⟩ := hid; exact h role hrole⟩
  rw [validateInheritance_eq_none_iff_loops, checkAllParents_eq_none_iff,
    parents_indexBy_iff hnodup, hcycle]
  constructor
  · rintro ⟨hparents, hacyclic, hdepths⟩
    exact ⟨hparents, hacyclic, (hdepth hacyclic).mp hdepths⟩
  · rintro ⟨hparents, hacyclic, hdepths⟩
    exact ⟨hparents, hacyclic, (hdepth hacyclic).mpr hdepths⟩

end Graph

/-! ### What `New` accepts -/

/-- The inputs `New` accepts. -/
structure Input.Accepted (input : Input) (options : List RbacOption) : Prop where
  roles_le : input.roles.length ≤ (configured options).limits.maxRoles
  permissions_le : input.permissions.length ≤ (configured options).limits.maxPermissions
  assignments_le : input.assignments.length ≤ (configured options).limits.maxAssignments
  roles_named : ∀ role ∈ input.roles, role.id ≠ []
  roles_nodup : (input.roles.map Role.id).Nodup
  graph : GraphOk input.roles (configured options).limits.maxInheritanceDepth
  permissions_nodup : (input.permissions.map Permission.id).Nodup
  permissions_ok : ∀ permission ∈ input.permissions, validPermission permission = true ∧
    ∃ role ∈ input.roles, role.id = permission.roleID ∧ role.tenant = permission.tenant
  assignments_nodup : (input.assignments.map Assignment.id).Nodup
  assignments_ok : ∀ assignment ∈ input.assignments, validAssignment assignment = true ∧
    ∃ role ∈ input.roles, role.id = assignment.roleID ∧ role.tenant = assignment.tenant

theorem exists_role_iff {roles : List Role} (hnodup : (roles.map Role.id).Nodup) (roleID : RoleID)
    (tenant : TenantID) :
    (∃ role, (indexBy Role.id roles).lookup roleID = some role ∧ role.tenant = tenant) ↔
      ∃ role ∈ roles, role.id = roleID ∧ role.tenant = tenant := by
  simp only [lookup_indexBy hnodup, and_assoc]

/-- **What `New` accepts** does not depend on the orders of its ranges. -/
theorem new_eq_ok_iff {ranges : RoleRanges} {input : Input} {options : List RbacOption}
    {evaluator : Evaluator} :
    new ranges input.roles input.permissions input.assignments options = .ok evaluator ↔
      input.Accepted options ∧ evaluator = input.evaluator options := by
  rw [new_eq_ok_iff_checks, checkEach_eq_none_iff checkRole_eq_none_iff,
    checkEach_eq_none_iff (checkPermission_eq_none_iff _),
    checkEach_eq_none_iff (checkAssignment_eq_none_iff _)]
  constructor
  · rintro ⟨hroles, hpermissions, hassignments, ⟨hrnd, -, hnamed⟩, hgraph, ⟨hpnd, -, hp⟩,
      ⟨hand, -, ha⟩, rfl⟩
    exact ⟨⟨not_lt.mp hroles, not_lt.mp hpermissions, not_lt.mp hassignments, hnamed, hrnd,
      (validateInheritance_eq_none_iff hrnd _ _).mp hgraph, hpnd,
      fun permission hm => ⟨(hp permission hm).1, (exists_role_iff hrnd _ _).mp (hp permission hm).2⟩,
      hand,
      fun assignment hm => ⟨(ha assignment hm).1, (exists_role_iff hrnd _ _).mp (ha assignment hm).2⟩⟩,
      rfl⟩
  · rintro ⟨h, rfl⟩
    have hrnd := h.roles_nodup
    exact ⟨not_lt.mpr h.roles_le, not_lt.mpr h.permissions_le, not_lt.mpr h.assignments_le,
      ⟨hrnd, fun _ _ => List.not_mem_nil, h.roles_named⟩,
      (validateInheritance_eq_none_iff hrnd _ _).mpr h.graph,
      ⟨h.permissions_nodup, fun _ _ => List.not_mem_nil, fun permission hm =>
        ⟨(h.permissions_ok permission hm).1,
          (exists_role_iff hrnd _ _).mpr (h.permissions_ok permission hm).2⟩⟩,
      ⟨h.assignments_nodup, fun _ _ => List.not_mem_nil, fun assignment hm =>
        ⟨(h.assignments_ok assignment hm).1,
          (exists_role_iff hrnd _ _).mpr (h.assignments_ok assignment hm).2⟩⟩, rfl⟩

/-- The same items in another order. -/
structure Input.Reordered (a b : Input) : Prop where
  roles : a.roles.Perm b.roles
  permissions : a.permissions.Perm b.permissions
  assignments : a.assignments.Perm b.assignments

theorem ParentEdge.of_perm {roles roles' : List Role} (h : roles.Perm roles') :
    ParentEdge roles = ParentEdge roles' := by
  funext child parent
  exact propext ⟨fun ⟨role, hrole, hrest⟩ => ⟨role, h.mem_iff.mp hrole, hrest⟩,
    fun ⟨role, hrole, hrest⟩ => ⟨role, h.mem_iff.mpr hrole, hrest⟩⟩

theorem GraphOk.of_perm {roles roles' : List Role} {maxInheritanceDepth : Int}
    (h : GraphOk roles maxInheritanceDepth) (hp : roles.Perm roles') :
    GraphOk roles' maxInheritanceDepth where
  parents := by
    intro role hrole parentID hparent
    obtain ⟨parent, hmem, hrest⟩ := h.parents role (hp.mem_iff.mpr hrole) parentID hparent
    exact ⟨parent, hp.mem_iff.mp hmem, hrest⟩
  acyclic := by
    rw [← ParentEdge.of_perm hp]
    exact h.acyclic
  depth := by
    rw [← ParentEdge.of_perm hp]
    exact fun role hrole => h.depth role (hp.mem_iff.mpr hrole)

/-- **The order of the input does not matter either.** -/
theorem Input.Accepted.of_reordered {a b : Input} {options : List RbacOption}
    (h : a.Accepted options) (hp : a.Reordered b) : b.Accepted options where
  roles_le := hp.roles.length_eq ▸ h.roles_le
  permissions_le := hp.permissions.length_eq ▸ h.permissions_le
  assignments_le := hp.assignments.length_eq ▸ h.assignments_le
  roles_named role hrole := h.roles_named role (hp.roles.mem_iff.mpr hrole)
  roles_nodup := (hp.roles.map _).nodup_iff.mp h.roles_nodup
  graph := h.graph.of_perm hp.roles
  permissions_nodup := (hp.permissions.map _).nodup_iff.mp h.permissions_nodup
  permissions_ok := by
    intro permission hmem
    obtain ⟨hvalid, role, hrole, hrest⟩ := h.permissions_ok permission (hp.permissions.mem_iff.mpr hmem)
    exact ⟨hvalid, role, hp.roles.mem_iff.mp hrole, hrest⟩
  assignments_nodup := (hp.assignments.map _).nodup_iff.mp h.assignments_nodup
  assignments_ok := by
    intro assignment hmem
    obtain ⟨hvalid, role, hrole, hrest⟩ := h.assignments_ok assignment (hp.assignments.mem_iff.mpr hmem)
    exact ⟨hvalid, role, hp.roles.mem_iff.mp hrole, hrest⟩

/-- `New` returns an evaluator. -/
def Input.IsAccepted (input : Input) (ranges : RoleRanges) (options : List RbacOption) : Prop :=
  ∃ evaluator, new ranges input.roles input.permissions input.assignments options = .ok evaluator

theorem Input.isAccepted_iff {input : Input} {ranges : RoleRanges} {options : List RbacOption} :
    input.IsAccepted ranges options ↔ input.Accepted options := by
  constructor
  · rintro ⟨evaluator, h⟩
    exact (new_eq_ok_iff.mp h).1
  · intro h
    exact ⟨_, new_eq_ok_iff.mpr ⟨h, rfl⟩⟩

/-- In a well-formed graph inheritance stays within the roles, a tenant and the
depth. -/
theorem GraphOk.reached {roles : List Role} (hnodup : (roles.map Role.id).Nodup)
    {maxInheritanceDepth : Int} (h : GraphOk roles maxInheritanceDepth) {role : Role} (hrole : role ∈ roles) {roleID : RoleID}
    (hreach : Relation.ReflTransGen (ParentEdge roles) role.id roleID) :
    (∃ reached ∈ roles, reached.id = roleID ∧ reached.tenant = role.tenant) ∧
      ∃ n : Nat, n ≤ maxInheritanceDepth ∧ Steps (ParentEdge roles) n role.id roleID := by
  constructor
  · induction hreach with
    | refl => exact ⟨role, hrole, rfl, rfl⟩
    | tail _ hstep ih =>
      obtain ⟨reached, hreached, hid, htenant⟩ := ih
      obtain ⟨child, hchild, hid', hparent⟩ := hstep
      have hsame : child = reached :=
        List.inj_on_of_nodup_map hnodup hchild hreached (hid'.trans hid.symm)
      subst hsame
      obtain ⟨parent, hmem, hpid, hptenant⟩ := h.parents child hchild _ hparent
      exact ⟨parent, hmem, hpid, hptenant.trans htenant⟩
  · obtain ⟨n, hn⟩ := Steps.of_reflTransGen hreach
    exact ⟨n, h.depth role hrole n roleID hn, hn⟩

/-- **The inheritance check** on a list of roles. -/
structure InheritanceLaw (roles : List Role) (maxInheritanceDepth : Int) : Prop where
  accepts : ∀ ranges, validateInheritance (indexBy Role.id roles) maxInheritanceDepth ranges = none ↔
    GraphOk roles maxInheritanceDepth
  /-- The visits end on every graph. -/
  visits : ∀ order : MapRange RoleID, ∃ result,
    Colours (parentsOf (indexBy Role.id roles)) (order.order (indexBy Role.id roles).keys) ∅ result ∧
    (order.order (indexBy Role.id roles).keys).foldlM (fun states roleID => visit
        (indexBy Role.id roles) (graphFuel (indexBy Role.id roles)) roleID states) ∅
      = result.elim (.error (.sentinel .rbacErrRoleCycle)) .ok
  /-- Without a cycle every depth is computed, and it is the longest chain's. -/
  depths : (∀ roleID, ¬ Relation.TransGen (ParentEdge roles) roleID roleID) →
    ∀ roleID depths, Remembered (parentsOf (indexBy Role.id roles)) depths →
      HeightSpec (parentsOf (indexBy Role.id roles)) roleID depths
        (depth (indexBy Role.id roles) (graphFuel (indexBy Role.id roles)) roleID depths)
  reached : GraphOk roles maxInheritanceDepth → ∀ role ∈ roles, ∀ roleID,
    Relation.ReflTransGen (ParentEdge roles) role.id roleID →
    (∃ reached ∈ roles, reached.id = roleID ∧ reached.tenant = role.tenant) ∧
      ∃ n : Nat, n ≤ maxInheritanceDepth ∧ Steps (ParentEdge roles) n role.id roleID

/-- **`New` accepts exactly the well-formed role graphs**, in whatever order it gets
and ranges over them. -/
theorem inheritance_checked {roles : List Role} (hnodup : (roles.map Role.id).Nodup)
    (maxInheritanceDepth : Int) : InheritanceLaw roles maxInheritanceDepth ∧
    ∀ (options : List RbacOption) (ranges ranges' : RoleRanges) (input input' : Input),
      input.Reordered input' →
      (input.IsAccepted ranges options ↔ input'.IsAccepted ranges' options) := by
  have hnext : ∀ k, k ∉ (indexBy Role.id roles).keys →
      parentsOf (indexBy Role.id roles) k = [] := parentsOf_eq_nil
  have hfuel : (indexBy Role.id roles).keys.length < graphFuel (indexBy Role.id roles) :=
    Nat.lt_succ_self _
  refine ⟨⟨fun ranges => validateInheritance_eq_none_iff hnodup _ ranges, ?_, ?_,
    fun h role hrole roleID => h.reached hnodup hrole⟩, ?_⟩
  · intro order
    refine ⟨_, (colourAll_spec hnext hfuel (order.order (indexBy Role.id roles).keys)).1, ?_⟩
    simp only [visit_eq, foldlM_elim]
  · intro hacyclic roleID depths hremembered
    rw [← edge_eq hnodup] at hacyclic
    rw [depth_eq]
    exact longest_spec hnext _ roleID [] depths (founded_of_acyclic hnext hacyclic roleID)
      (fun _ hg => absurd hg List.not_mem_nil)
      (Nat.lt_of_le_of_lt (List.length_filter_le _ _) hfuel) hremembered
  · intro options ranges ranges' input input' hp
    rw [Input.isAccepted_iff, Input.isAccepted_iff]
    exact ⟨fun h => h.of_reordered hp, fun h => h.of_reordered
      ⟨hp.roles.symm, hp.permissions.symm, hp.assignments.symm⟩⟩

/-- A role with two parents that share theirs. -/
def diamondRoles : List Role :=
  [{ id := str "a", parents := [str "b", str "c"] }, { id := str "b", parents := [str "d"] },
    { id := str "c", parents := [str "d"] }, { id := str "d" }]

theorem inheritance_checked_diamond :
    validateInheritance (indexBy Role.id diamondRoles) 2 {} = none ∧ GraphOk diamondRoles 2 ∧
    validateInheritance (indexBy Role.id diamondRoles) 1 {} ≠ none ∧ ¬ GraphOk diamondRoles 1 := by
  have hnodup : (diamondRoles.map Role.id).Nodup := by decide
  have haccepted : validateInheritance (indexBy Role.id diamondRoles) 2 {} = none := by decide
  have hrefused : validateInheritance (indexBy Role.id diamondRoles) 1 {} ≠ none := by decide
  exact ⟨haccepted, ((inheritance_checked hnodup 2).1.accepts {}).mp haccepted, hrefused,
    fun h => hrefused (((inheritance_checked hnodup 1).1.accepts {}).mpr h)⟩

end Authorization.Rbac
