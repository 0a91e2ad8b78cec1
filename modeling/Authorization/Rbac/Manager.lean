import Authorization.Foundation.Transition
import Authorization.Rbac.Effective

/-!
# Administering assignments

`rbac/manager.go`.  `Assign` runs the whole of `New` on a copy with the assignment
appended; `RevokeAssignment` cuts one assignment out and checks nothing.  The mutex
makes every call one step.

The mutations that took effect are kept as history.  `manager_invariant` collects
what holds after any sequence of calls: what is stored is accepted by `New`, and it
is the initial assignments and the assigned ones without those revoked since.
-/

namespace Authorization.Rbac

open Authorization.Foundation Authorization.Core

structure Manager where
  roles : List Role
  permissions : List Permission
  assignments : List Assignment
  options : List RbacOption
  revision : Revision

/-- `NewManager`. -/
def newManager (ranges : RoleRanges) (roles : List Role) (permissions : List Permission)
    (assignments : List Assignment) (options : List RbacOption) : Except GoError Manager :=
  match new ranges roles permissions assignments options with
  | .error err => .error err
  | .ok _ => .ok ⟨roles, permissions, assignments, options, 1⟩

/-- The loop of `RevokeAssignment`: the assignments without the first one of that
identifier. -/
def withoutAssignment (id : PolicyID) : List Assignment → Option (List Assignment)
  | [] => none
  | assignment :: rest =>
    if assignment.id ≠ id then (withoutAssignment id rest).map (assignment :: ·) else some rest

namespace Manager

/-- `Assign`. -/
def assign (manager : Manager) (ranges : RoleRanges) (assignment : Assignment) :
    Option GoError × Manager :=
  let candidate := manager.assignments ++ [assignment]
  match new ranges manager.roles manager.permissions candidate manager.options with
  | .error err => (some err, manager)
  | .ok _ => (none, { manager with assignments := candidate, revision := manager.revision + 1 })

/-- `RevokeAssignment`. -/
def revokeAssignment (manager : Manager) (id : PolicyID) : Bool × Manager :=
  match withoutAssignment id manager.assignments with
  | none => (false, manager)
  | some assignments =>
    (true, { manager with assignments := assignments, revision := manager.revision + 1 })

/-- `Evaluator`. -/
def evaluator (manager : Manager) (ranges : RoleRanges) : Except GoError Evaluator :=
  new ranges manager.roles manager.permissions manager.assignments manager.options

def input (manager : Manager) : Input :=
  ⟨manager.roles, manager.permissions, manager.assignments⟩

end Manager

/-! ### Runs -/

inductive Mutation
  | assign (assignment : Assignment)
  | revoke (id : PolicyID)
deriving DecidableEq

structure ManagerState where
  manager : Manager
  /-- The mutations that took effect, oldest first. -/
  log : List Mutation

inductive ManagerCall
  | assign (ranges : RoleRanges) (assignment : Assignment)
  | revokeAssignment (id : PolicyID)

def ManagerState.after (s : ManagerState) : ManagerCall → ManagerState
  | .assign ranges assignment =>
    match s.manager.assign ranges assignment with
    | (some _, manager) => { s with manager := manager }
    | (none, manager) => ⟨manager, s.log ++ [.assign assignment]⟩
  | .revokeAssignment id =>
    match s.manager.revokeAssignment id with
    | (false, manager) => { s with manager := manager }
    | (true, manager) => ⟨manager, s.log ++ [.revoke id]⟩

/-- Any calls on a manager that was accepted. -/
def managerSystem (initial : Input) (options : List RbacOption) :
    System ManagerState ManagerCall where
  init s := ∃ ranges, newManager ranges initial.roles initial.permissions initial.assignments
    options = .ok s.manager ∧ s.log = []
  step s call := some (s.after call)

/-! ### What is left of the assignments -/

/-- The assigned ones that were not revoked since. -/
def additions : List Mutation → List Assignment
  | [] => []
  | .assign assignment :: later =>
    if .revoke assignment.id ∈ later then additions later else assignment :: additions later
  | .revoke _ :: later => additions later

/-- The initial assignments and the assigned ones, without those revoked since. -/
def standing (initial : List Assignment) (log : List Mutation) : List Assignment :=
  (initial.filter fun assignment => .revoke assignment.id ∉ log) ++ additions log

theorem additions_assign (assignment : Assignment) : ∀ log : List Mutation,
    additions (log ++ [.assign assignment]) = additions log ++ [assignment] := by
  intro log
  induction log with
  | nil => rfl
  | cons mutation later ih =>
    cases mutation with
    | revoke id => exact ih
    | assign other =>
      rw [List.cons_append, additions, additions, ih]
      by_cases hrevoked : Mutation.revoke other.id ∈ later
      · rw [if_pos hrevoked, if_pos (List.mem_append_left _ hrevoked)]
      · rw [if_neg hrevoked, if_neg (by simp [hrevoked]), List.cons_append]

theorem additions_revoke (id : PolicyID) : ∀ log : List Mutation,
    additions (log ++ [.revoke id]) = (additions log).filter fun assignment => assignment.id ≠ id := by
  intro log
  induction log with
  | nil => rfl
  | cons mutation later ih =>
    cases mutation with
    | revoke other => exact ih
    | assign other =>
      rw [List.cons_append, additions, additions, ih]
      by_cases hrevoked : Mutation.revoke other.id ∈ later
      · rw [if_pos hrevoked, if_pos (List.mem_append_left _ hrevoked)]
      · rw [if_neg hrevoked]
        by_cases hid : other.id = id
        · rw [if_pos (by simp [hid]), List.filter_cons_of_neg (by simpa using hid)]
        · rw [if_neg (by simp [hrevoked, hid]), List.filter_cons_of_pos (by simpa using hid)]

theorem standing_assign (initial : List Assignment) (log : List Mutation) (assignment : Assignment) :
    standing initial (log ++ [.assign assignment]) = standing initial log ++ [assignment] := by
  rw [standing, additions_assign, standing, List.append_assoc]
  congr 2
  funext other
  simp

theorem standing_revoke (initial : List Assignment) (log : List Mutation) (id : PolicyID) :
    standing initial (log ++ [.revoke id])
      = (standing initial log).filter fun assignment => assignment.id ≠ id := by
  rw [standing, additions_revoke, standing, List.filter_append, List.filter_filter]
  congr 2
  funext other
  by_cases hid : other.id = id
  · simp [hid]
  · simp [hid]

/-! ### Revoking -/

theorem withoutAssignment_eq_none {id : PolicyID} : ∀ {assignments : List Assignment},
    withoutAssignment id assignments = none ↔ id ∉ assignments.map Assignment.id := by
  intro assignments
  induction assignments with
  | nil => simp [withoutAssignment]
  | cons assignment rest ih =>
    rw [withoutAssignment]
    by_cases hid : assignment.id = id
    · simp [hid]
    · simp [hid, ih, Ne.symm hid]

/-- One assignment is cut out and the others keep their order. -/
theorem withoutAssignment_eq_some {id : PolicyID} : ∀ {assignments result : List Assignment},
    withoutAssignment id assignments = some result →
    ∃ before revoked after, assignments = before ++ revoked :: after ∧ revoked.id = id ∧
      result = before ++ after := by
  intro assignments
  induction assignments with
  | nil => intro result h; cases h
  | cons assignment rest ih =>
    intro result h
    rw [withoutAssignment] at h
    split at h
    · obtain ⟨tail, htail, rfl⟩ := Option.map_eq_some_iff.mp h
      obtain ⟨before, revoked, after, rfl, hid, rfl⟩ := ih htail
      exact ⟨assignment :: before, revoked, after, rfl, hid, rfl⟩
    · rename_i hid
      cases h
      exact ⟨[], assignment, rest, rfl, not_not.mp hid, rfl⟩

/-- With distinct identifiers that is all there is to cut out. -/
theorem filter_of_split {id : PolicyID} {before after : List Assignment} {revoked : Assignment}
    (hnodup : ((before ++ revoked :: after).map Assignment.id).Nodup) (hid : revoked.id = id) :
    (before ++ revoked :: after).filter (fun assignment => assignment.id ≠ id) = before ++ after := by
  subst hid
  have hother : ∀ assignment ∈ before ++ after, assignment.id ≠ revoked.id := by
    intro assignment hmem heq
    have hperm : ((before ++ revoked :: after).map Assignment.id).Perm
        (revoked.id :: (before ++ after).map Assignment.id) := by
      rw [← List.map_cons]
      exact List.perm_middle.map _
    have hnew := (List.nodup_cons.mp (hperm.nodup_iff.mp hnodup)).1
    exact hnew (List.mem_map.mpr ⟨assignment, hmem, heq⟩)
  rw [List.filter_append, List.filter_cons_of_neg (by simp), ← List.filter_append]
  exact List.filter_eq_self.mpr fun assignment hmem => by simpa using hother assignment hmem

/-- `New` accepts fewer assignments as well. -/
theorem Input.Accepted.sublist {input : Input} {options : List RbacOption}
    (h : input.Accepted options) {assignments : List Assignment}
    (hsub : assignments.Sublist input.assignments) :
    ({ input with assignments := assignments } : Input).Accepted options :=
  { h with
    assignments_le := by
      have hlength := hsub.length_le
      have hle := h.assignments_le
      show (assignments.length : Int) ≤ _
      omega
    assignments_nodup := h.assignments_nodup.sublist (hsub.map _)
    assignments_ok := fun assignment hmem => h.assignments_ok assignment (hsub.subset hmem) }

/-! ### Every run -/

/-- What holds in every reachable state. -/
structure ManagerInv (initial : Input) (options : List RbacOption) (s : ManagerState) : Prop where
  roles_eq : s.manager.roles = initial.roles
  permissions_eq : s.manager.permissions = initial.permissions
  options_eq : s.manager.options = options
  accepted : s.manager.input.Accepted options
  assignments_eq : s.manager.assignments = standing initial.assignments s.log
  revision_eq : s.manager.revision = 1 + UInt64.ofNat s.log.length

section Inv

variable {initial : Input} {options : List RbacOption} {s : ManagerState}

theorem manager_inv_init (h : (managerSystem initial options).init s) :
    ManagerInv initial options s := by
  obtain ⟨ranges, hnew, hlog⟩ := h
  rw [newManager] at hnew
  split at hnew
  · cases hnew
  · rename_i evaluator haccepted
    obtain ⟨manager, log⟩ := s
    cases hnew
    cases hlog
    refine ⟨rfl, rfl, rfl, (new_eq_ok_iff.mp haccepted).1, ?_, rfl⟩
    simp [standing, additions]

theorem assign_eq_error {manager manager' : Manager} {ranges : RoleRanges} {assignment : Assignment}
    {err : GoError} (h : manager.assign ranges assignment = (some err, manager')) :
    manager' = manager := by
  rw [Manager.assign] at h
  split at h
  · cases h
    rfl
  · cases h

theorem assign_eq_ok {manager manager' : Manager} {ranges : RoleRanges} {assignment : Assignment}
    (h : manager.assign ranges assignment = (none, manager')) :
    manager' = { manager with
      assignments := manager.assignments ++ [assignment], revision := manager.revision + 1 } ∧
    manager'.input.Accepted manager.options := by
  rw [Manager.assign] at h
  split at h
  · cases h
  · rename_i evaluator hnew
    cases h
    have haccepted : Input.IsAccepted
        ⟨manager.roles, manager.permissions, manager.assignments ++ [assignment]⟩ ranges
        manager.options := ⟨evaluator, hnew⟩
    exact ⟨rfl, Input.isAccepted_iff.mp haccepted⟩

theorem revokeAssignment_eq_false {manager manager' : Manager} {id : PolicyID}
    (h : manager.revokeAssignment id = (false, manager')) :
    manager' = manager ∧ id ∉ manager.assignments.map Assignment.id := by
  rw [Manager.revokeAssignment] at h
  split at h
  · rename_i hnone
    cases h
    exact ⟨rfl, withoutAssignment_eq_none.mp hnone⟩
  · cases h

theorem revokeAssignment_eq_true {manager manager' : Manager} {id : PolicyID}
    (h : manager.revokeAssignment id = (true, manager')) :
    ∃ before revoked after, manager.assignments = before ++ revoked :: after ∧ revoked.id = id ∧
      manager' = { manager with assignments := before ++ after, revision := manager.revision + 1 } := by
  rw [Manager.revokeAssignment] at h
  split at h
  · cases h
  · rename_i assignments hsome
    cases h
    obtain ⟨before, revoked, after, hsplit, hid, rfl⟩ := withoutAssignment_eq_some hsome
    exact ⟨before, revoked, after, hsplit, hid, rfl⟩

theorem revision_succ (log : List Mutation) (mutation : Mutation) :
    (1 + UInt64.ofNat log.length : UInt64) + 1 = 1 + UInt64.ofNat (log ++ [mutation]).length := by
  rw [List.length_append, List.length_singleton, UInt64.ofNat_add, UInt64.add_assoc]
  rfl

theorem ManagerInv.assign (h : ManagerInv initial options s) (ranges : RoleRanges)
    (assignment : Assignment) : ManagerInv initial options (s.after (.assign ranges assignment)) := by
  rw [ManagerState.after]
  split
  · rename_i err manager herr
    rw [assign_eq_error herr]
    exact h
  · rename_i manager hok
    obtain ⟨rfl, haccepted⟩ := assign_eq_ok hok
    refine ⟨h.roles_eq, h.permissions_eq, h.options_eq, h.options_eq ▸ haccepted, ?_, ?_⟩
    · show s.manager.assignments ++ [assignment] = _
      rw [h.assignments_eq, standing_assign]
    · show s.manager.revision + 1 = _
      rw [h.revision_eq, revision_succ]

theorem ManagerInv.revoke (h : ManagerInv initial options s) (id : PolicyID) :
    ManagerInv initial options (s.after (.revokeAssignment id)) := by
  rw [ManagerState.after]
  split
  · rename_i manager hfalse
    rw [(revokeAssignment_eq_false hfalse).1]
    exact h
  · rename_i manager htrue
    obtain ⟨before, revoked, after, hsplit, hid, rfl⟩ := revokeAssignment_eq_true htrue
    have hnodup : (s.manager.assignments.map Assignment.id).Nodup := h.accepted.assignments_nodup
    have hsub : (before ++ after).Sublist s.manager.assignments := by
      rw [hsplit]
      exact (List.sublist_cons_self revoked after).append_left before
    refine ⟨h.roles_eq, h.permissions_eq, h.options_eq, h.accepted.sublist hsub, ?_, ?_⟩
    · show before ++ after = _
      rw [standing_revoke, ← h.assignments_eq, hsplit, filter_of_split (hsplit ▸ hnodup) hid]
    · show s.manager.revision + 1 = _
      rw [h.revision_eq, revision_succ]

theorem manager_inv (h : (managerSystem initial options).Reachable s) :
    ManagerInv initial options s := by
  refine System.Reachable.invariant (fun s => manager_inv_init) ?_ h
  intro s call s' _ hinv hstep
  cases hstep
  cases call with
  | assign ranges assignment => exact hinv.assign ranges assignment
  | revokeAssignment id => exact hinv.revoke id

end Inv

/-- **The manager's law** in one state. -/
structure ManagerLaw (initial : Input) (options : List RbacOption) (s : ManagerState) : Prop where
  evaluates : ∀ ranges, ∃ evaluator, s.manager.evaluator ranges = .ok evaluator
  nodup : (s.manager.assignments.map Assignment.id).Nodup
  assign_rejected : ∀ ranges assignment err manager,
    s.manager.assign ranges assignment = (some err, manager) → manager = s.manager
  assign_accepted : ∀ ranges assignment manager,
    s.manager.assign ranges assignment = (none, manager) →
    manager.assignments = s.manager.assignments ++ [assignment] ∧
      manager.revision = s.manager.revision + 1
  revoke_rejected : ∀ id manager, s.manager.revokeAssignment id = (false, manager) →
    manager = s.manager ∧ id ∉ s.manager.assignments.map Assignment.id
  /-- The revoked assignment is the only one of its identifier. -/
  revoke_accepted : ∀ id manager, s.manager.revokeAssignment id = (true, manager) →
    ∃ before revoked after, s.manager.assignments = before ++ revoked :: after ∧
      revoked.id = id ∧ (∀ assignment ∈ before ++ after, assignment.id ≠ id) ∧
      manager.assignments = before ++ after ∧ manager.revision = s.manager.revision + 1
  revision : s.manager.revision = 1 + UInt64.ofNat s.log.length
  assignments : s.manager.assignments = standing initial.assignments s.log
  /-- The manager's evaluator and one made from what is left, in any order, return
  the same. -/
  effective : ∀ (ranges ranges' : RoleRanges) (assignments : List Assignment),
    assignments.Perm (standing initial.assignments s.log) →
    ∃ evaluator evaluator', s.manager.evaluator ranges = .ok evaluator ∧
      new ranges' initial.roles initial.permissions assignments options = .ok evaluator' ∧
      ∀ {W : Type} (ctx : Context W) (order order' : MapRange RoleID) (subject : Subject)
        (tenant : TenantID) (w : W),
        evaluator.effectivePermissions order ctx subject tenant w
          = evaluator'.effectivePermissions order' ctx subject tenant w

theorem SameSubject.refl (subject : Subject) : SameSubject subject subject :=
  ⟨rfl, rfl, .refl _⟩

theorem Input.Accepted.wellFormed {input : Input} {options : List RbacOption}
    (h : input.Accepted options) : input.WellFormed := by
  have hnew : new {} input.roles input.permissions input.assignments options
      = .ok (input.evaluator options) := new_eq_ok_iff.mpr ⟨h, rfl⟩
  exact (new_eq_ok hnew).1

theorem effectivePermissions_reordered {W : Type} {a b : Input} {options : List RbacOption}
    (ha : a.WellFormed) (hb : b.WellFormed) (hp : a.Reordered b) (ctx : Context W)
    (order order' : MapRange RoleID) (subject : Subject) (tenant : TenantID) (w : W) :
    (a.evaluator options).effectivePermissions order ctx subject tenant w
      = (b.evaluator options).effectivePermissions order' ctx subject tenant w := by
  rw [effectivePermissions_eq ha, effectivePermissions_eq hb,
    granted_sorted_eq ha hb hp (SameSubject.refl subject)]
  rfl

/-- **Every run of a manager** keeps what it stores acceptable, and its evaluators
are those of what is left of the assignments. -/
theorem manager_invariant {initial : Input} {options : List RbacOption} {s : ManagerState}
    (h : (managerSystem initial options).Reachable s) : ManagerLaw initial options s := by
  have hinv := manager_inv h
  have hnodup : (s.manager.assignments.map Assignment.id).Nodup := hinv.accepted.assignments_nodup
  have hevaluator : ∀ ranges, s.manager.evaluator ranges = .ok (s.manager.input.evaluator options) := by
    intro ranges
    rw [Manager.evaluator, hinv.options_eq]
    exact new_eq_ok_iff.mpr ⟨hinv.accepted, rfl⟩
  refine ⟨fun ranges => ⟨_, hevaluator ranges⟩, hnodup, fun _ _ _ _ => assign_eq_error, ?_,
    fun _ _ => revokeAssignment_eq_false, ?_, hinv.revision_eq, hinv.assignments_eq, ?_⟩
  · intro ranges assignment manager hassign
    obtain ⟨rfl, -⟩ := assign_eq_ok hassign
    exact ⟨rfl, rfl⟩
  · intro id manager hrevoke
    obtain ⟨before, revoked, after, hsplit, hid, rfl⟩ := revokeAssignment_eq_true hrevoke
    have hfilter := filter_of_split (hsplit ▸ hnodup) hid
    refine ⟨before, revoked, after, hsplit, hid, ?_, rfl, rfl⟩
    intro assignment hmem
    rw [← hfilter] at hmem
    simpa using (List.mem_filter.mp hmem).2
  · intro ranges ranges' assignments hperm
    have hreordered : s.manager.input.Reordered
        ⟨initial.roles, initial.permissions, assignments⟩ := by
      refine ⟨?_, ?_, ?_⟩
      · exact hinv.roles_eq ▸ .refl _
      · exact hinv.permissions_eq ▸ .refl _
      · rw [← hinv.assignments_eq] at hperm
        exact hperm.symm
    have haccepted := hinv.accepted.of_reordered hreordered
    refine ⟨_, _, hevaluator ranges, new_eq_ok_iff.mpr ⟨haccepted, rfl⟩, ?_⟩
    intro W ctx order order' subject tenant w
    exact effectivePermissions_reordered hinv.accepted.wellFormed haccepted.wellFormed hreordered
      ctx order order' subject tenant w

/-- An identifier that is revoked can be assigned again; while it stands it cannot. -/
theorem manager_invariant_reassigned : ∃ s : ManagerState,
    (s.manager.assignments.map fun assignment => (assignment.id, assignment.roleID))
      = [(str "t", str "b"), (str "s", str "c")] ∧
    s.manager.revision = 4 ∧ ManagerLaw diamondInput [] s := by
  let user : Subject := ⟨str "user", str "u", [], ∅⟩
  have hstart : (managerSystem diamondInput []).Reachable
      ⟨⟨diamondInput.roles, diamondInput.permissions, diamondInput.assignments, [], 1⟩, []⟩ :=
    .init ⟨{}, rfl, rfl⟩
  obtain ⟨s, hs, hcheck⟩ := hstart.exists_of_run
    [.assign {} { id := str "t", subject := user, roleID := str "b" },
      .assign {} { id := str "s", subject := user, roleID := str "c" },
      .revokeAssignment (str "s"),
      .assign {} { id := str "s", subject := user, roleID := str "c" }]
    (p := fun s => decide ((s.manager.assignments.map fun assignment =>
        (assignment.id, assignment.roleID)) = [(str "t", str "b"), (str "s", str "c")]
      ∧ s.manager.revision = 4)) (by decide +kernel)
  obtain ⟨hassignments, hrevision⟩ := of_decide_eq_true hcheck
  exact ⟨s, hassignments, hrevision, manager_invariant hs⟩

end Authorization.Rbac
