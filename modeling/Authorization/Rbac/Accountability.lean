import Authorization.Rbac.Manager
import Authorization.Stricter

/-!
# Who changed an answer

Between two states of a manager the answers to a request may change.  Each change goes
back to an entry of the history between them that bears on this request: an assignment
made since that still stands, or one that stood and was revoked.  It names the subject
or a group of it, in a tenant the request sees, and its role inherits a permission that
matches.

* Access is gained by an assignment that conveys an allowance, or by revoking one that
  conveys a denial.
* Access is lost the other way round.
-/

namespace Authorization.Rbac

open Authorization.Foundation Authorization.Core

/-! ### What an assignment does to a request -/

/-- The assignment gives the subject of the request a permission of this effect that
matches it. -/
def Input.Bears (input : Input) (options : List RbacOption) (request : Request)
    (assignment : Assignment) (effect : Outcome) : Prop :=
  assignment.Names request.subject ∧
  (assignment.tenant = request.tenant ∨
    ((configured options).inheritGlobal = true ∧ assignment.tenant = [])) ∧
  ∃ permission, input.Conveys assignment permission ∧ permission.MatchesRequest request ∧
    permission.effect = effect

section Bears

variable {input input' : Input} {options : List RbacOption} {request : Request}

theorem mem_matched_iff {id : PolicyID} {effect : Outcome} :
    (id, effect) ∈ (law input options).matched request ↔
      ∃ permission, input.Grants (configured options).inheritGlobal request.subject request.tenant
        permission ∧ permission.MatchesRequest request ∧ permission.id = id ∧
        permission.effect = effect := by
  constructor
  · rintro ⟨permission, hgrants, hmatches, heq⟩
    cases heq
    exact ⟨permission, hgrants, hmatches, rfl, rfl⟩
  · rintro ⟨permission, hgrants, hmatches, rfl, rfl⟩
    exact ⟨permission, hgrants, hmatches, rfl⟩

/-- Something of this effect matches because of an assignment. -/
theorem exists_matched_iff {effect : Outcome} :
    (∃ id, (id, effect) ∈ (law input options).matched request) ↔
      ∃ assignment ∈ input.assignments, input.Bears options request assignment effect := by
  constructor
  · rintro ⟨id, hitem⟩
    obtain ⟨permission, ⟨hpermission, assignment, hassignment, hnames, htenant, hreach⟩, hmatches, -,
      heffect⟩ := mem_matched_iff.mp hitem
    exact ⟨assignment, hassignment, hnames, htenant, permission, ⟨hpermission, hreach⟩, hmatches,
      heffect⟩
  · rintro ⟨assignment, hassignment, hnames, htenant, permission, ⟨hpermission, hreach⟩, hmatches,
      heffect⟩
    exact ⟨permission.id, mem_matched_iff.mpr ⟨permission,
      ⟨hpermission, assignment, hassignment, hnames, htenant, hreach⟩, hmatches, rfl, heffect⟩⟩

theorem Input.Accepted.effect_cases (h : input.Accepted options) {permission : Permission}
    (hpermission : permission ∈ input.permissions) :
    permission.effect = .allow ∨ permission.effect = .deny := by
  have hvalid := (h.permissions_ok permission hpermission).1
  unfold validPermission at hvalid
  split at hvalid
  · cases hvalid
  · simpa using hvalid

/-- **The ruling in terms of assignments.** -/
theorem ruling_eq_allow_iff (haccepted : input.Accepted options) :
    (law input options).ruling request = .allow ↔
      (∃ assignment ∈ input.assignments, input.Bears options request assignment .allow) ∧
      ¬ ∃ assignment ∈ input.assignments, input.Bears options request assignment .deny := by
  rw [Law.ruling_eq_allow, ← exists_matched_iff, ← exists_matched_iff]
  constructor
  · rintro ⟨⟨⟨id, effect⟩, hitem⟩, hnone⟩
    obtain ⟨permission, hgrants, -, -, rfl⟩ := mem_matched_iff.mp hitem
    have hallow := (haccepted.effect_cases hgrants.1).resolve_right (hnone _ hitem)
    exact ⟨⟨id, hallow ▸ hitem⟩, fun ⟨id', hdeny⟩ => hnone _ hdeny rfl⟩
  · rintro ⟨⟨id, hitem⟩, hnone⟩
    refine ⟨⟨_, hitem⟩, ?_⟩
    rintro ⟨id', effect⟩ hitem' rfl
    exact hnone ⟨id', hitem'⟩

/-- **A new allowance comes from an assignment that is new or gone.** -/
theorem exists_of_ruling (haccepted' : input'.Accepted options) (haccepted : input.Accepted options)
    (hroles : input'.roles = input.roles) (hpermissions : input'.permissions = input.permissions)
    (hallow : (law input' options).ruling request = .allow)
    (hother : (law input options).ruling request ≠ .allow) :
    (∃ assignment ∈ input'.assignments, assignment ∉ input.assignments ∧
      input'.Bears options request assignment .allow) ∨
    ∃ assignment ∈ input.assignments, assignment ∉ input'.assignments ∧
      input.Bears options request assignment .deny := by
  have hsame : ∀ assignment effect, input'.Bears options request assignment effect ↔
      input.Bears options request assignment effect := by
    intro assignment effect
    unfold Input.Bears Input.Conveys
    rw [hroles, hpermissions]
  obtain ⟨⟨gained, hgained, hgainedAllow⟩, hnone⟩ := (ruling_eq_allow_iff haccepted').mp hallow
  rw [ne_eq, ruling_eq_allow_iff haccepted, not_and_not_right] at hother
  by_cases hstood : gained ∈ input.assignments
  · -- what allows was there before, so a denial stood against it
    obtain ⟨denying, hdenying, hdeny⟩ := hother ⟨gained, hstood, (hsame _ _).mp hgainedAllow⟩
    refine Or.inr ⟨denying, hdenying, fun hkept => ?_, hdeny⟩
    exact hnone ⟨denying, hkept, (hsame _ _).mpr hdeny⟩
  · exact Or.inl ⟨gained, hgained, hstood, hgainedAllow⟩

end Bears

/-! ### Histories -/

@[simp] theorem standing_nil (initial : List Assignment) : standing initial [] = initial := by
  simp [standing, additions]

/-- A history goes on from what is left after its first part. -/
theorem standing_append (initial : List Assignment) (log : List Mutation) :
    ∀ since : List Mutation, standing initial (log ++ since) = standing (standing initial log) since := by
  intro since
  induction since using List.reverseRecOn with
  | nil => rw [List.append_nil, standing_nil]
  | append_singleton since mutation ih =>
    cases mutation with
    | assign assignment =>
      rw [← List.append_assoc, standing_assign, standing_assign, ih]
    | revoke id =>
      rw [← List.append_assoc, standing_revoke, standing_revoke, ih]

theorem assigned_of_mem_additions {assignment : Assignment} : ∀ {log : List Mutation},
    assignment ∈ additions log → .assign assignment ∈ log := by
  intro log
  induction log with
  | nil => intro h; cases h
  | cons mutation later ih =>
    intro h
    cases mutation with
    | revoke id => exact List.mem_cons_of_mem _ (ih h)
    | assign other =>
      rw [additions] at h
      split at h
      · exact List.mem_cons_of_mem _ (ih h)
      · rcases List.mem_cons.mp h with rfl | h
        · exact List.mem_cons_self
        · exact List.mem_cons_of_mem _ (ih h)

/-- What stands and did not before was assigned. -/
theorem assigned_of_mem_standing {initial : List Assignment} {since : List Mutation}
    {assignment : Assignment} (hnew : assignment ∈ standing initial since)
    (hold : assignment ∉ initial) : .assign assignment ∈ since := by
  rcases List.mem_append.mp hnew with hkept | hadded
  · exact absurd (List.mem_filter.mp hkept).1 hold
  · exact assigned_of_mem_additions hadded

/-- What stood and does not any more was revoked. -/
theorem revoked_of_not_mem_standing {initial : List Assignment} {since : List Mutation}
    {assignment : Assignment} (hold : assignment ∈ initial)
    (hgone : assignment ∉ standing initial since) : .revoke assignment.id ∈ since := by
  by_contra hkept
  refine hgone (List.mem_append_left _ (List.mem_filter.mpr ⟨hold, ?_⟩))
  exact decide_eq_true hkept

theorem log_of_run {initial : Input} {options : List RbacOption} {s s' : ManagerState}
    (hs : (managerSystem initial options).Reachable s) {calls : List ManagerCall}
    (hrun : (managerSystem initial options).run s calls = some s') :
    ∃ since, s'.log = s.log ++ since := by
  refine hs.run_rel (R := fun s s' => ∃ since, s'.log = s.log ++ since) ?_ ?_ ?_ hrun
  · intro s
    exact ⟨[], (List.append_nil _).symm⟩
  · rintro s t u ⟨since, ht⟩ ⟨since', hu⟩
    exact ⟨since ++ since', by rw [hu, ht, List.append_assoc]⟩
  · intro s call s' _ hstep
    cases hstep
    cases call with
    | assign ranges assignment =>
      rw [ManagerState.after]
      split
      · exact ⟨[], (List.append_nil _).symm⟩
      · exact ⟨_, rfl⟩
    | revokeAssignment id =>
      rw [ManagerState.after]
      split
      · exact ⟨[], (List.append_nil _).symm⟩
      · exact ⟨_, rfl⟩

/-! ### Answers -/

/-- An assignment of this effect was made since, and stands. -/
def ManagerState.Assigned (s' : ManagerState) (since : List Mutation) (options : List RbacOption)
    (request : Request) (effect : Outcome) : Prop :=
  ∃ assignment ∈ s'.manager.assignments, .assign assignment ∈ since ∧
    s'.manager.input.Bears options request assignment effect

/-- An assignment of this effect stood, and was revoked since. -/
def ManagerState.Revoked (s : ManagerState) (since : List Mutation) (options : List RbacOption)
    (request : Request) (effect : Outcome) : Prop :=
  ∃ assignment ∈ s.manager.assignments, .revoke assignment.id ∈ since ∧
    s.manager.input.Bears options request assignment effect

/-- **Every change of an answer has an author.**  Whatever calls were made between two
states of a manager: a request that is allowed now and was answered otherwise before is
allowed because of an assignment made since, or because one that denied was revoked;
and a request that is not allowed any more lost an assignment, or got one that
denies. -/
theorem access_accountable {W : Type} {ctx : Context W} (hctx : ctx.Quiet) {initial : Input}
    {options : List RbacOption} {s s' : ManagerState}
    (hs : (managerSystem initial options).Reachable s) {calls : List ManagerCall}
    (hrun : (managerSystem initial options).run s calls = some s') :
    ∃ since, s'.log = s.log ++ since ∧
      ∀ (ranges ranges' : RoleRanges) (evaluator evaluator' : Evaluator)
        (order order' : W → MapRange RoleID) (request : Request) (w w' : W)
        (outcome outcome' : Outcome),
        s.manager.evaluator ranges = .ok evaluator →
        s'.manager.evaluator ranges' = .ok evaluator' →
        (evaluator.policy order).Answers ctx request w outcome →
        (evaluator'.policy order').Answers ctx request w' outcome' →
        (outcome ≠ .allow → outcome' = .allow →
          s'.Assigned since options request .allow ∨ s.Revoked since options request .deny) ∧
        (outcome = .allow → outcome' ≠ .allow →
          s.Revoked since options request .allow ∨ s'.Assigned since options request .deny) := by
  have hinv := manager_inv hs
  have hinv' := manager_inv (hs.run hrun)
  obtain ⟨since, hlog⟩ := log_of_run hs hrun
  refine ⟨since, hlog, ?_⟩
  intro ranges ranges' evaluator evaluator' order order' request w w' outcome outcome' heval heval'
    hanswers hanswers'
  rw [Manager.evaluator, hinv.options_eq] at heval
  rw [Manager.evaluator, hinv'.options_eq] at heval'
  have hfollows : (evaluator.policy order).Follows ctx (law s.manager.input options) :=
    follows_law heval order hctx
  have hfollows' : (evaluator'.policy order').Follows ctx (law s'.manager.input options) :=
    follows_law heval' order' hctx
  have hruling := (Law.answer_eq_some.mp (hfollows.answers_iff.mp hanswers)).2
  have hruling' := (Law.answer_eq_some.mp (hfollows'.answers_iff.mp hanswers')).2
  have hroles : s'.manager.input.roles = s.manager.input.roles :=
    hinv'.roles_eq.trans hinv.roles_eq.symm
  have hpermissions : s'.manager.input.permissions = s.manager.input.permissions :=
    hinv'.permissions_eq.trans hinv.permissions_eq.symm
  have hstanding : s'.manager.assignments = standing s.manager.assignments since := by
    rw [hinv'.assignments_eq, hlog, standing_append, ← hinv.assignments_eq]
  have hmade : ∀ assignment ∈ s'.manager.assignments, assignment ∉ s.manager.assignments →
      .assign assignment ∈ since := by
    intro assignment hnew hold
    rw [hstanding] at hnew
    exact assigned_of_mem_standing hnew hold
  have hcut : ∀ assignment ∈ s.manager.assignments, assignment ∉ s'.manager.assignments →
      .revoke assignment.id ∈ since := by
    intro assignment hold hgone
    rw [hstanding] at hgone
    exact revoked_of_not_mem_standing hold hgone
  constructor
  · rintro hbefore rfl
    rw [← hruling] at hbefore
    rcases exists_of_ruling hinv'.accepted hinv.accepted hroles hpermissions hruling' hbefore with
      ⟨assignment, hnew, hold, hbears⟩ | ⟨assignment, hold, hgone, hbears⟩
    · exact Or.inl ⟨assignment, hnew, hmade assignment hnew hold, hbears⟩
    · exact Or.inr ⟨assignment, hold, hcut assignment hold hgone, hbears⟩
  · rintro rfl hafter
    rw [← hruling'] at hafter
    rcases exists_of_ruling hinv.accepted hinv'.accepted hroles.symm hpermissions.symm hruling
      hafter with ⟨assignment, hold, hgone, hbears⟩ | ⟨assignment, hnew, hold, hbears⟩
    · exact Or.inl ⟨assignment, hold, hcut assignment hold hgone, hbears⟩
    · exact Or.inr ⟨assignment, hnew, hmade assignment hnew hold, hbears⟩

/-- One role that may read documents, and nobody who has it. -/
def readerInput : Input where
  roles := [{ id := str "reader" }]
  permissions := [
    { id := str "p", roleID := str "reader", action := str "read", resourceType := str "doc",
      effect := .allow }]
  assignments := []

def readerAssignment : Assignment :=
  { id := str "a", subject := ⟨str "user", str "u", [], ∅⟩, roleID := str "reader" }

/-- A user is made a reader, and may read. -/
theorem access_accountable_reader : ∃ (s s' : ManagerState) (since : List Mutation),
    s'.log = s.log ++ since ∧
    (s'.Assigned since [] (readingDocument "1") .allow ∨
      s.Revoked since [] (readingDocument "1") .deny) := by
  have hstart : (managerSystem readerInput []).Reachable
      ⟨⟨readerInput.roles, readerInput.permissions, [], [], 1⟩, []⟩ := .init ⟨{}, rfl, rfl⟩
  have hrun : (managerSystem readerInput []).run
      ⟨⟨readerInput.roles, readerInput.permissions, [], [], 1⟩, []⟩
      [.assign {} readerAssignment] = some _ := rfl
  obtain ⟨since, hlog, hchanges⟩ :=
    access_accountable (Context.quiet_background (W := Unit)) hstart hrun
  refine ⟨_, _, since, hlog, (hchanges {} {} _ _ (fun _ => .insertion) (fun _ => .insertion)
    (readingDocument "1") () () .notApplicable .allow rfl rfl ⟨_, rfl, ?_⟩ ⟨_, rfl, ?_⟩).1
      (by decide) rfl⟩
  · decide +kernel
  · decide +kernel

end Authorization.Rbac
