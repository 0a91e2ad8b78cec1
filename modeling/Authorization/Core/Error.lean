import Authorization.Foundation.Bytes

/-!
# Errors

An `error` value is a package sentinel, one of the repository's error types
around another error, the error of a context, or an error of code outside the
repository.  `errorf` is `fmt.Errorf` with a `%w` verb at its end: the text in
front is kept as the list of its parts.
-/

namespace Authorization.Core

open Authorization.Foundation

/-- The sentinel errors, package by package. -/
inductive Sentinel
  -- authorization
  | errNilSnapshot | errBatchLimitExceeded | errPolicyLimitExceeded | errPolicyPanic
  | errRevisionConflict | errRevisionNotMonotonic | errInvalidPolicy | errDuplicatePolicy
  | errInvalidActivationWindow | errInvalidRevision | errInvalidRequest
  | errInvalidCombiningAlgorithm | errInvalidOutcome | errDecisionUnavailable
  | errInvalidFloat
  -- acl
  | aclErrInvalidEntry | aclErrDuplicateEntry | aclErrEntryLimitExceeded
  | aclErrGroupLimitExceeded | aclErrMatchLimitExceeded | aclErrUnboundedResourceSet
  | aclErrBatchLimitExceeded | aclErrInvalidDocument | aclErrUnsupportedDocumentVersion
  | aclErrDocumentLimitExceeded
  -- rbac
  | rbacErrRoleCycle | rbacErrInheritanceDepthExceeded | rbacErrUnknownParentRole
  | rbacErrCrossTenantInheritance | rbacErrInvalidRole | rbacErrDuplicateRole
  | rbacErrInvalidPermission | rbacErrDuplicatePermission | rbacErrInvalidAssignment
  | rbacErrDuplicateAssignment | rbacErrUnknownRole | rbacErrRoleTenantMismatch
  | rbacErrRoleLimitExceeded | rbacErrPermissionLimitExceeded
  | rbacErrAssignmentLimitExceeded | rbacErrGroupLimitExceeded | rbacErrMatchLimitExceeded
  | rbacErrBatchLimitExceeded | rbacErrInvalidDocument | rbacErrUnsupportedDocumentVersion
  | rbacErrDocumentLimitExceeded
  -- abac
  | abacErrInvalidRule | abacErrInvalidCondition | abacErrCostExceeded | abacErrDepthExceeded
  | abacErrRuleLimitExceeded | abacErrSetLimitExceeded | abacErrMatchLimitExceeded
  | abacErrUnknownNamedCondition | abacErrDuplicateNamedCondition
  | abacErrBatchLimitExceeded | abacErrInvalidDocument | abacErrUnsupportedDocumentVersion
  | abacErrDocumentLimitExceeded
  -- policy
  | policyErrInvalidManifest | policyErrDuplicateRecord | policyErrManifestLimitExceeded
  | policyErrNilDecoder | policyErrMissingDecoder | policyErrNilEvaluator | policyErrDocumentLimitExceeded
  | policyErrPolicyLimitExceeded | policyErrTotalDocumentLimitExceeded
  | policyErrNilRepository | policyErrNilCompiler | policyErrNilEngine
  | policyErrInvalidSyncInterval | policyErrInvalidMaxStaleness
  | policyErrStaleManifest | policyErrPolicyStale | policyErrNilSnapshot
  -- postgres
  | postgresErrNotInitialized | postgresErrRevisionConflict | postgresErrRevisionNotMonotonic
  | postgresErrInvalidAuthority | postgresErrAuthorityDenied | postgresErrAuthorityConflict
  | postgresErrAuthorityOverflow | postgresErrAuthorityUnavailable
  -- valkey
  | valkeyErrInvalidRevision
deriving DecidableEq, Repr

/-- A piece of the text in front of a wrapped error. -/
inductive ErrorPart
  | text (s : String)
  | num (n : Nat)
  | quoted (s : Bytes)
deriving DecidableEq, Repr

/-- A non-nil `error`. -/
inductive GoError
  | sentinel (s : Sentinel)
  /-- `*ValidationError` -/
  | validation (field : Bytes)
  /-- `*PolicyEvaluationError` -/
  | policyEvaluation (policyID : Bytes) (err : GoError)
  | errorf (parts : List ErrorPart) (err : GoError)
  | joined (first rest : GoError)
  | contextCanceled
  | contextDeadlineExceeded
  | foreign (text : Bytes)
deriving DecidableEq, Repr

instance : Coe Sentinel GoError := ⟨GoError.sentinel⟩

namespace GoError

/-- `errors.Is`. -/
def is (target : GoError) : GoError → Bool
  | .policyEvaluation id err => .policyEvaluation id err == target || is target err
  | .errorf parts err => .errorf parts err == target || is target err
  | .joined a b => .joined a b == target || is target a || is target b
  | .validation field =>
    .validation field == target || .sentinel .errInvalidRequest == target
  | err => err == target

/-- `errors.Join`, nil for no error. -/
def join : List GoError → Option GoError
  | [] => none
  | [err] => some err
  | err :: rest => some ((join rest).elim err (joined err))

end GoError

/-- A bind that succeeds. -/
theorem bind_eq_ok {α β : Type} {x : Except GoError α} {f : α → Except GoError β} {b : β} :
    (x >>= f) = .ok b ↔ ∃ a, x = .ok a ∧ f a = .ok b := by
  cases x with
  | error err =>
    refine ⟨fun h => (by cases h), ?_⟩
    rintro ⟨a, h, -⟩
    cases h
  | ok a =>
    refine ⟨fun h => ⟨a, rfl, h⟩, ?_⟩
    rintro ⟨a', ha, h⟩
    cases ha
    exact h

/-- A bind that fails. -/
theorem bind_eq_error {α β : Type} {x : Except GoError α} {f : α → Except GoError β}
    {err : GoError} :
    (x >>= f) = .error err ↔ x = .error err ∨ ∃ a, x = .ok a ∧ f a = .error err := by
  cases x with
  | error failure =>
    refine ⟨fun h => Or.inl (congrArg _ (Except.error.inj h)), ?_⟩
    rintro (h | ⟨a, h, -⟩)
    · exact congrArg _ (Except.error.inj h)
    · cases h
  | ok a =>
    refine ⟨fun h => Or.inr ⟨a, rfl, h⟩, ?_⟩
    rintro (h | ⟨a', ha, h⟩)
    · cases h
    · cases ha
      exact h

/-- A mapped result that succeeds. -/
theorem map_eq_ok {α β : Type} {x : Except GoError α} {f : α → β} {b : β} :
    x.map f = .ok b ↔ ∃ a, x = .ok a ∧ f a = b := by
  cases x with
  | error err =>
    refine ⟨fun h => (by cases h), ?_⟩
    rintro ⟨a, h, -⟩
    cases h
  | ok a =>
    refine ⟨fun h => ⟨a, rfl, Except.ok.inj h⟩, ?_⟩
    rintro ⟨a', ha, rfl⟩
    cases ha
    rfl

theorem map_eq_error {α β : Type} {x : Except GoError α} {f : α → β} {err : GoError} :
    x.map f = .error err ↔ x = .error err := by
  cases x with
  | error failure =>
    exact ⟨fun h => congrArg _ (Except.error.inj h), fun h => congrArg _ (Except.error.inj h)⟩
  | ok a => constructor <;> intro h <;> cases h

/-! ### Checking a list

Constructors check their items one by one, by position and against the
identifiers already seen, and return the first error. -/

section CheckEach

variable {α ι : Type*} (id : α → ι) (check : Nat → List ι → α → Option GoError)

/-- The loop, from position `index` on. -/
def checkEach : Nat → List ι → List α → Option GoError
  | _, _, [] => none
  | index, seen, item :: rest =>
    match check index seen item with
    | some err => some err
    | none => checkEach (index + 1) (id item :: seen) rest

variable {id check}

/-- **What a list that passes has passed**: every item its own check, and where
the check refuses a repeated identifier, the identifiers are distinct. -/
theorem checkEach_eq_none (hnew : ∀ index seen item, check index seen item = none → id item ∉ seen) :
    ∀ {items : List α} {index : Nat} {seen : List ι},
      checkEach id check index seen items = none →
      (items.map id).Nodup ∧ (∀ item ∈ items, id item ∉ seen) ∧
        ∀ item ∈ items, ∃ index seen, check index seen item = none := by
  intro items
  induction items with
  | nil => intro index seen _; exact ⟨List.nodup_nil, by simp, by simp⟩
  | cons item rest ih =>
    intro index seen h
    rw [checkEach] at h
    cases hc : check index seen item with
    | some err => rw [hc] at h; cases h
    | none =>
      rw [hc] at h
      obtain ⟨hnd, hrest, hchecked⟩ := ih h
      refine ⟨?_, ?_, ?_⟩
      · rw [List.map_cons, List.nodup_cons]
        refine ⟨fun hm => ?_, hnd⟩
        obtain ⟨other, hother, he⟩ := List.mem_map.mp hm
        exact hrest other hother (by rw [he]; exact List.mem_cons_self)
      · intro other hother
        rcases List.mem_cons.mp hother with rfl | hother
        · exact hnew _ _ _ hc
        · exact fun hm => hrest other hother (List.mem_cons_of_mem _ hm)
      · intro other hother
        rcases List.mem_cons.mp hother with rfl | hother
        · exact ⟨index, seen, hc⟩
        · exact hchecked other hother

/-- A list that fails has an item that does. -/
theorem checkEach_eq_some {err : GoError} : ∀ {items : List α} {index : Nat} {seen : List ι},
    checkEach id check index seen items = some err →
    ∃ item ∈ items, ∃ index seen, check index seen item = some err := by
  intro items
  induction items with
  | nil => intro index seen h; cases h
  | cons item rest ih =>
    intro index seen h
    rw [checkEach] at h
    cases hc : check index seen item with
    | some failure =>
      rw [hc] at h
      cases h
      exact ⟨item, List.mem_cons_self, index, seen, hc⟩
    | none =>
      rw [hc] at h
      obtain ⟨other, hother, hfails⟩ := ih h
      exact ⟨other, List.mem_cons_of_mem _ hother, hfails⟩

/-- **A list passes** exactly when its identifiers are new and distinct and every
item has what the check looks for besides. -/
theorem checkEach_eq_none_iff {P : α → Prop}
    (hcheck : ∀ index seen item, check index seen item = none ↔ P item ∧ id item ∉ seen) :
    ∀ {items : List α} {index : Nat} {seen : List ι},
      checkEach id check index seen items = none ↔
        (items.map id).Nodup ∧ (∀ item ∈ items, id item ∉ seen) ∧ ∀ item ∈ items, P item := by
  intro items
  induction items with
  | nil => intro index seen; simp [checkEach]
  | cons item rest ih =>
    intro index seen
    rw [checkEach, List.map_cons, List.nodup_cons, List.forall_mem_cons, List.forall_mem_cons]
    cases hc : check index seen item with
    | some err =>
      refine ⟨nofun, ?_⟩
      rintro ⟨-, ⟨hnew, -⟩, hP, -⟩
      rw [(hcheck index seen item).mpr ⟨hP, hnew⟩] at hc
      cases hc
    | none =>
      obtain ⟨hP, hnew⟩ := (hcheck index seen item).mp hc
      have hsplit : (∀ other ∈ rest, id other ∉ id item :: seen) ↔
          id item ∉ rest.map id ∧ ∀ other ∈ rest, id other ∉ seen := by
        simp only [List.mem_cons, not_or, List.mem_map, not_exists, not_and]
        exact ⟨fun h => ⟨fun other ho he => (h other ho).1 he, fun other ho => (h other ho).2⟩,
          fun h other ho => ⟨h.1 other ho, h.2 other ho⟩⟩
      dsimp only
      rw [ih, hsplit]
      exact ⟨fun h => ⟨⟨h.2.1.1, h.1⟩, ⟨hnew, h.2.1.2⟩, hP, h.2.2⟩,
        fun h => ⟨h.1.2, ⟨h.1.1, h.2.1.2⟩, h.2.2.2⟩⟩

/-- A change of the items that keeps their identifiers and their checks keeps the
result. -/
theorem checkEach_map_eq_none {f : α → α} : ∀ {items : List α} {index : Nat} {seen : List ι},
    (∀ item ∈ items, id (f item) = id item) →
    (∀ item ∈ items, ∀ index seen, check index seen item = none →
      check index seen (f item) = none) →
    checkEach id check index seen items = none →
    checkEach id check index seen (items.map f) = none := by
  intro items
  induction items with
  | nil => intro index seen _ _ _; rfl
  | cons item rest ih =>
    intro index seen hid hcheck h
    rw [checkEach] at h
    cases hc : check index seen item with
    | some err => rw [hc] at h; cases h
    | none =>
      rw [hc] at h
      rw [List.map_cons, checkEach, hcheck item List.mem_cons_self _ _ hc,
        hid item List.mem_cons_self]
      exact ih (fun other ho => hid other (List.mem_cons_of_mem _ ho))
        (fun other ho => hcheck other (List.mem_cons_of_mem _ ho)) h

end CheckEach

end Authorization.Core
