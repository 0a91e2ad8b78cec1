import Authorization.Abac.Abac
import Authorization.Acl.Acl
import Authorization.Rbac.Rbac

/-!
# Tenant isolation

A request of one tenant sees the policy items of that tenant, and with global
inheritance those of the empty tenant.  Two inputs that show the same are told
apart by no evaluation, listing or closure, whatever the other tenants hold.

For access control lists the order between the two groups shows: the matching
entries are reported, and counted against the limits, in list order.  Equal
groups in another interleaving give the same outcome, reason and error, and the
same identifiers in another order; a listing may stop at another entry.
`tenant_isolation_interleaved` has both.
-/

namespace Authorization

open Authorization.Foundation Authorization.Core

section Sublists

variable {α : Type*} (tenantOf : α → TenantID) (inheritGlobal : Bool) (tenant : TenantID)

/-- The items of a tenant. -/
def itemsOf (items : List α) : List α := items.filter fun item => tenantOf item = tenant

/-- The sublists a tenant sees are equal one by one. -/
def SameItems (items items' : List α) : Prop :=
  itemsOf tenantOf tenant items = itemsOf tenantOf tenant items' ∧
    (inheritGlobal = true → itemsOf tenantOf [] items = itemsOf tenantOf [] items')

variable {tenantOf inheritGlobal tenant}

theorem SameItems.mem_iff {items items' : List α}
    (h : SameItems tenantOf inheritGlobal tenant items items') (item : α)
    (hs : tenantOf item = tenant ∨ (inheritGlobal = true ∧ tenantOf item = [])) :
    item ∈ items ↔ item ∈ items' := by
  have hmem : ∀ (u : TenantID) (l : List α), tenantOf item = u →
      (item ∈ l ↔ item ∈ itemsOf tenantOf u l) := by
    intro u l hu
    simp [itemsOf, hu]
  rcases hs with ht | ⟨hi, ht⟩
  · rw [hmem _ items ht, hmem _ items' ht, h.1]
  · rw [hmem _ items ht, hmem _ items' ht, h.2 hi]

end Sublists

/-! ### Lists -/

/-- What a tenant sees of a list is made of the two sublists. -/
theorem visible_perm (inheritGlobal : Bool) (tenant : TenantID) (entries : List Acl.Entry) :
    (Acl.visible inheritGlobal tenant entries).Perm
      (itemsOf Acl.Entry.tenant tenant entries ++
        if inheritGlobal ∧ tenant ≠ [] then itemsOf Acl.Entry.tenant [] entries else []) := by
  by_cases h : inheritGlobal ∧ tenant ≠ []
  · rw [if_pos h]
    have hdisjoint := filter_append_filter_perm
      (fun entry : Acl.Entry => decide (entry.tenant = tenant))
      (fun entry => decide (entry.tenant = [])) entries fun entry _ h1 h2 =>
        h.2 ((of_decide_eq_true h1).symm.trans (of_decide_eq_true h2))
    refine (hdisjoint.trans (List.Perm.of_eq ?_)).symm
    refine List.filter_congr fun entry _ => ?_
    unfold Acl.matchesTenant
    by_cases h1 : entry.tenant = tenant <;> by_cases h2 : entry.tenant = [] <;> simp_all
  · rw [if_neg h, List.append_nil]
    refine List.Perm.of_eq (List.filter_congr fun entry _ => ?_)
    unfold Acl.matchesTenant
    by_cases h1 : entry.tenant = tenant <;> by_cases h2 : entry.tenant = [] <;>
      by_cases h3 : tenant = [] <;> simp_all

theorem SameItems.visible_perm {inheritGlobal : Bool} {tenant : TenantID}
    {entries entries' : List Acl.Entry}
    (h : SameItems Acl.Entry.tenant inheritGlobal tenant entries entries') :
    (Acl.visible inheritGlobal tenant entries).Perm
      (Acl.visible inheritGlobal tenant entries') := by
  refine (Authorization.visible_perm _ _ _).trans
    (List.Perm.trans (List.Perm.of_eq ?_) (Authorization.visible_perm _ _ _).symm)
  rw [h.1]
  split
  · rename_i hi; rw [h.2 hi.1]
  · rfl

/-! ### Roles -/

theorem SameItems.agree {inheritGlobal : Bool} {tenant : TenantID} {a b : Rbac.Input}
    (hr : SameItems Rbac.Role.tenant inheritGlobal tenant a.roles b.roles)
    (hp : SameItems Rbac.Permission.tenant inheritGlobal tenant a.permissions b.permissions)
    (ha : SameItems Rbac.Assignment.tenant inheritGlobal tenant a.assignments b.assignments) :
    a.Agree (fun u => u = tenant ∨ (inheritGlobal = true ∧ u = [])) b where
  roles := hr.mem_iff
  permissions := hp.mem_iff
  assignments := ha.mem_iff

theorem shown_of_matchesTenant {inheritGlobal : Bool} {tenant : TenantID} (u : TenantID)
    (h : Rbac.matchesTenant inheritGlobal u tenant = true) :
    u = tenant ∨ (inheritGlobal = true ∧ u = []) := by
  unfold Rbac.matchesTenant at h
  split at h
  · left; assumption
  · simp only [Bool.and_eq_true, decide_eq_true_eq] at h
    exact Or.inr h.1

/-! ### The three models -/

/-- **Tenant isolation.**  Inputs that show a tenant the same are evaluated alike
for it, for every context, request and order of the map ranges:

* access control lists that show the tenant the same entries in the same order
  give the same decisions and listings; if the tenant's own and the global
  entries are the same one by one, the decisions differ in the order of the
  identifiers at most;
* roles, permissions and assignments that are the same one by one give the same
  decisions and effective permissions;
* rules of the tenant that are bound to the same conditions give the same
  decisions. -/
theorem tenant_isolation {W : Type} (tenant : TenantID) (ctx : Context W) :
    (∀ (options : List Acl.AclOption) (entries entries' : List Acl.Entry)
      (evaluator evaluator' : Acl.Evaluator),
      Acl.new entries options = .ok evaluator → Acl.new entries' options = .ok evaluator' →
      (Acl.visible evaluator.inheritGlobal tenant entries
          = Acl.visible evaluator.inheritGlobal tenant entries' →
        (∀ request w, request.tenant = tenant →
          evaluator.evaluate ctx request w = evaluator'.evaluate ctx request w) ∧
        ∀ order order' subject action resourceType w,
          evaluator.listResourceIDs order ctx subject action resourceType tenant w
            = evaluator'.listResourceIDs order' ctx subject action resourceType tenant w) ∧
      (SameItems Acl.Entry.tenant evaluator.inheritGlobal tenant entries entries' →
        ∀ request w, request.tenant = tenant →
          (evaluator.evaluate ctx request w).1.1.Reordered
              (evaluator'.evaluate ctx request w).1.1 ∧
            (evaluator.evaluate ctx request w).1.2 = (evaluator'.evaluate ctx request w).1.2 ∧
            (evaluator.evaluate ctx request w).2 = (evaluator'.evaluate ctx request w).2)) ∧
    (∀ (options : List Rbac.RbacOption) (input input' : Rbac.Input)
      (ranges ranges' : Rbac.RoleRanges) (evaluator evaluator' : Rbac.Evaluator),
      Rbac.new ranges input.roles input.permissions input.assignments options = .ok evaluator →
      Rbac.new ranges' input'.roles input'.permissions input'.assignments options
        = .ok evaluator' →
      SameItems Rbac.Role.tenant evaluator.inheritGlobal tenant input.roles input'.roles →
      SameItems Rbac.Permission.tenant evaluator.inheritGlobal tenant
        input.permissions input'.permissions →
      SameItems Rbac.Assignment.tenant evaluator.inheritGlobal tenant
        input.assignments input'.assignments →
      (∀ order order' request w, request.tenant = tenant →
        evaluator.evaluate order ctx request w = evaluator'.evaluate order' ctx request w) ∧
      ∀ order order' subject w,
        evaluator.effectivePermissions order ctx subject tenant w
          = evaluator'.effectivePermissions order' ctx subject tenant w) ∧
    (∀ (options : List Abac.Limits) (rules rules' : List Abac.Rule)
      (named named' : List Abac.NamedCondition) (evaluator evaluator' : Abac.Evaluator),
      Abac.new rules named options = .ok evaluator →
      Abac.new rules' named' options = .ok evaluator' →
      Abac.tenantRules tenant rules named = Abac.tenantRules tenant rules' named' →
      ∀ request w, request.tenant = tenant →
        evaluator.evaluate ctx request w = evaluator'.evaluate ctx request w) := by
  refine ⟨?_, ?_, ?_⟩
  · intro options entries entries' evaluator evaluator' hnew hnew'
    rw [Acl.new_eq_ok hnew, Acl.new_eq_ok hnew']
    refine ⟨?_, ?_⟩
    · intro hsame
      have hkeys : ∀ key,
          Acl.visible (Acl.configured options).inheritGlobal tenant
              (bucket (groupBy Acl.Entry.key entries) key)
            = Acl.visible (Acl.configured options).inheritGlobal tenant
              (bucket (groupBy Acl.Entry.key entries') key) := by
        intro key
        rw [Acl.visible_bucket, Acl.visible_bucket]
        exact congrArg _ hsame
      refine ⟨?_, ?_⟩
      · rintro request w rfl
        exact Acl.evaluate_congr ctx request hkeys w
      · intro order order' subject action resourceType w
        exact Acl.listResourceIDs_congr order order' ctx subject action resourceType tenant hkeys w
    · rintro hsame request w rfl
      refine Acl.evaluate_reordered ctx request ?_ w
      intro key
      rw [Acl.visible_bucket, Acl.visible_bucket]
      exact hsame.visible_perm.filter _
  · intro options input input' ranges ranges' evaluator evaluator' hnew hnew' hr hp ha
    obtain ⟨hwf, rfl⟩ := Rbac.new_eq_ok hnew
    obtain ⟨hwf', rfl⟩ := Rbac.new_eq_ok hnew'
    have hagree := SameItems.agree hr hp ha
    refine ⟨?_, ?_⟩
    · rintro order order' request w rfl
      exact hagree.evaluate shown_of_matchesTenant hwf hwf' order order' ctx w
    · intro order order' subject w
      exact hagree.effectivePermissions shown_of_matchesTenant hwf hwf' order order' ctx subject w
  · rintro options rules rules' named named' evaluator evaluator' hnew hnew' hsame request w rfl
    rw [Abac.evaluate_eq_tenantRules hnew, Abac.evaluate_eq_tenantRules hnew', hsame]

/-! ### Examples -/

/-- A type-wide entry of one user. -/
def sampleEntry (id tenant : String) (effect : Outcome) : Acl.Entry :=
  { id := str id, subject := { kind := str "user", id := str "u" }, action := str "read",
    resourceType := str "document", tenant := str tenant, effect := effect }

def sampleRole (id tenant : String) : Rbac.Role := { id := str id, tenant := str tenant }

def samplePermission (id role tenant : String) : Rbac.Permission :=
  { id := str id, roleID := str role, tenant := str tenant, action := str "read",
    resourceType := str "document", effect := .allow }

def sampleAssignment (id role tenant : String) : Rbac.Assignment :=
  { id := str id, subject := { kind := str "user", id := str "u" }, roleID := str role,
    tenant := str tenant }

def sampleRule (id tenant : String) : Abac.Rule :=
  { id := str id, tenant := str tenant, action := str "read", resourceType := str "document",
    effect := .allow, condition := .notCondition (.nullCondition ⟨.subject, str "name"⟩) }

/-- A request of the same user. -/
def sampleRequest (tenant : String) : Request :=
  { subject := { kind := str "user", id := str "u" }, action := str "read",
    resource := { type := str "document" }, tenant := str tenant }

/-- Items of another tenant change nothing for tenant `a`. -/
theorem tenant_isolation_other :
    (∃ evaluator evaluator',
      Acl.new [sampleEntry "x" "a" .allow] [] = .ok evaluator ∧
      Acl.new [sampleEntry "y" "b" .deny, sampleEntry "x" "a" .allow] [] = .ok evaluator' ∧
      evaluator'.evaluate .background (sampleRequest "a") ()
        = evaluator.evaluate .background (sampleRequest "a") () ∧
      (evaluator.evaluate .background (sampleRequest "a") ()).1.1.outcome = .allow) ∧
    (∃ evaluator evaluator',
      Rbac.new {} [sampleRole "r" "a"] [samplePermission "p" "r" "a"]
        [sampleAssignment "m" "r" "a"] [] = .ok evaluator ∧
      Rbac.new {} [sampleRole "s" "b", sampleRole "r" "a"]
        [samplePermission "q" "s" "b", samplePermission "p" "r" "a"]
        [sampleAssignment "n" "s" "b", sampleAssignment "m" "r" "a"] [] = .ok evaluator' ∧
      evaluator'.evaluate .insertion .background (sampleRequest "a") ()
        = evaluator.evaluate .insertion .background (sampleRequest "a") () ∧
      (evaluator.evaluate .insertion .background (sampleRequest "a") ()).1.1.outcome = .allow) ∧
    (∃ evaluator evaluator',
      Abac.new [sampleRule "x" "a"] [] [] = .ok evaluator ∧
      Abac.new [sampleRule "y" "b", sampleRule "x" "a"] [] [] = .ok evaluator' ∧
      evaluator'.evaluate .background (sampleRequest "a") ()
        = evaluator.evaluate .background (sampleRequest "a") () ∧
      (evaluator.evaluate .background (sampleRequest "a") ()).1
        = .returned ⟨.allow, str "abac-allow", [str "x"], false, 0, [], false⟩ none) := by
  obtain ⟨hacl, hrbac, habac⟩ := tenant_isolation (W := Unit) (str "a") .background
  refine ⟨?_, ?_, ?_⟩
  · have hnew : Acl.new [sampleEntry "x" "a" .allow] [] = .ok _ := rfl
    have hnew' : Acl.new [sampleEntry "y" "b" .deny, sampleEntry "x" "a" .allow] [] = .ok _ := rfl
    exact ⟨_, _, hnew, hnew', ((hacl _ _ _ _ _ hnew' hnew).1 rfl).1 _ _ rfl, by decide⟩
  · let input : Rbac.Input := ⟨[sampleRole "r" "a"], [samplePermission "p" "r" "a"],
      [sampleAssignment "m" "r" "a"]⟩
    let input' : Rbac.Input := ⟨[sampleRole "s" "b", sampleRole "r" "a"],
      [samplePermission "q" "s" "b", samplePermission "p" "r" "a"],
      [sampleAssignment "n" "s" "b", sampleAssignment "m" "r" "a"]⟩
    have hnew : Rbac.new {} input.roles input.permissions input.assignments [] = .ok _ := rfl
    have hnew' : Rbac.new {} input'.roles input'.permissions input'.assignments [] = .ok _ := rfl
    exact ⟨_, _, hnew, hnew', (hrbac _ input' input _ _ _ _ hnew' hnew ⟨rfl, fun _ => rfl⟩
      ⟨rfl, fun _ => rfl⟩ ⟨rfl, fun _ => rfl⟩).1 _ _ _ _ rfl, by decide⟩
  · have hnew : Abac.new [sampleRule "x" "a"] [] [] = .ok _ := rfl
    have hnew' : Abac.new [sampleRule "y" "b", sampleRule "x" "a"] [] [] = .ok _ := rfl
    exact ⟨_, _, hnew, hnew', habac _ _ _ _ _ _ _ hnew' hnew rfl _ _ rfl, by decide⟩

/-- The same two groups of entries in two interleavings: the identifiers come in
another order, and under a limit of one match a listing succeeds or fails. -/
theorem tenant_isolation_interleaved :
    (∃ entries entries' evaluator evaluator',
      Acl.new entries [.withGlobalInheritance] = .ok evaluator ∧
      Acl.new entries' [.withGlobalInheritance] = .ok evaluator' ∧
      SameItems Acl.Entry.tenant evaluator.inheritGlobal (str "a") entries entries' ∧
      evaluator.evaluate .background (sampleRequest "a") ()
        ≠ evaluator'.evaluate .background (sampleRequest "a") ()) ∧
    ∃ entries entries' evaluator evaluator',
      Acl.new entries [.withGlobalInheritance, .withLimits ⟨0, 0, 1, 0⟩] = .ok evaluator ∧
      Acl.new entries' [.withGlobalInheritance, .withLimits ⟨0, 0, 1, 0⟩] = .ok evaluator' ∧
      SameItems Acl.Entry.tenant evaluator.inheritGlobal (str "a") entries entries' ∧
      (evaluator.listResourceIDs .insertion .background { kind := str "user", id := str "u" }
          (str "read") (str "document") (str "a") ()).1 = .ok [] ∧
      (evaluator'.listResourceIDs .insertion .background { kind := str "user", id := str "u" }
          (str "read") (str "document") (str "a") ()).1
        = .error (.sentinel .aclErrMatchLimitExceeded) := by
  refine ⟨⟨[sampleEntry "x" "a" .allow, sampleEntry "y" "" .allow],
    [sampleEntry "y" "" .allow, sampleEntry "x" "a" .allow], _, _, rfl, rfl,
      ⟨rfl, fun _ => rfl⟩, by decide⟩,
    ⟨[sampleEntry "x" "a" .deny, sampleEntry "y" "" .allow],
    [sampleEntry "y" "" .allow, sampleEntry "x" "a" .deny], _, _, rfl, rfl,
      ⟨rfl, fun _ => rfl⟩, rfl, rfl⟩⟩

end Authorization
