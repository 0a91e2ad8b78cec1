import Authorization.Core.Tightening
import Authorization.Laws

/-!
# Stricter lists

Adding items that deny and taking away items that do not.  A list of entries, of
permissions or of rules that was changed so has a law that tightens the old one on
every request that the old one admits.  Additions alone do so on all requests, since
they only bring a request closer to the limits.

For roles the assignments may change as well: one may be added if its role reaches
permissions that deny only, and revoked if its role reaches none that does.

So an evaluator made from the stricter list never allows what the old one answered
otherwise (`stricter_never_grants`).
-/

namespace Authorization

open Authorization.Foundation Authorization.Core

/-- Items were added that deny, and none was taken away that does. -/
structure Stricter {ι : Type} (effect : ι → Outcome) (items' items : List ι) : Prop where
  added : ∀ item ∈ items', item ∉ items → effect item = .deny
  removed : ∀ item ∈ items, item ∉ items' → effect item ≠ .deny

theorem Stricter.mem_of_deny {ι : Type} {effect : ι → Outcome} {items' items : List ι}
    (h : Stricter effect items' items) {item : ι} (hitem : item ∈ items)
    (hdeny : effect item = .deny) : item ∈ items' := by
  by_contra hremoved
  exact h.removed item hitem hremoved hdeny

theorem Stricter.mem_of_ne_deny {ι : Type} {effect : ι → Outcome} {items' items : List ι}
    (h : Stricter effect items' items) {item : ι} (hitem : item ∈ items')
    (hdeny : effect item ≠ .deny) : item ∈ items := by
  by_contra hadded
  exact hdeny (h.added item hitem hadded)

theorem Stricter.append {ι : Type} {effect : ι → Outcome} (items : List ι) {denials : List ι}
    (h : ∀ item ∈ denials, effect item = .deny) : Stricter effect (items ++ denials) items := by
  refine ⟨fun item hitem hnew => ?_, fun item hitem hgone => ?_⟩
  · exact h item ((List.mem_append.mp hitem).resolve_left hnew)
  · exact absurd (List.mem_append_left _ hitem) hgone

/-- More matches under the same limits admit no more. -/
theorem Core.Law.admits_of_subset {law' law : Law} {request : Request}
    {ms : List (PolicyID × Outcome)} (hlists : law'.Lists request ms)
    (hsub : law.matched request ⊆ law'.matched request)
    (hwithin : law'.within request → law.within request)
    (hmax : law'.maxMatches = law.maxMatches) (h : law'.Admits request) : law.Admits request := by
  have hfinite : (law'.matched request).Finite := by
    refine (List.finite_toSet ms).subset fun m hm => ?_
    exact (hlists.mem_iff m).mpr hm
  have hcard : (law.matched request).ncard ≤ (law'.matched request).ncard :=
    Set.ncard_le_ncard hsub hfinite
  refine ⟨hwithin h.1, ?_⟩
  have hcount := h.2
  omega

/-! ### Access lists -/

namespace Acl

theorem law_tightensAt {entries' entries : List Entry} {options : List AclOption}
    {evaluator' : Evaluator} (hnew' : new entries' options = .ok evaluator')
    (hstricter : Stricter Entry.effect entries' entries) {request : Request}
    (hadmits : entries ⊆ entries' ∨ (law entries options).Admits request) :
    (law entries' options).TightensAt (law entries options) request := by
  refine Law.tightensAt_of_items (fun h => ?_) ?_ ?_
  · rcases hadmits with hsub | hadmits
    · refine Law.admits_of_subset (law_lists hnew' request) ?_ id rfl h
      rintro item ⟨entry, hentry, hmatches, rfl⟩
      exact ⟨entry, hsub hentry, hmatches, rfl⟩
    · exact hadmits
  · rintro item ⟨entry, hentry, hmatches, rfl⟩ hdeny
    exact ⟨entry, hstricter.mem_of_deny hentry hdeny, hmatches, rfl⟩
  · rintro item ⟨entry, hentry, hmatches, rfl⟩ hdeny
    exact ⟨entry, hstricter.mem_of_ne_deny hentry hdeny, hmatches, rfl⟩

end Acl

/-! ### Roles -/

namespace Rbac

/-- The permission is that of a role which the assigned role inherits. -/
def Input.Conveys (input : Input) (assignment : Assignment) (permission : Permission) : Prop :=
  permission ∈ input.permissions ∧
    Relation.ReflTransGen (ParentEdge input.roles) assignment.roleID permission.roleID

/-- Stricter permissions and assignments on the same roles. -/
structure Input.Stricter (input' input : Input) : Prop where
  roles : input'.roles = input.roles
  permissions : Authorization.Stricter Permission.effect input'.permissions input.permissions
  assigned : ∀ assignment ∈ input'.assignments, assignment ∉ input.assignments →
    ∀ permission, input'.Conveys assignment permission → permission.effect = .deny
  revoked : ∀ assignment ∈ input.assignments, assignment ∉ input'.assignments →
    ∀ permission, input.Conveys assignment permission → permission.effect ≠ .deny

section Grants

variable {input' input : Input} {inheritGlobal : Bool} {subject : Subject} {tenant : TenantID}
  {permission : Permission}

theorem Input.Stricter.grants_of_deny (h : input'.Stricter input)
    (hgrants : input.Grants inheritGlobal subject tenant permission)
    (hdeny : permission.effect = .deny) :
    input'.Grants inheritGlobal subject tenant permission := by
  obtain ⟨hpermission, assignment, hassignment, hnames, htenant, hreach⟩ := hgrants
  have hkept : assignment ∈ input'.assignments := by
    by_contra hrevoked
    exact h.revoked assignment hassignment hrevoked permission ⟨hpermission, hreach⟩ hdeny
  exact ⟨h.permissions.mem_of_deny hpermission hdeny, assignment, hkept, hnames, htenant,
    by rw [h.roles]; exact hreach⟩

theorem Input.Stricter.grants_of_ne_deny (h : input'.Stricter input)
    (hgrants : input'.Grants inheritGlobal subject tenant permission)
    (hdeny : permission.effect ≠ .deny) :
    input.Grants inheritGlobal subject tenant permission := by
  obtain ⟨hpermission, assignment, hassignment, hnames, htenant, hreach⟩ := hgrants
  have hold : assignment ∈ input.assignments := by
    by_contra hassigned
    exact hdeny (h.assigned assignment hassignment hassigned permission ⟨hpermission, hreach⟩)
  exact ⟨h.permissions.mem_of_ne_deny hpermission hdeny, assignment, hold, hnames, htenant,
    by rw [← h.roles]; exact hreach⟩

theorem Input.grants_mono (hroles : input'.roles = input.roles)
    (hpermissions : input.permissions ⊆ input'.permissions)
    (hassignments : input.assignments ⊆ input'.assignments)
    (hgrants : input.Grants inheritGlobal subject tenant permission) :
    input'.Grants inheritGlobal subject tenant permission := by
  obtain ⟨hpermission, assignment, hassignment, hnames, htenant, hreach⟩ := hgrants
  exact ⟨hpermissions hpermission, assignment, hassignments hassignment, hnames, htenant,
    by rw [hroles]; exact hreach⟩

end Grants

theorem law_tightensAt {input' input : Input} {options : List RbacOption}
    (hwf' : input'.WellFormed) (hstricter : input'.Stricter input) {request : Request}
    (hadmits : (input.permissions ⊆ input'.permissions ∧ input.assignments ⊆ input'.assignments) ∨
      (law input options).Admits request) :
    (law input' options).TightensAt (law input options) request := by
  refine Law.tightensAt_of_items (fun h => ?_) ?_ ?_
  · rcases hadmits with ⟨hpermissions, hassignments⟩ | hadmits
    · refine Law.admits_of_subset (law_lists hwf' options request) ?_ id rfl h
      rintro item ⟨permission, hgrants, hmatches, rfl⟩
      exact ⟨permission, Input.grants_mono hstricter.roles hpermissions hassignments hgrants,
        hmatches, rfl⟩
    · exact hadmits
  · rintro item ⟨permission, hgrants, hmatches, rfl⟩ hdeny
    exact ⟨permission, hstricter.grants_of_deny hgrants hdeny, hmatches, rfl⟩
  · rintro item ⟨permission, hgrants, hmatches, rfl⟩ hdeny
    exact ⟨permission, hstricter.grants_of_ne_deny hgrants hdeny, hmatches, rfl⟩

end Rbac

/-! ### Rules -/

namespace Abac

/-- More rules take no fewer visits. -/
theorem scopePrice_le_of_subset {request : Request} {maxSetSize : Int} {rules' rules : List Rule}
    (hnodup : rules.Nodup) (hsub : rules ⊆ rules') :
    scopePrice request maxSetSize rules ≤ scopePrice request maxSetSize rules' := by
  obtain ⟨kept, hperm, hkept⟩ := hnodup.subperm hsub
  rw [← scopePrice_perm request maxSetSize hperm]
  exact ((hkept.filter _).map _).sum_le_sum fun _ _ => Nat.zero_le _

theorem law_tightensAt {rules' rules : List Rule} {namedConditions : List NamedCondition}
    {options : List Limits} (haccepted' : Accepted rules' namedConditions options)
    (haccepted : Accepted rules namedConditions options)
    (hstricter : Stricter Rule.effect rules' rules) {request : Request}
    (hadmits : rules ⊆ rules' ∨ (law rules namedConditions options).Admits request) :
    (law rules' namedConditions options).TightensAt (law rules namedConditions options)
      request := by
  refine Law.tightensAt_of_items (fun h => ?_) ?_ ?_
  · rcases hadmits with hsub | hadmits
    · have hbound : rules.map (Rule.bind (namedMap namedConditions))
          ⊆ rules'.map (Rule.bind (namedMap namedConditions)) := List.map_subset _ hsub
      have hnodup : (rules.map (Rule.bind (namedMap namedConditions))).Nodup :=
        List.Nodup.of_map Rule.id (bind_ids_nodup haccepted.rules_nodup _)
      refine Law.admits_of_subset (law_lists haccepted' request) ?_ ?_ rfl h
      · rintro item ⟨rule, hrule, hcovers, hholds, rfl⟩
        exact ⟨rule, hsub hrule, hcovers, hholds, rfl⟩
      · rintro ⟨hsets, hcost⟩
        refine ⟨fun rule hrule => hsets rule (hbound hrule), le_trans ?_ hcost⟩
        exact Int.ofNat_le.mpr (scopePrice_le_of_subset hnodup hbound)
    · exact hadmits
  · rintro item ⟨rule, hrule, hcovers, hholds, rfl⟩ hdeny
    exact ⟨rule, hstricter.mem_of_deny hrule hdeny, hcovers, hholds, rfl⟩
  · rintro item ⟨rule, hrule, hcovers, hholds, rfl⟩ hdeny
    exact ⟨rule, hstricter.mem_of_ne_deny hrule hdeny, hcovers, hholds, rfl⟩

end Abac

/-! ### Evaluators -/

section Evaluators

variable {W : Type} {ctx : Context W}

/-- The call returns without an error, with this outcome. -/
def Core.Evaluator.Answers (evaluator : Core.Evaluator W) (ctx : Context W) (request : Request)
    (w : W) (outcome : Outcome) : Prop :=
  ∃ decision, (evaluator ctx request w).1 = .returned decision none ∧ decision.outcome = outcome

theorem Core.Evaluator.Follows.answers_iff {evaluator : Core.Evaluator W} {law : Law}
    (h : evaluator.Follows ctx law) {request : Request} {w : W} {outcome : Outcome} :
    evaluator.Answers ctx request w outcome ↔ law.answer request = some outcome := by
  rw [Law.answer_eq_some]
  constructor
  · rintro ⟨decision, hreturned, rfl⟩
    have hadmits : law.Admits request := by
      by_contra hrefuses
      obtain ⟨other, err, herr⟩ := h.refused request w hrefuses
      rw [hreturned] at herr
      cases herr
    obtain ⟨other, hother, hrules⟩ := h.answered request w hadmits
    rw [hreturned] at hother
    cases hother
    exact ⟨hadmits, hrules.outcome.symm⟩
  · rintro ⟨hadmits, rfl⟩
    obtain ⟨decision, hreturned, hrules⟩ := h.answered request w hadmits
    exact ⟨decision, hreturned, hrules.outcome⟩

theorem Core.Evaluator.Follows.admits {evaluator : Core.Evaluator W} {law : Law}
    (h : evaluator.Follows ctx law) {request : Request} {w : W} {outcome : Outcome}
    (hanswers : evaluator.Answers ctx request w outcome) : law.Admits request :=
  (Law.answer_eq_some.mp (h.answers_iff.mp hanswers)).1

/-- An evaluator of the tightened law allows only what the other allows. -/
theorem allow_of_tightensAt {evaluator' evaluator : Core.Evaluator W} {law' law : Law}
    (hfollows' : evaluator'.Follows ctx law') (hfollows : evaluator.Follows ctx law)
    {request : Request} (htightens : law'.TightensAt law request) {w' : W} (w : W)
    (hallow : evaluator'.Answers ctx request w' .allow) :
    evaluator.Answers ctx request w .allow := by
  obtain ⟨hadmits', hruling'⟩ := Law.answer_eq_some.mp (hfollows'.answers_iff.mp hallow)
  exact hfollows.answers_iff.mpr
    (Law.answer_eq_some.mpr ⟨htightens.admits hadmits', htightens.allows hruling'⟩)

/-- **A stricter list never grants.**  What the evaluator of the new list allows the
evaluator of the old one allows, if items were only added or the old one answered at
all. -/
theorem stricter_never_grants (hctx : ctx.Quiet) (request : Request) (w' w : W) :
    (∀ (entries' entries : List Acl.Entry) (options : List Acl.AclOption)
        (evaluator' evaluator : Acl.Evaluator),
      Acl.new entries' options = .ok evaluator' → Acl.new entries options = .ok evaluator →
      Stricter Acl.Entry.effect entries' entries →
      (entries ⊆ entries' ∨ ∃ outcome, evaluator.policy.Answers ctx request w outcome) →
      evaluator'.policy.Answers ctx request w' .allow →
      evaluator.policy.Answers ctx request w .allow) ∧
    (∀ (input' input : Rbac.Input) (ranges' ranges : Rbac.RoleRanges)
        (options : List Rbac.RbacOption) (evaluator' evaluator : Rbac.Evaluator)
        (order' order : W → MapRange Rbac.RoleID),
      Rbac.new ranges' input'.roles input'.permissions input'.assignments options
        = .ok evaluator' →
      Rbac.new ranges input.roles input.permissions input.assignments options = .ok evaluator →
      input'.Stricter input →
      ((input.permissions ⊆ input'.permissions ∧ input.assignments ⊆ input'.assignments) ∨
        ∃ outcome, (evaluator.policy order).Answers ctx request w outcome) →
      (evaluator'.policy order').Answers ctx request w' .allow →
      (evaluator.policy order).Answers ctx request w .allow) ∧
    (∀ (rules' rules : List Abac.Rule) (namedConditions : List Abac.NamedCondition)
        (options : List Abac.Limits) (evaluator' evaluator : Abac.Evaluator),
      Abac.new rules' namedConditions options = .ok evaluator' →
      Abac.new rules namedConditions options = .ok evaluator →
      Stricter Abac.Rule.effect rules' rules →
      (rules ⊆ rules' ∨ ∃ outcome, evaluator.policy.Answers ctx request w outcome) →
      evaluator'.policy.Answers ctx request w' .allow →
      evaluator.policy.Answers ctx request w .allow) := by
  refine ⟨?_, ?_, ?_⟩
  · intro entries' entries options evaluator' evaluator hnew' hnew hstricter hkept
    have hfollows := Acl.follows_law hnew hctx
    refine allow_of_tightensAt (Acl.follows_law hnew' hctx) hfollows
      (Acl.law_tightensAt hnew' hstricter (hkept.imp_right ?_)) w
    rintro ⟨outcome, hanswers⟩
    exact hfollows.admits hanswers
  · intro input' input ranges' ranges options evaluator' evaluator order' order hnew' hnew
      hstricter hkept
    have hfollows := Rbac.follows_law hnew order hctx
    refine allow_of_tightensAt (Rbac.follows_law hnew' order' hctx) hfollows
      (Rbac.law_tightensAt (Rbac.new_eq_ok hnew').1 hstricter (hkept.imp_right ?_)) w
    rintro ⟨outcome, hanswers⟩
    exact hfollows.admits hanswers
  · intro rules' rules namedConditions options evaluator' evaluator hnew' hnew hstricter hkept
    have hfollows := Abac.follows_law hnew hctx
    refine allow_of_tightensAt (Abac.follows_law hnew' hctx) hfollows
      (Abac.law_tightensAt (Abac.new_eq_ok_iff.mp hnew').1 (Abac.new_eq_ok_iff.mp hnew).1
        hstricter (hkept.imp_right ?_)) w
    rintro ⟨outcome, hanswers⟩
    exact hfollows.admits hanswers

end Evaluators

/-- An entry of a user for one document. -/
def readingEntry (id resourceID : String) (effect : Outcome) : Acl.Entry where
  id := str id
  subject := ⟨str "user", str "u", [], ∅⟩
  action := str "read"
  resourceType := str "doc"
  resourceID := str resourceID
  tenant := []
  effect := effect

def readingDocument (resourceID : String) : Request :=
  ⟨⟨str "user", str "u", [], ∅⟩, str "read", ⟨str "doc", str resourceID, ∅⟩, [], {}, ∅⟩

/-- The second document is denied and the first stays allowed. -/
theorem stricter_never_grants_entry : ∃ evaluator' evaluator : Acl.Evaluator,
    Acl.new [readingEntry "a" "1" .allow, readingEntry "d" "2" .deny] [] = .ok evaluator' ∧
    Acl.new [readingEntry "a" "1" .allow] [] = .ok evaluator ∧
    Core.Evaluator.Answers evaluator'.policy (.background (W := Unit)) (readingDocument "1") ()
      .allow ∧
    Core.Evaluator.Answers evaluator.policy (.background (W := Unit)) (readingDocument "1") ()
      .allow := by
  have hnew' : Acl.new [readingEntry "a" "1" .allow, readingEntry "d" "2" .deny] [] = .ok _ := rfl
  have hnew : Acl.new [readingEntry "a" "1" .allow] [] = .ok _ := rfl
  have hstricter := Stricter.append [readingEntry "a" "1" .allow]
    (show ∀ entry ∈ [readingEntry "d" "2" .deny], entry.effect = .deny by decide)
  refine ⟨_, _, hnew', hnew, ⟨_, rfl, rfl⟩, ?_⟩
  exact (stricter_never_grants Context.quiet_background (readingDocument "1") () ()).1 _ _ _ _ _
    hnew' hnew hstricter (Or.inl (List.subset_append_left _ _)) ⟨_, rfl, rfl⟩

end Authorization
