import Authorization.Core.Match
import Authorization.Core.Snapshot

/-!
# Access control lists

`acl/acl.go`.  Entries are indexed by subject, action and resource type; an
evaluation looks up the subject and each of its groups once and collects what
matches the tenant and the resource.  A listing collects the instances the
entries allow, unless an entry covers the whole type.

Both loops look at a bucket only through the entries visible to the tenant:
`evaluate_congr` and `listResourceIDs_congr` reduce an evaluation to what the
index shows of one tenant.  `evaluate_reordered` is what remains when a tenant
sees the same entries in another order.
-/

namespace Authorization.Acl

open Authorization.Foundation Authorization.Core

abbrev EntryID := PolicyID

def reasons : MatchReasons where
  allow := str "acl-allow"
  explicitDeny := str "acl-explicit-deny"
  limitExceeded := str "acl-limit-exceeded"

structure Limits where
  maxEntries : Int := 10000
  maxGroups : Int := 100
  maxMatches : Int := 100
  maxBatchSize : Int := 1000
deriving DecidableEq

structure Entry where
  id : EntryID
  subject : Subject
  action : Action
  resourceType : ResourceType
  /-- Empty for the whole type. -/
  resourceID : ResourceID := []
  /-- Empty for a global entry. -/
  tenant : TenantID := []
  effect : Outcome
deriving DecidableEq

structure EntryKey where
  subjectKind : SubjectKind
  subjectID : SubjectID
  action : Action
  resourceType : ResourceType
deriving DecidableEq

structure Evaluator where
  entries : GoMap EntryKey (List Entry)
  inheritGlobal : Bool
  limits : Limits

inductive AclOption
  | withGlobalInheritance
  | withLimits (limits : Limits)

/-- `WithLimits`. -/
def Limits.withLimits (override current : Limits) : Limits where
  maxEntries := overrideLimit override.maxEntries current.maxEntries
  maxGroups := overrideLimit override.maxGroups current.maxGroups
  maxMatches := overrideLimit override.maxMatches current.maxMatches
  maxBatchSize := overrideLimit override.maxBatchSize current.maxBatchSize

def AclOption.apply (evaluator : Evaluator) : AclOption → Evaluator
  | .withGlobalInheritance => { evaluator with inheritGlobal := true }
  | .withLimits limits => { evaluator with limits := limits.withLimits evaluator.limits }

def Entry.key (entry : Entry) : EntryKey :=
  ⟨entry.subject.kind, entry.subject.id, entry.action, entry.resourceType⟩

/-- The checks of `New` on one entry. -/
def checkEntry (index : Nat) (entryIDs : List EntryID) (entry : Entry) : Option GoError :=
  if entry.id = [] ∨ entry.subject.kind = [] ∨ entry.subject.id = [] ∨ entry.action = [] ∨
      entry.resourceType = [] ∨ (entry.effect ≠ .allow ∧ entry.effect ≠ .deny) then
    some (.errorf [.text "entry ", .num index, .text ": "] (.sentinel .aclErrInvalidEntry))
  else if entry.id ∈ entryIDs then
    some (.errorf [.text "entry ", .quoted entry.id, .text ": "]
      (.sentinel .aclErrDuplicateEntry))
  else none

/-- What the options make of the defaults. -/
def configured (options : List AclOption) : Evaluator :=
  options.foldl AclOption.apply ⟨∅, false, {}⟩

/-- `New`. -/
def new (entries : List Entry) (options : List AclOption) : Except GoError Evaluator :=
  let evaluator := configured options
  if entries.length > evaluator.limits.maxEntries then
    .error (.sentinel .aclErrEntryLimitExceeded)
  else
    match checkEach Entry.id checkEntry 0 [] entries with
    | some err => .error err
    | none => .ok { evaluator with entries := groupBy Entry.key entries }

/-- `matchesTenant`. -/
def matchesTenant (inheritGlobal : Bool) (entryTenant requestTenant : TenantID) : Bool :=
  if entryTenant = requestTenant then true
  else if requestTenant = [] then false
  else if entryTenant ≠ [] then false
  else inheritGlobal

/-! ### Evaluation -/

def principalKey (action : Action) (resourceType : ResourceType) (principal : Subject) : EntryKey :=
  ⟨principal.kind, principal.id, action, resourceType⟩

def Entry.matchesResource (entry : Entry) (resourceID : ResourceID) : Bool :=
  entry.resourceID = [] || entry.resourceID = resourceID

/-- The loop over one bucket; `none` at the match limit. -/
def evaluateEntries (evaluator : Evaluator) (request : Request) :
    Decision → List Entry → Option Decision
  | decision, [] => some decision
  | decision, entry :: rest =>
    if !matchesTenant evaluator.inheritGlobal entry.tenant request.tenant ||
        !entry.matchesResource request.resource.id then
      evaluateEntries evaluator request decision rest
    else
      match recordMatch reasons evaluator.limits.maxMatches decision (entry.id, entry.effect) with
      | none => none
      | some decision => evaluateEntries evaluator request decision rest

def canceledDecision : Decision := { outcome := .deny, reason := reasonContextCanceled }

section Evaluate

variable {W : Type}

/-- The loop over the principals; `seenPrincipals` are the keys already used. -/
def evaluatePrincipals (evaluator : Evaluator) (ctx : Context W) (request : Request) :
    List Subject → List EntryKey → Decision → W → (Decision × Option GoError) × W
  | [], _, decision, w => ((decision, none), w)
  | principal :: rest, seenPrincipals, decision, w =>
    match ctx.err w with
    | (some err, w) => ((canceledDecision, some err), w)
    | (none, w) =>
      let key := principalKey request.action request.resource.type principal
      if key ∈ seenPrincipals then
        evaluatePrincipals evaluator ctx request rest seenPrincipals decision w
      else
        match evaluateEntries evaluator request decision (bucket evaluator.entries key) with
        | none => ((reasons.limitDecision, some (.sentinel .aclErrMatchLimitExceeded)), w)
        | some decision =>
          evaluatePrincipals evaluator ctx request rest (key :: seenPrincipals) decision w

/-- `Evaluate`. -/
def Evaluator.evaluate (evaluator : Evaluator) (ctx : Context W) (request : Request) (w : W) :
    (Decision × Option GoError) × W :=
  match ctx.err w with
  | (some err, w) => ((canceledDecision, some err), w)
  | (none, w) =>
    if request.subject.groups.length > evaluator.limits.maxGroups then
      ((reasons.limitDecision, some (.sentinel .aclErrGroupLimitExceeded)), w)
    else evaluatePrincipals evaluator ctx request (principals request.subject) [] {} w

/-- `EvaluateBatch`. -/
def Evaluator.evaluateBatch (evaluator : Evaluator) (ctx : Context W) (requests : List Request)
    (w : W) : BatchResult × W :=
  Core.evaluateBatch evaluator.limits.maxBatchSize .aclErrBatchLimitExceeded
    (fun _ request w => CallResult.ofPair (evaluator.evaluate ctx request w)) requests w

/-! ### Listing -/

/-- `principalKeys`: the keys without repetitions. -/
def principalKeys (action : Action) (resourceType : ResourceType) :
    List EntryKey → List Subject → List EntryKey
  | _, [] => []
  | seen, principal :: rest =>
    let key := principalKey action resourceType principal
    if key ∈ seen then principalKeys action resourceType seen rest
    else key :: principalKeys action resourceType (key :: seen) rest

structure ListState where
  resourceEffects : GoMap ResourceID Outcome := ∅
  typeWideAllow : Bool := false
  matches' : Nat := 0

/-- One visible entry of a listing; an error is an early return. -/
def listEntry (maxMatches : Int) (state : ListState) (entry : Entry) :
    Except (Except GoError (List ResourceID)) ListState :=
  if state.matches' ≥ maxMatches then .error (.error (.sentinel .aclErrMatchLimitExceeded))
  else
    let state := { state with matches' := state.matches' + 1 }
    if entry.resourceID = [] then
      if entry.effect = .deny then .error (.ok []) else .ok { state with typeWideAllow := true }
    else if entry.effect = .deny ∨
        (state.resourceEffects.lookup entry.resourceID).getD .notApplicable = .notApplicable then
      .ok { state with
        resourceEffects := state.resourceEffects.insert entry.resourceID entry.effect }
    else .ok state

/-- The loop over one bucket. -/
def listEntries (evaluator : Evaluator) (tenant : TenantID) :
    ListState → List Entry → Except (Except GoError (List ResourceID)) ListState
  | state, [] => .ok state
  | state, entry :: rest =>
    if matchesTenant evaluator.inheritGlobal entry.tenant tenant then do
      let state ← listEntry evaluator.limits.maxMatches state entry
      listEntries evaluator tenant state rest
    else listEntries evaluator tenant state rest

/-- The end of `ListResourceIDs`: the allowed instances, sorted. -/
def listed (order : MapRange ResourceID) (state : ListState) : Except GoError (List ResourceID) :=
  if state.typeWideAllow then .error (.sentinel .aclErrUnboundedResourceSet)
  else .ok (sortBy (· ≤ ·) ((order.order state.resourceEffects.keys).filter fun resourceID =>
    state.resourceEffects.lookup resourceID = some .allow))

/-- The loop over the keys. -/
def listKeys (evaluator : Evaluator) (order : MapRange ResourceID) (ctx : Context W)
    (tenant : TenantID) : List EntryKey → ListState → W → Except GoError (List ResourceID) × W
  | [], state, w => (listed order state, w)
  | key :: rest, state, w =>
    match ctx.err w with
    | (some err, w) => (.error err, w)
    | (none, w) =>
      match listEntries evaluator tenant state (bucket evaluator.entries key) with
      | .error early => (early, w)
      | .ok state => listKeys evaluator order ctx tenant rest state w

/-- `ListResourceIDs`; `order` is the order in which the runtime ranges over the
map of effects. -/
def Evaluator.listResourceIDs (evaluator : Evaluator) (order : MapRange ResourceID)
    (ctx : Context W) (subject : Subject) (action : Action) (resourceType : ResourceType)
    (tenant : TenantID) (w : W) : Except GoError (List ResourceID) × W :=
  match ctx.err w with
  | (some err, w) => (.error err, w)
  | (none, w) =>
    if subject.groups.length > evaluator.limits.maxGroups then
      (.error (.sentinel .aclErrGroupLimitExceeded), w)
    else listKeys evaluator order ctx tenant
      (principalKeys action resourceType [] (principals subject)) {} w

end Evaluate

/-! ### What a tenant sees -/

/-- The entries visible to a tenant, in list order. -/
def visible (inheritGlobal : Bool) (tenant : TenantID) (entries : List Entry) : List Entry :=
  entries.filter fun entry => matchesTenant inheritGlobal entry.tenant tenant

/-- The identifiers and effects of the entries that match a request's resource. -/
def matched (request : Request) (entries : List Entry) : List (PolicyID × Outcome) :=
  (entries.filter fun entry => entry.matchesResource request.resource.id).map fun entry =>
    (entry.id, entry.effect)

/-- The evaluation of a bucket sees the visible entries only. -/
theorem evaluateEntries_eq (evaluator : Evaluator) (request : Request) : ∀ (entries : List Entry)
    (decision : Decision), evaluateEntries evaluator request decision entries
      = recordAll reasons evaluator.limits.maxMatches decision
          (matched request (visible evaluator.inheritGlobal request.tenant entries)) := by
  intro entries
  induction entries with
  | nil => intro decision; rfl
  | cons entry rest ih =>
    intro decision
    rw [evaluateEntries]
    by_cases ht : matchesTenant evaluator.inheritGlobal entry.tenant request.tenant
    · rw [visible, List.filter_cons_of_pos (by simpa using ht), ← visible]
      by_cases hr : entry.matchesResource request.resource.id
      · rw [if_neg (by simp [ht, hr]), matched, List.filter_cons_of_pos (by simpa using hr),
          List.map_cons, ← matched, recordAll]
        cases recordMatch reasons evaluator.limits.maxMatches decision (entry.id, entry.effect) with
        | none => rfl
        | some decision => exact ih decision
      · rw [if_pos (by simp [hr]), matched, List.filter_cons_of_neg (by simpa using hr), ← matched]
        exact ih decision
    · rw [if_pos (by simp [ht]), visible, List.filter_cons_of_neg (by simpa using ht), ← visible]
      exact ih decision

/-- So does the listing of a bucket. -/
theorem listEntries_visible (evaluator : Evaluator) (tenant : TenantID) : ∀ (entries : List Entry)
    (state : ListState), listEntries evaluator tenant state entries
      = (visible evaluator.inheritGlobal tenant entries).foldlM
          (listEntry evaluator.limits.maxMatches) state := by
  intro entries
  induction entries with
  | nil => intro state; rfl
  | cons entry rest ih =>
    intro state
    rw [listEntries]
    by_cases ht : matchesTenant evaluator.inheritGlobal entry.tenant tenant
    · rw [if_pos ht, visible, List.filter_cons_of_pos (by simpa using ht), ← visible,
        List.foldlM_cons]
      congr 1
      funext state'
      exact ih state'
    · rw [if_neg ht, visible, List.filter_cons_of_neg (by simpa using ht), ← visible]
      exact ih state

/-- What `New` accepts is indexed by key; the options decide the rest. -/
theorem new_eq_ok {entries : List Entry} {options : List AclOption} {evaluator : Evaluator}
    (h : new entries options = .ok evaluator) :
    evaluator = { configured options with entries := groupBy Entry.key entries } := by
  unfold new at h
  dsimp only at h
  split at h
  · cases h
  · split at h
    · cases h
    · injection h with h
      exact h.symm

/-- The fields `New` insists on. -/
structure Entry.Complete (entry : Entry) : Prop where
  id : entry.id ≠ []
  kind : entry.subject.kind ≠ []
  subject : entry.subject.id ≠ []
  action : entry.action ≠ []
  resourceType : entry.resourceType ≠ []
  effect : entry.effect = .allow ∨ entry.effect = .deny

theorem checkEntry_eq_none_iff (index : Nat) (entryIDs : List EntryID) (entry : Entry) :
    checkEntry index entryIDs entry = none ↔ entry.Complete ∧ entry.id ∉ entryIDs := by
  unfold checkEntry
  split
  · rename_i hfields
    refine ⟨fun h => absurd h (Option.some_ne_none _), ?_⟩
    rintro ⟨⟨hid, hkind, hsubject, haction, htype, heffect⟩, -⟩
    rcases hfields with h | h | h | h | h | ⟨hallow, hdeny⟩
    · exact absurd h hid
    · exact absurd h hkind
    · exact absurd h hsubject
    · exact absurd h haction
    · exact absurd h htype
    · exact absurd heffect (not_or.mpr ⟨hallow, hdeny⟩)
  · rename_i hfields
    simp only [not_or] at hfields
    obtain ⟨hid, hkind, hsubject, haction, htype, heffect⟩ := hfields
    have hcomplete : entry.Complete :=
      ⟨hid, hkind, hsubject, haction, htype, by by_contra h; exact heffect (not_or.mp h)⟩
    split
    · rename_i hseen
      exact ⟨fun h => absurd h (Option.some_ne_none _), fun h => absurd hseen h.2⟩
    · rename_i hseen
      exact ⟨fun _ => ⟨hcomplete, hseen⟩, fun _ => rfl⟩

/-- **What `New` accepts**: not too many entries, all complete, of distinct
identifiers. -/
theorem new_eq_ok_iff {entries : List Entry} {options : List AclOption} {evaluator : Evaluator} :
    new entries options = .ok evaluator ↔
      ((entries.length : Int) ≤ (configured options).limits.maxEntries ∧
        (entries.map Entry.id).Nodup ∧ ∀ entry ∈ entries, entry.Complete) ∧
      evaluator = { configured options with entries := groupBy Entry.key entries } := by
  have hchecks : checkEach Entry.id checkEntry 0 [] entries = none ↔
      (entries.map Entry.id).Nodup ∧ ∀ entry ∈ entries, entry.Complete := by
    rw [checkEach_eq_none_iff checkEntry_eq_none_iff]
    exact ⟨fun h => ⟨h.1, h.2.2⟩, fun h => ⟨h.1, fun _ _ => List.not_mem_nil, h.2⟩⟩
  constructor
  · intro h
    refine ⟨?_, new_eq_ok h⟩
    unfold new at h
    dsimp only at h
    split at h
    · cases h
    · rename_i hcount
      split at h
      · cases h
      · rename_i hchecked
        exact ⟨by omega, hchecks.mp hchecked⟩
  · rintro ⟨⟨hcount, hentries⟩, rfl⟩
    unfold new
    dsimp only
    rw [if_neg (by omega), hchecks.mpr hentries]

/-- What a tenant sees of a bucket is the bucket of what it sees. -/
theorem visible_bucket (inheritGlobal : Bool) (tenant : TenantID) (entries : List Entry)
    (key : EntryKey) :
    visible inheritGlobal tenant (bucket (groupBy Entry.key entries) key)
      = (visible inheritGlobal tenant entries).filter (fun entry => entry.key = key) := by
  rw [bucket_groupBy, visible, visible, List.filter_filter, List.filter_filter]
  congr 1
  funext entry
  exact Bool.and_comm _ _

section Congruence

variable {W : Type} {limits : Limits} {inheritGlobal : Bool} {m m' : GoMap EntryKey (List Entry)}

/-- Two indexes that show the request's tenant the same are evaluated alike. -/
theorem evaluatePrincipals_congr (ctx : Context W) (request : Request)
    (h : ∀ key, visible inheritGlobal request.tenant (bucket m key)
      = visible inheritGlobal request.tenant (bucket m' key)) :
    ∀ (principals : List Subject) (seen : List EntryKey) (decision : Decision) (w : W),
      evaluatePrincipals ⟨m, inheritGlobal, limits⟩ ctx request principals seen decision w
        = evaluatePrincipals ⟨m', inheritGlobal, limits⟩ ctx request principals seen decision w := by
  intro principals
  induction principals with
  | nil => intro seen decision w; rfl
  | cons principal rest ih =>
    intro seen decision w
    rw [evaluatePrincipals, evaluatePrincipals]
    rcases ctx.err w with ⟨_ | err, w'⟩
    · dsimp only
      split
      · exact ih seen decision w'
      · rw [evaluateEntries_eq, evaluateEntries_eq]
        dsimp only
        rw [h]
        split
        · rfl
        · exact ih _ _ w'
    · rfl

theorem evaluate_congr (ctx : Context W) (request : Request)
    (h : ∀ key, visible inheritGlobal request.tenant (bucket m key)
      = visible inheritGlobal request.tenant (bucket m' key)) (w : W) :
    Evaluator.evaluate ⟨m, inheritGlobal, limits⟩ ctx request w
      = Evaluator.evaluate ⟨m', inheritGlobal, limits⟩ ctx request w := by
  unfold Evaluator.evaluate
  simp only [evaluatePrincipals_congr ctx request h]

/-- Two indexes that show the tenant the same in another order are evaluated
alike but for the order of the identifiers. -/
theorem evaluatePrincipals_reordered (ctx : Context W) (request : Request)
    (h : ∀ key, (visible inheritGlobal request.tenant (bucket m key)).Perm
      (visible inheritGlobal request.tenant (bucket m' key))) :
    ∀ (principals : List Subject) (seen : List EntryKey) (d d' : Decision) (w : W),
      d.Reordered d' →
      let left := evaluatePrincipals ⟨m, inheritGlobal, limits⟩ ctx request principals seen d w
      let right := evaluatePrincipals ⟨m', inheritGlobal, limits⟩ ctx request principals seen d' w
      left.1.1.Reordered right.1.1 ∧ left.1.2 = right.1.2 ∧ left.2 = right.2 := by
  intro principals
  induction principals with
  | nil => intro seen d d' w hd; exact ⟨hd, rfl, rfl⟩
  | cons principal rest ih =>
    intro seen d d' w hd
    simp only [evaluatePrincipals]
    rcases ctx.err w with ⟨_ | err, w'⟩
    · dsimp only
      by_cases hseen : principalKey request.action request.resource.type principal ∈ seen
      · rw [if_pos hseen, if_pos hseen]
        exact ih seen d d' w' hd
      · rw [if_neg hseen, if_neg hseen, evaluateEntries_eq, evaluateEntries_eq]
        have hp : (matched request (visible inheritGlobal request.tenant
            (bucket m (principalKey request.action request.resource.type principal)))).Perm
            (matched request (visible inheritGlobal request.tenant
              (bucket m' (principalKey request.action request.resource.type principal)))) :=
          ((h _).filter _).map _
        rcases recordAll_reordered reasons limits.maxMatches hd hp with
          ⟨h1, h2⟩ | ⟨e, e', h1, h2, he⟩
        · dsimp only
          rw [h1, h2]
          exact ⟨Decision.Reordered.refl _, rfl, rfl⟩
        · dsimp only
          rw [h1, h2]
          exact ih _ e e' w' he
    · exact ⟨Decision.Reordered.refl _, rfl, rfl⟩

theorem evaluate_reordered (ctx : Context W) (request : Request)
    (h : ∀ key, (visible inheritGlobal request.tenant (bucket m key)).Perm
      (visible inheritGlobal request.tenant (bucket m' key))) (w : W) :
    let left := Evaluator.evaluate ⟨m, inheritGlobal, limits⟩ ctx request w
    let right := Evaluator.evaluate ⟨m', inheritGlobal, limits⟩ ctx request w
    left.1.1.Reordered right.1.1 ∧ left.1.2 = right.1.2 ∧ left.2 = right.2 := by
  unfold Evaluator.evaluate
  rcases ctx.err w with ⟨_ | err, w'⟩
  · dsimp only
    split
    · exact ⟨Decision.Reordered.refl _, rfl, rfl⟩
    · exact evaluatePrincipals_reordered ctx request h _ _ _ _ w' (Decision.Reordered.refl _)
  · exact ⟨Decision.Reordered.refl _, rfl, rfl⟩

/-- The order of a range does not show in a sorted listing. -/
theorem listed_order (order order' : MapRange ResourceID) (state : ListState) :
    listed order state = listed order' state := by
  unfold listed
  split
  · rfl
  · have hp : ((order.order state.resourceEffects.keys).filter fun resourceID =>
        state.resourceEffects.lookup resourceID = some .allow).Perm
        ((order'.order state.resourceEffects.keys).filter fun resourceID =>
          state.resourceEffects.lookup resourceID = some .allow) :=
      ((order.perm _).trans (order'.perm _).symm).filter _
    rw [sortBy_eq_of_perm _ hp (fun a _ b _ => le_antisymm)]

theorem listKeys_congr (order order' : MapRange ResourceID) (ctx : Context W) (tenant : TenantID)
    (h : ∀ key, visible inheritGlobal tenant (bucket m key)
      = visible inheritGlobal tenant (bucket m' key)) :
    ∀ (keys : List EntryKey) (state : ListState) (w : W),
      listKeys ⟨m, inheritGlobal, limits⟩ order ctx tenant keys state w
        = listKeys ⟨m', inheritGlobal, limits⟩ order' ctx tenant keys state w := by
  intro keys
  induction keys with
  | nil => intro state w; rw [listKeys, listKeys, listed_order order order']
  | cons key rest ih =>
    intro state w
    rw [listKeys, listKeys]
    rcases ctx.err w with ⟨_ | err, w'⟩
    · dsimp only
      rw [listEntries_visible, listEntries_visible]
      dsimp only
      rw [h]
      split
      · rfl
      · exact ih _ w'
    · rfl

theorem listResourceIDs_congr (order order' : MapRange ResourceID) (ctx : Context W)
    (subject : Subject) (action : Action) (resourceType : ResourceType) (tenant : TenantID)
    (h : ∀ key, visible inheritGlobal tenant (bucket m key)
      = visible inheritGlobal tenant (bucket m' key)) (w : W) :
    Evaluator.listResourceIDs ⟨m, inheritGlobal, limits⟩ order ctx subject action resourceType
        tenant w
      = Evaluator.listResourceIDs ⟨m', inheritGlobal, limits⟩ order' ctx subject action
          resourceType tenant w := by
  unfold Evaluator.listResourceIDs
  simp only [listKeys_congr order order' ctx tenant h]

end Congruence

end Authorization.Acl
