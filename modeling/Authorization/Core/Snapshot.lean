import Authorization.Core.Decision
import Authorization.Foundation.SortedMap

/-!
# Snapshots

`snapshot.go`.  `newSnapshot` checks the definitions in order, copies them into
entries and, for priority order, sorts them.  What it checks is part of the
type `Snapshot`: the revision is positive, the algorithm is supported and the
policy identifiers are distinct.

`newSnapshot_eq_ok` is the only fact later modules use of the constructor.
-/

namespace Authorization.Core

open Authorization.Foundation

/-- `Evaluator.Evaluate` of a policy model, which may also panic. -/
abbrev Evaluator (W : Type) := Context W → Request → W → CallResult × W

/-- Metadata of a policy; a nil map reads as the empty one. -/
abbrev Metadata := SortedMap Bytes Bytes

structure PolicyDefinition (W : Type) where
  id : PolicyID
  revision : Revision := 0
  priority : Int := 0
  activeFrom : Time := .zero
  activeUntil : Time := .zero
  metadata : Metadata := ∅
  /-- `none` is the nil interface. -/
  evaluator : Option (Evaluator W)

structure PolicyEntry (W : Type) where
  id : PolicyID
  revision : Revision
  priority : Int
  activeFrom : Time
  activeUntil : Time
  metadata : Metadata
  evaluator : Evaluator W

/-- The window is `[activeFrom, activeUntil)`, a zero end unbounded. -/
def PolicyEntry.activeAt {W : Type} (policy : PolicyEntry W) (t : Time) : Bool :=
  (policy.activeFrom.isZero || !t.before policy.activeFrom) &&
    (policy.activeUntil.isZero || t.before policy.activeUntil)

/-- `PolicyInfo`: an entry without its evaluator. -/
structure PolicyInfo where
  id : PolicyID
  revision : Revision
  priority : Int
  activeFrom : Time
  activeUntil : Time
  metadata : Metadata
deriving DecidableEq

def PolicyEntry.info {W : Type} (policy : PolicyEntry W) : PolicyInfo :=
  ⟨policy.id, policy.revision, policy.priority, policy.activeFrom, policy.activeUntil,
    policy.metadata⟩

structure Snapshot (W : Type) where
  revision : Revision
  algorithm : CombiningAlgorithm
  policies : List (PolicyEntry W)
  revision_ne : revision ≠ 0
  algorithm_le : algorithm ≤ .priorityOrder
  ids_nodup : (policies.map PolicyEntry.id).Nodup

theorem revision_one_ne : (1 : Revision) ≠ 0 := by decide

theorem denyOverrides_le : CombiningAlgorithm.denyOverrides ≤ .priorityOrder := by decide

theorem firstApplicable_le : CombiningAlgorithm.firstApplicable ≤ .priorityOrder := by decide

/-- `Snapshot.Policies`. -/
def Snapshot.infos {W : Type} (snapshot : Snapshot W) : List PolicyInfo :=
  snapshot.policies.map PolicyEntry.info

/-! ### Construction -/

section Construction

variable {W : Type}

/-- The entry of a checked definition; a zero revision inherits the snapshot's. -/
def PolicyDefinition.entry (revision : Revision) (definition : PolicyDefinition W)
    (evaluator : Evaluator W) : PolicyEntry W where
  id := definition.id
  revision := if definition.revision = 0 then revision else definition.revision
  priority := definition.priority
  activeFrom := definition.activeFrom
  activeUntil := definition.activeUntil
  metadata := definition.metadata
  evaluator := evaluator

/-- The loop of `NewSnapshot`, from `index` on; `policyIDs` are the identifiers
already seen. -/
def newEntries (revision : Revision) (index : Nat) (policyIDs : List PolicyID) :
    List (PolicyDefinition W) → Except GoError (List (PolicyEntry W))
  | [] => .ok []
  | definition :: rest =>
    match definition.evaluator with
    | none => .error (.errorf [.text "policy ", .num index, .text ": "]
        (.sentinel .errInvalidPolicy))
    | some evaluator =>
      if definition.id = [] then
        .error (.errorf [.text "policy ", .num index, .text ": "] (.sentinel .errInvalidPolicy))
      else if definition.id ∈ policyIDs then
        .error (.errorf [.text "policy ", .quoted definition.id, .text ": "]
          (.sentinel .errDuplicatePolicy))
      else if !definition.activeFrom.isZero && !definition.activeUntil.isZero &&
          !definition.activeUntil.after definition.activeFrom then
        .error (.errorf [.text "policy ", .quoted definition.id, .text ": "]
          (.sentinel .errInvalidActivationWindow))
      else do
        let entries ← newEntries revision (index + 1) (definition.id :: policyIDs) rest
        return definition.entry revision evaluator :: entries

/-- What the loop accepts for one definition: its evaluator is set, its
identifier is non-empty and new, its window is not empty. -/
structure DefinitionOk (policyIDs : List PolicyID) (definition : PolicyDefinition W)
    (evaluator : Evaluator W) : Prop where
  evaluator_eq : definition.evaluator = some evaluator
  id_ne : definition.id ≠ []
  id_new : definition.id ∉ policyIDs
  window : (!definition.activeFrom.isZero && !definition.activeUntil.isZero &&
    !definition.activeUntil.after definition.activeFrom) = false

/-- One step of the loop, read both ways. -/
theorem newEntries_cons_eq_ok {revision : Revision} {index : Nat} {policyIDs : List PolicyID}
    {definition : PolicyDefinition W} {rest : List (PolicyDefinition W)}
    {entries : List (PolicyEntry W)} :
    newEntries revision index policyIDs (definition :: rest) = .ok entries ↔
      ∃ evaluator entries', DefinitionOk policyIDs definition evaluator ∧
        newEntries revision (index + 1) (definition.id :: policyIDs) rest = .ok entries' ∧
        entries = definition.entry revision evaluator :: entries' := by
  rw [newEntries]
  cases he : definition.evaluator with
  | none =>
    refine ⟨nofun, ?_⟩
    rintro ⟨evaluator, _, hok, _⟩
    rw [hok.evaluator_eq] at he
    cases he
  | some evaluator =>
    dsimp only
    constructor
    · intro h
      split at h
      · cases h
      · rename_i hid
        split at h
        · cases h
        · rename_i hnew
          split at h
          · cases h
          · rename_i hwin
            cases hrest : newEntries revision (index + 1) (definition.id :: policyIDs) rest with
            | error e => rw [hrest] at h; cases h
            | ok entries' =>
              rw [hrest] at h
              injection h with h
              exact ⟨evaluator, entries', ⟨he, hid, hnew, by simpa using hwin⟩, rfl, h.symm⟩
    · rintro ⟨evaluator', entries', hok, hrest, rfl⟩
      have hev : evaluator = evaluator' := Option.some.inj (he.symm.trans hok.evaluator_eq)
      rw [if_neg hok.id_ne, if_neg hok.id_new, if_neg (by rw [hok.window]; simp), hrest, hev]
      rfl

/-- The entries keep the identifiers, which are new and distinct. -/
theorem newEntries_ids {revision : Revision} : ∀ {definitions : List (PolicyDefinition W)}
    {index : Nat} {policyIDs : List PolicyID} {entries : List (PolicyEntry W)},
    newEntries revision index policyIDs definitions = .ok entries →
      (entries.map PolicyEntry.id).Nodup ∧ ∀ e ∈ entries, e.id ∉ policyIDs := by
  intro definitions
  induction definitions with
  | nil =>
    intro index policyIDs entries h
    rw [newEntries] at h
    cases h
    exact ⟨List.nodup_nil, by simp⟩
  | cons definition rest ih =>
    intro index policyIDs entries h
    obtain ⟨evaluator, entries', hok, hrest, rfl⟩ := newEntries_cons_eq_ok.mp h
    obtain ⟨hnd, hnew⟩ := ih hrest
    refine ⟨?_, ?_⟩
    · rw [List.map_cons, List.nodup_cons]
      refine ⟨?_, hnd⟩
      rintro hm
      obtain ⟨e, he, heq⟩ := List.mem_map.mp hm
      exact hnew e he (by rw [heq]; exact List.mem_cons_self)
    · intro e he
      rcases List.mem_cons.mp he with rfl | he
      · exact hok.id_new
      · exact fun hc => hnew e he (List.mem_cons_of_mem _ hc)

/-- The definition can be admitted, and the entry is made of it: identifier,
priority, window and metadata are the definition's, a zero revision is inherited. -/
structure PolicyDefinition.Admits (revision : Revision) (definition : PolicyDefinition W)
    (policy : PolicyEntry W) : Prop where
  evaluator : definition.evaluator = some policy.evaluator
  id_ne : definition.id ≠ []
  window : (!definition.activeFrom.isZero && !definition.activeUntil.isZero &&
    !definition.activeUntil.after definition.activeFrom) = false
  entry : policy = definition.entry revision policy.evaluator

/-- **What the loop accepts**: definitions of distinct and new identifiers, each of
which can be admitted. -/
theorem newEntries_eq_ok_iff {revision : Revision} : ∀ {definitions : List (PolicyDefinition W)}
    {index : Nat} {policyIDs : List PolicyID} {entries : List (PolicyEntry W)},
    newEntries revision index policyIDs definitions = .ok entries ↔
      (definitions.map PolicyDefinition.id).Nodup ∧
      (∀ definition ∈ definitions, definition.id ∉ policyIDs) ∧
      List.Forall₂ (PolicyDefinition.Admits revision) definitions entries := by
  intro definitions
  induction definitions with
  | nil =>
    intro index policyIDs entries
    rw [newEntries, List.forall₂_nil_left_iff]
    constructor
    · intro h
      cases h
      exact ⟨List.nodup_nil, fun _ h => absurd h List.not_mem_nil, rfl⟩
    · rintro ⟨-, -, rfl⟩
      rfl
  | cons definition rest ih =>
    intro index policyIDs entries
    rw [newEntries_cons_eq_ok, List.forall₂_cons_left_iff, List.map_cons, List.nodup_cons,
      List.forall_mem_cons]
    constructor
    · rintro ⟨evaluator, entries', hok, hrest, rfl⟩
      obtain ⟨hnodup, hnew, hadmits⟩ := ih.mp hrest
      refine ⟨⟨?_, hnodup⟩, ⟨hok.id_new, ?_⟩, _, entries', ⟨hok.evaluator_eq, hok.id_ne, hok.window,
        rfl⟩, hadmits, rfl⟩
      · intro hmem
        obtain ⟨other, hother, hid⟩ := List.mem_map.mp hmem
        exact hnew other hother (by rw [hid]; exact List.mem_cons_self)
      · exact fun other hother hmem => hnew other hother (List.mem_cons_of_mem _ hmem)
    · rintro ⟨⟨hfresh, hnodup⟩, ⟨hnew, hrest⟩, policy, entries', hadmits, hothers, rfl⟩
      refine ⟨policy.evaluator, entries', ⟨hadmits.evaluator, hadmits.id_ne, hnew, hadmits.window⟩,
        ih.mpr ⟨hnodup, ?_, hothers⟩, by rw [← hadmits.entry]⟩
      intro other hother hmem
      rcases List.mem_cons.mp hmem with hid | hmem
      · exact hfresh (hid ▸ List.mem_map_of_mem hother)
      · exact hrest other hother hmem

/-- The final order of the entries. -/
def orderPolicies (algorithm : CombiningAlgorithm) (entries : List (PolicyEntry W)) :
    List (PolicyEntry W) :=
  if algorithm = .priorityOrder then
    sortBy (PriorityLe PolicyEntry.priority PolicyEntry.id) entries
  else entries

theorem orderPolicies_perm (algorithm : CombiningAlgorithm) (entries : List (PolicyEntry W)) :
    (orderPolicies algorithm entries).Perm entries := by
  unfold orderPolicies
  split
  · exact sortBy_perm _ _
  · exact List.Perm.refl _

/-- `NewSnapshot`. -/
def newSnapshot (revision : Revision) (algorithm : CombiningAlgorithm)
    (definitions : List (PolicyDefinition W)) : Except GoError (Snapshot W) :=
  if hr : revision = 0 then .error (.sentinel .errInvalidRevision)
  else if ha : algorithm > .priorityOrder then
    -- `Combine(algorithm, nil)` fails on the algorithm alone
    .error (.sentinel .errInvalidCombiningAlgorithm)
  else match he : newEntries revision 0 [] definitions with
    | .error err => .error err
    | .ok entries => .ok {
        revision := revision
        algorithm := algorithm
        policies := orderPolicies algorithm entries
        revision_ne := hr
        algorithm_le := not_lt.mp ha
        ids_nodup := ((orderPolicies_perm algorithm entries).map _).nodup_iff.mpr
          (newEntries_ids he).1 }

/-- **What `NewSnapshot` accepts and what it builds.** -/
theorem newSnapshot_eq_ok {revision : Revision} {algorithm : CombiningAlgorithm}
    {definitions : List (PolicyDefinition W)} {snapshot : Snapshot W} :
    newSnapshot revision algorithm definitions = .ok snapshot ↔
      revision ≠ 0 ∧ algorithm ≤ .priorityOrder ∧
      ∃ entries, newEntries revision 0 [] definitions = .ok entries ∧
        snapshot.revision = revision ∧ snapshot.algorithm = algorithm ∧
        snapshot.policies = orderPolicies algorithm entries := by
  unfold newSnapshot
  constructor
  · intro h
    split at h
    · cases h
    · rename_i hr
      split at h
      · cases h
      · rename_i ha
        split at h
        · cases h
        · rename_i entries he
          injection h with h
          subst h
          exact ⟨hr, not_lt.mp ha, entries, he, rfl, rfl, rfl⟩
  · rintro ⟨hr, ha, entries, he, h1, h2, h3⟩
    rw [dif_neg hr, dif_neg (not_lt.mpr ha)]
    split
    · rename_i he'; rw [he] at he'; cases he'
    · rename_i entries' he'
      rw [he] at he'
      cases he'
      obtain ⟨r, a, ps, _, _, _⟩ := snapshot
      simp only at h1 h2 h3
      subst h1 h2 h3
      rfl

/-! ### Evaluators do not matter -/

/-- Two definitions that differ in their evaluators only, both set or both nil. -/
structure PolicyDefinition.SameInfo (definition definition' : PolicyDefinition W) : Prop where
  fields : definition' = { definition with evaluator := definition'.evaluator }
  evaluator : definition'.evaluator.isSome = definition.evaluator.isSome

theorem PolicyDefinition.SameInfo.id_eq {definition definition' : PolicyDefinition W}
    (h : definition.SameInfo definition') : definition'.id = definition.id := by
  rw [h.fields]

theorem PolicyDefinition.SameInfo.definitionOk {definition definition' : PolicyDefinition W}
    (h : definition.SameInfo definition') {policyIDs : List PolicyID} {evaluator : Evaluator W}
    (hok : DefinitionOk policyIDs definition evaluator) :
    ∃ evaluator', DefinitionOk policyIDs definition' evaluator' := by
  have hsome : definition'.evaluator.isSome = true := by
    rw [h.evaluator, hok.evaluator_eq]
    rfl
  obtain ⟨evaluator', he⟩ := Option.isSome_iff_exists.mp hsome
  refine ⟨evaluator', he, ?_, ?_, ?_⟩
  · rw [h.fields]; exact hok.id_ne
  · rw [h.fields]; exact hok.id_new
  · rw [h.fields]; exact hok.window

theorem newEntries_sameInfo {revision : Revision} : ∀ {definitions definitions' : List (PolicyDefinition W)}
    {index : Nat} {policyIDs : List PolicyID} {entries : List (PolicyEntry W)},
    List.Forall₂ PolicyDefinition.SameInfo definitions definitions' →
    newEntries revision index policyIDs definitions = .ok entries →
    ∃ entries', newEntries revision index policyIDs definitions' = .ok entries' ∧
      entries'.map PolicyEntry.info = entries.map PolicyEntry.info := by
  intro definitions
  induction definitions with
  | nil =>
    intro definitions' index policyIDs entries hsame h
    cases hsame
    exact ⟨entries, h, rfl⟩
  | cons definition rest ih =>
    intro definitions' index policyIDs entries hsame h
    cases hsame with
    | cons hfirst hrest =>
      obtain ⟨evaluator, entries₁, hok, hentries, rfl⟩ := newEntries_cons_eq_ok.mp h
      obtain ⟨evaluator', hok'⟩ := hfirst.definitionOk hok
      obtain ⟨entries₁', hentries', hinfo⟩ := ih hrest hentries
      refine ⟨_, newEntries_cons_eq_ok.mpr ⟨evaluator', entries₁', hok', ?_, rfl⟩, ?_⟩
      · rw [hfirst.id_eq]; exact hentries'
      · rw [List.map_cons, List.map_cons, hinfo, hfirst.fields]
        rfl

theorem map_info_orderPolicies (algorithm : CombiningAlgorithm) (entries : List (PolicyEntry W)) :
    (orderPolicies algorithm entries).map PolicyEntry.info
      = if algorithm = .priorityOrder then
          sortBy (PriorityLe PolicyInfo.priority PolicyInfo.id) (entries.map PolicyEntry.info)
        else entries.map PolicyEntry.info := by
  unfold orderPolicies
  split
  · exact List.map_insertionSort _ _ _ _ fun _ _ _ _ => Iff.rfl
  · rfl

/-- **The infos of a snapshot do not depend on the evaluators.** -/
theorem newSnapshot_sameInfo {revision : Revision} {algorithm : CombiningAlgorithm}
    {definitions definitions' : List (PolicyDefinition W)} {snapshot : Snapshot W}
    (hsame : List.Forall₂ PolicyDefinition.SameInfo definitions definitions')
    (h : newSnapshot revision algorithm definitions = .ok snapshot) :
    ∃ snapshot', newSnapshot revision algorithm definitions' = .ok snapshot' ∧
      snapshot'.revision = snapshot.revision ∧ snapshot'.algorithm = snapshot.algorithm ∧
      snapshot'.infos = snapshot.infos := by
  obtain ⟨hr, ha, entries, hentries, h1, h2, h3⟩ := newSnapshot_eq_ok.mp h
  obtain ⟨entries', hentries', hinfo⟩ := newEntries_sameInfo hsame hentries
  refine ⟨{
    revision := revision
    algorithm := algorithm
    policies := orderPolicies algorithm entries'
    revision_ne := hr
    algorithm_le := ha
    ids_nodup := ((orderPolicies_perm algorithm entries').map _).nodup_iff.mpr
      (newEntries_ids hentries').1 },
    newSnapshot_eq_ok.mpr ⟨hr, ha, entries', hentries', rfl, rfl, rfl⟩, h1.symm, h2.symm, ?_⟩
  show (orderPolicies algorithm entries').map PolicyEntry.info
    = snapshot.policies.map PolicyEntry.info
  rw [h3, map_info_orderPolicies, map_info_orderPolicies, hinfo]

theorem newSnapshot_revision {revision : Revision} {algorithm : CombiningAlgorithm}
    {definitions : List (PolicyDefinition W)} {snapshot : Snapshot W}
    (h : newSnapshot revision algorithm definitions = .ok snapshot) :
    snapshot.revision = revision := by
  obtain ⟨_, _, _, _, hr, _⟩ := newSnapshot_eq_ok.mp h
  exact hr

end Construction

end Authorization.Core
