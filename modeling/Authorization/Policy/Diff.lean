import Authorization.Core.Snapshot
import Authorization.Foundation.Difference
import Authorization.Foundation.GoMap

/-!
# Differences of snapshots

`Diff` of `policy/policy.go`.  To it a snapshot is a map from identifiers to infos,
and two infos are the same when their instants are: zones do not count, and a nil
map of metadata is an empty one.  So a snapshot shows a partial function
(`shows`), and a report lists where two of them differ, and how
(`Reports`).

The lists are filled in the order in which the runtime ranges over the maps, and
sorted afterwards.  As they are strictly increasing their members determine them,
which leaves nothing of that order.
-/

namespace Authorization.Policy

open Authorization.Foundation Authorization.Core

variable {W : Type}

structure SnapshotDiff where
  fromRevision : Revision
  toRevision : Revision
  algorithmChanged : Bool
  added : List PolicyID := []
  removed : List PolicyID := []
  changed : List PolicyID := []
deriving DecidableEq

def indexPolicies (policies : List PolicyInfo) : GoMap PolicyID PolicyInfo :=
  indexBy PolicyInfo.id policies

def policyInfoEqual (left right : PolicyInfo) : Bool :=
  left.revision == right.revision &&
    left.priority == right.priority && left.activeFrom.equal right.activeFrom &&
    left.activeUntil.equal right.activeUntil && left.metadata == right.metadata

def sortPolicyIDs (ids : List PolicyID) : List PolicyID := sortBy (· ≤ ·) ids

/-- The first loop, over the current policies. -/
def compareCurrent (currentPolicies candidatePolicies : GoMap PolicyID PolicyInfo) :
    List PolicyID → SnapshotDiff → SnapshotDiff
  | [], diff => diff
  | id :: rest, diff =>
    match currentPolicies.lookup id with
    -- a range yields keys with a value
    | none => compareCurrent currentPolicies candidatePolicies rest diff
    | some currentPolicy =>
      match candidatePolicies.lookup id with
      | none =>
        compareCurrent currentPolicies candidatePolicies rest
          { diff with removed := diff.removed ++ [id] }
      | some candidatePolicy =>
        if !policyInfoEqual currentPolicy candidatePolicy then
          compareCurrent currentPolicies candidatePolicies rest
            { diff with changed := diff.changed ++ [id] }
        else compareCurrent currentPolicies candidatePolicies rest diff

/-- The second loop, over the candidate policies. -/
def compareCandidate (currentPolicies : GoMap PolicyID PolicyInfo) :
    List PolicyID → SnapshotDiff → SnapshotDiff
  | [], diff => diff
  | id :: rest, diff =>
    match currentPolicies.lookup id with
    | none => compareCandidate currentPolicies rest { diff with added := diff.added ++ [id] }
    | some _ => compareCandidate currentPolicies rest diff

/-- `Diff`; the two maps are ranged over in the orders given. -/
def diff (currentRange candidateRange : MapRange PolicyID) (current candidate : Option (Snapshot W)) :
    Except GoError SnapshotDiff :=
  match current with
  | none => .error (.sentinel .policyErrNilSnapshot)
  | some current =>
    match candidate with
    | none => .error (.sentinel .policyErrNilSnapshot)
    | some candidate =>
      let currentPolicies := indexPolicies current.infos
      let candidatePolicies := indexPolicies candidate.infos
      let report := compareCurrent currentPolicies candidatePolicies
        (currentRange.order currentPolicies.keys)
        { fromRevision := current.revision
          toRevision := candidate.revision
          algorithmChanged := current.algorithm != candidate.algorithm }
      let report := compareCandidate currentPolicies
        (candidateRange.order candidatePolicies.keys) report
      .ok { report with
        added := sortPolicyIDs report.added
        removed := sortPolicyIDs report.removed
        changed := sortPolicyIDs report.changed }

/-! ### What a snapshot shows -/

/-- An info with its times in UTC. -/
def normalInfo (info : PolicyInfo) : PolicyInfo :=
  { info with activeFrom := info.activeFrom.utc, activeUntil := info.activeUntil.utc }

theorem utc_eq_iff {t u : Time} : t.utc = u.utc ↔ t.equal u = true := by
  simp [Time.utc, Time.equal]

/-- Infos that are equal to `policyInfoEqual` are those with the same instants. -/
theorem policyInfoEqual_iff {left right : PolicyInfo} (hid : left.id = right.id) :
    policyInfoEqual left right = true ↔ normalInfo left = normalInfo right := by
  simp only [policyInfoEqual, normalInfo, Bool.and_eq_true, beq_iff_eq, PolicyInfo.mk.injEq,
    utc_eq_iff, hid, true_and, and_assoc]

/-- The info a snapshot shows under an identifier. -/
def shows (snapshot : Snapshot W) (id : PolicyID) : Option PolicyInfo :=
  ((indexPolicies snapshot.infos).lookup id).map normalInfo

theorem infos_ids_nodup (snapshot : Snapshot W) :
    (snapshot.infos.map PolicyInfo.id).Nodup := by
  have hids : snapshot.infos.map PolicyInfo.id = snapshot.policies.map PolicyEntry.id := by
    rw [Snapshot.infos, List.map_map]
    rfl
  rw [hids]
  exact snapshot.ids_nodup

theorem lookup_indexPolicies {snapshot : Snapshot W} {id : PolicyID} {info : PolicyInfo} :
    (indexPolicies snapshot.infos).lookup id = some info ↔
      info ∈ snapshot.infos ∧ info.id = id :=
  lookup_indexBy (infos_ids_nodup snapshot)

theorem shows_eq_some {snapshot : Snapshot W} {id : PolicyID} {info : PolicyInfo} :
    shows snapshot id = some info ↔
      ∃ policy ∈ snapshot.infos, policy.id = id ∧ normalInfo policy = info := by
  rw [shows, Option.map_eq_some_iff]
  constructor
  · rintro ⟨policy, hlookup, heq⟩
    obtain ⟨hmem, hid⟩ := lookup_indexPolicies.mp hlookup
    exact ⟨policy, hmem, hid, heq⟩
  · rintro ⟨policy, hmem, hid, heq⟩
    exact ⟨policy, lookup_indexPolicies.mpr ⟨hmem, hid⟩, heq⟩

theorem shows_ne_none {snapshot : Snapshot W} {id : PolicyID} :
    (∃ info, shows snapshot id = some info) ↔ id ∈ snapshot.infos.map PolicyInfo.id := by
  rw [List.mem_map]
  constructor
  · rintro ⟨info, h⟩
    obtain ⟨policy, hmem, hid, -⟩ := shows_eq_some.mp h
    exact ⟨policy, hmem, hid⟩
  · rintro ⟨policy, hmem, hid⟩
    exact ⟨_, shows_eq_some.mpr ⟨policy, hmem, hid, rfl⟩⟩

theorem shows_eq_none {snapshot : Snapshot W} {id : PolicyID} :
    shows snapshot id = none ↔ id ∉ snapshot.infos.map PolicyInfo.id := by
  rw [← shows_ne_none, not_exists, Option.eq_none_iff_forall_ne_some]

theorem mem_keys_indexPolicies {snapshot : Snapshot W} {id : PolicyID} :
    id ∈ (indexPolicies snapshot.infos).keys ↔ ∃ info, shows snapshot id = some info := by
  rw [← AList.mem_keys, ← AList.lookup_isSome, Option.isSome_iff_exists]
  constructor
  · rintro ⟨info, h⟩
    exact ⟨normalInfo info, by rw [shows, h]; rfl⟩
  · rintro ⟨info, h⟩
    obtain ⟨policy, hlookup, -⟩ := Option.map_eq_some_iff.mp h
    exact ⟨policy, hlookup⟩

section Lookup

variable {current candidate : Snapshot W} {id : PolicyID}

variable (candidate) in
theorem difference_of_missing (hcurrent : (indexPolicies current.infos).lookup id = none) :
    difference (shows current) (shows candidate) id ≠ some .removed ∧
      difference (shows current) (shows candidate) id ≠ some .changed := by
  have hshows : shows current id = none := by rw [shows, hcurrent]; rfl
  unfold difference
  rw [hshows]
  cases shows candidate id with
  | none => simp
  | some info => simp

theorem difference_of_removed {left : PolicyInfo}
    (hcurrent : (indexPolicies current.infos).lookup id = some left)
    (hcandidate : (indexPolicies candidate.infos).lookup id = none) :
    difference (shows current) (shows candidate) id = some .removed := by
  unfold difference shows
  rw [hcurrent, hcandidate]
  rfl

theorem difference_of_common {left right : PolicyInfo}
    (hcurrent : (indexPolicies current.infos).lookup id = some left)
    (hcandidate : (indexPolicies candidate.infos).lookup id = some right) :
    difference (shows current) (shows candidate) id
      = if policyInfoEqual left right = true then none else some .changed := by
  have hid : left.id = right.id :=
    (lookup_indexPolicies.mp hcurrent).2.trans (lookup_indexPolicies.mp hcandidate).2.symm
  unfold difference shows
  rw [hcurrent, hcandidate]
  show (if normalInfo left = normalInfo right then none else some Difference.changed) = _
  by_cases hequal : policyInfoEqual left right = true
  · rw [if_pos hequal, if_pos ((policyInfoEqual_iff hid).mp hequal)]
  · rw [if_neg hequal, if_neg fun h => hequal ((policyInfoEqual_iff hid).mpr h)]

end Lookup

/-! ### The loops -/

section Loops

variable (current candidate : Snapshot W)

/-- The first loop appends the identifiers that are removed or changed. -/
theorem compareCurrent_eq : ∀ (ids : List PolicyID) (report : SnapshotDiff),
    compareCurrent (indexPolicies current.infos) (indexPolicies candidate.infos) ids report
      = { report with
          removed := report.removed ++ ids.filter fun id =>
            difference (shows current) (shows candidate) id = some .removed
          changed := report.changed ++ ids.filter fun id =>
            difference (shows current) (shows candidate) id = some .changed } := by
  intro ids
  induction ids with
  | nil => intro report; simp [compareCurrent]
  | cons id rest ih =>
    intro report
    rw [compareCurrent]
    cases hcurrent : (indexPolicies current.infos).lookup id with
    | none =>
      obtain ⟨hremoved, hchanged⟩ := difference_of_missing candidate hcurrent
      dsimp only
      rw [ih]
      simp [hremoved, hchanged]
    | some left =>
      dsimp only
      cases hcandidate : (indexPolicies candidate.infos).lookup id with
      | none =>
        have hremoved := difference_of_removed hcurrent hcandidate
        dsimp only
        rw [ih]
        simp [hremoved]
      | some right =>
        have hcommon := difference_of_common hcurrent hcandidate
        dsimp only
        by_cases hequal : policyInfoEqual left right = true
        · rw [if_pos hequal] at hcommon
          rw [hequal, Bool.not_true, if_neg Bool.false_ne_true, ih]
          simp [hcommon]
        · rw [if_neg hequal] at hcommon
          rw [Bool.eq_false_of_not_eq_true hequal, Bool.not_false, if_pos rfl, ih]
          simp [hcommon]

/-- The second loop appends the identifiers that the current snapshot lacks. -/
theorem compareCandidate_eq : ∀ (ids : List PolicyID) (report : SnapshotDiff),
    compareCandidate (indexPolicies current.infos) ids report
      = { report with added := report.added ++ ids.filter fun id => shows current id = none } := by
  intro ids
  induction ids with
  | nil => intro report; simp [compareCandidate]
  | cons id rest ih =>
    intro report
    rw [compareCandidate]
    cases hcurrent : (indexPolicies current.infos).lookup id with
    | none =>
      have hnone : shows current id = none := by rw [shows, hcurrent]; rfl
      dsimp only
      rw [ih]
      simp [hnone]
    | some info =>
      have hsome : shows current id ≠ none := by rw [shows, hcurrent]; exact Option.some_ne_none _
      dsimp only
      rw [ih]
      simp [hsome]

end Loops

/-! ### The report -/

/-- The identifiers reported to differ in this way. -/
def SnapshotDiff.ids (report : SnapshotDiff) : Difference → List PolicyID
  | .added => report.added
  | .removed => report.removed
  | .changed => report.changed

/-- The report lists where what two snapshots show differs. -/
structure Reports (current candidate : Snapshot W) (report : SnapshotDiff) : Prop where
  fromRevision : report.fromRevision = current.revision
  toRevision : report.toRevision = candidate.revision
  algorithmChanged : report.algorithmChanged = (current.algorithm != candidate.algorithm)
  sorted : ∀ d, (report.ids d).Pairwise (· < ·)
  mem : ∀ d id, id ∈ report.ids d ↔
    difference (shows current) (shows candidate) id = some d

/-- Sorting what a range selects. -/
theorem mem_sortPolicyIDs {range : MapRange PolicyID} {keys : List PolicyID} {p : PolicyID → Prop}
    [DecidablePred p] {id : PolicyID} :
    id ∈ sortPolicyIDs ((range.order keys).filter p) ↔ id ∈ keys ∧ p id := by
  rw [sortPolicyIDs, mem_sortBy, List.mem_filter, MapRange.mem_order, decide_eq_true_eq]

theorem sorted_sortPolicyIDs {range : MapRange PolicyID} {keys : List PolicyID} (h : keys.Nodup)
    (p : PolicyID → Bool) :
    (sortPolicyIDs ((range.order keys).filter p)).Pairwise (· < ·) :=
  pairwise_lt_sortBy (((range.perm keys).nodup_iff.mpr h).filter p)

/-- **What `Diff` reports.** -/
theorem diff_reports (currentRange candidateRange : MapRange PolicyID)
    (current candidate : Snapshot W) :
    ∃ report, diff currentRange candidateRange (some current) (some candidate) = .ok report ∧
      Reports current candidate report := by
  refine ⟨_, rfl, ?_⟩
  rw [compareCurrent_eq, compareCandidate_eq]
  have hcurrent := (indexPolicies current.infos).keys_nodup
  have hcandidate := (indexPolicies candidate.infos).keys_nodup
  refine ⟨rfl, rfl, rfl, fun d => ?_, fun d id => ?_⟩
  · cases d with
    | added => exact sorted_sortPolicyIDs hcandidate _
    | removed => exact sorted_sortPolicyIDs hcurrent _
    | changed => exact sorted_sortPolicyIDs hcurrent _
  · cases d with
    | added =>
      refine mem_sortPolicyIDs.trans ?_
      rw [mem_keys_indexPolicies, difference_eq_added]
      exact And.comm
    | removed =>
      refine mem_sortPolicyIDs.trans ?_
      rw [mem_keys_indexPolicies, and_iff_right_of_imp]
      intro h
      exact (difference_eq_added.mp (difference_swap_iff.mpr h)).2
    | changed =>
      refine mem_sortPolicyIDs.trans ?_
      rw [mem_keys_indexPolicies, and_iff_right_of_imp]
      intro h
      obtain ⟨left, -, hleft, -⟩ := difference_eq_changed.mp h
      exact ⟨left, hleft⟩

theorem Reports.unique {current candidate : Snapshot W} {report report' : SnapshotDiff}
    (h : Reports current candidate report) (h' : Reports current candidate report') :
    report = report' := by
  have hids : ∀ d, report.ids d = report'.ids d := fun d =>
    eq_of_pairwise_lt (h.sorted d) (h'.sorted d) fun id => (h.mem d id).trans (h'.mem d id).symm
  have hfrom := h.fromRevision.trans h'.fromRevision.symm
  have hto := h.toRevision.trans h'.toRevision.symm
  have halgorithm := h.algorithmChanged.trans h'.algorithmChanged.symm
  have hadded := hids .added
  have hremoved := hids .removed
  have hchanged := hids .changed
  cases report
  cases report'
  dsimp only [SnapshotDiff.ids] at hfrom hto halgorithm hadded hremoved hchanged
  subst hfrom hto halgorithm hadded hremoved hchanged
  rfl

/-- The report is one and the same in whatever order the maps are ranged over. -/
theorem Reports.diff_eq {current candidate : Snapshot W} {report : SnapshotDiff}
    (h : Reports current candidate report) (currentRange candidateRange : MapRange PolicyID) :
    diff currentRange candidateRange (some current) (some candidate) = .ok report := by
  obtain ⟨report', hdiff, h'⟩ := diff_reports currentRange candidateRange current candidate
  rw [hdiff, h.unique h']

theorem Reports.swap {current candidate : Snapshot W} {report back : SnapshotDiff}
    (h : Reports current candidate report) (hback : Reports candidate current back)
    (d : Difference) : back.ids d = report.ids d.swap :=
  eq_of_pairwise_lt (hback.sorted d) (h.sorted d.swap) fun id =>
    (hback.mem d id).trans (difference_swap_iff.trans (h.mem d.swap id).symm)

/-! ### The identifiers that are not listed -/

/-- The identifier is in none of the lists. -/
def SnapshotDiff.Omits (report : SnapshotDiff) (id : PolicyID) : Prop :=
  id ∉ report.added ∧ id ∉ report.removed ∧ id ∉ report.changed

theorem Reports.omits_iff {current candidate : Snapshot W} {report : SnapshotDiff}
    (h : Reports current candidate report) {id : PolicyID} :
    report.Omits id ↔ difference (shows current) (shows candidate) id = none := by
  have hadded := h.mem .added id
  have hremoved := h.mem .removed id
  have hchanged := h.mem .changed id
  rw [SnapshotDiff.Omits, show report.added = report.ids .added from rfl, hadded,
    show report.removed = report.ids .removed from rfl, hremoved,
    show report.changed = report.ids .changed from rfl, hchanged]
  constructor
  · rintro ⟨h₁, h₂, h₃⟩
    cases hd : difference (shows current) (shows candidate) id with
    | none => rfl
    | some d =>
      cases d with
      | added => exact absurd hd h₁
      | removed => exact absurd hd h₂
      | changed => exact absurd hd h₃
  · intro hnone
    rw [hnone]
    exact ⟨(Option.some_ne_none _).symm, (Option.some_ne_none _).symm,
      (Option.some_ne_none _).symm⟩

theorem omits_all_iff {report : SnapshotDiff} :
    (∀ id, report.Omits id) ↔ report.added = [] ∧ report.removed = [] ∧ report.changed = [] := by
  simp only [SnapshotDiff.Omits, forall_and, List.eq_nil_iff_forall_not_mem]

theorem map_normalInfo_nodup (snapshot : Snapshot W) : (snapshot.infos.map normalInfo).Nodup := by
  have hids : ((snapshot.infos.map normalInfo).map PolicyInfo.id).Nodup := by
    rw [List.map_map]
    exact infos_ids_nodup snapshot
  exact hids.of_map _

theorem mem_map_normalInfo {snapshot : Snapshot W} {info : PolicyInfo} :
    info ∈ snapshot.infos.map normalInfo ↔ shows snapshot info.id = some info := by
  rw [shows_eq_some, List.mem_map]
  constructor
  · rintro ⟨policy, hmem, rfl⟩
    exact ⟨policy, hmem, rfl, rfl⟩
  · rintro ⟨policy, hmem, -, heq⟩
    exact ⟨policy, hmem, heq⟩

/-- Two snapshots show the same when their infos are the same up to order. -/
theorem shows_eq_iff {current candidate : Snapshot W} :
    (∀ id, shows current id = shows candidate id) ↔
      (current.infos.map normalInfo).Perm (candidate.infos.map normalInfo) := by
  rw [List.perm_ext_iff_of_nodup (map_normalInfo_nodup current) (map_normalInfo_nodup candidate)]
  constructor
  · intro h info
    rw [mem_map_normalInfo, mem_map_normalInfo, h]
  · intro h id
    have hsome : ∀ info, shows current id = some info ↔ shows candidate id = some info := by
      intro info
      have hid : ∀ snapshot : Snapshot W, shows snapshot id = some info → info.id = id := by
        intro snapshot hshows
        obtain ⟨policy, -, hpolicy, rfl⟩ := shows_eq_some.mp hshows
        exact hpolicy
      constructor
      · intro hshows
        have hinfo := hid current hshows
        rw [← hinfo] at hshows ⊢
        exact mem_map_normalInfo.mp ((h info).mp (mem_map_normalInfo.mpr hshows))
      · intro hshows
        have hinfo := hid candidate hshows
        rw [← hinfo] at hshows ⊢
        exact mem_map_normalInfo.mp ((h info).mpr (mem_map_normalInfo.mpr hshows))
    exact Option.ext hsome

/-! ### The statement -/

/-- The infos differ in revision, priority, an instant of the window, or metadata. -/
def Differ (left right : PolicyInfo) : Prop :=
  left.revision ≠ right.revision ∨ left.priority ≠ right.priority ∨
    left.activeFrom.nanos ≠ right.activeFrom.nanos ∨
    left.activeUntil.nanos ≠ right.activeUntil.nanos ∨ left.metadata ≠ right.metadata

theorem differ_iff {left right : PolicyInfo} (hid : left.id = right.id) :
    Differ left right ↔ normalInfo left ≠ normalInfo right := by
  simp only [Differ, normalInfo, Time.utc, ne_eq, PolicyInfo.mk.injEq, Time.mk.injEq, hid, true_and,
    and_true, not_and_or]

/-- **The lists of a report**: what is added, removed and changed. -/
structure Partition (current candidate : Snapshot W) (report : SnapshotDiff) : Prop where
  sorted : report.added.Pairwise (· < ·) ∧ report.removed.Pairwise (· < ·) ∧
    report.changed.Pairwise (· < ·)
  disjoint : report.added.Disjoint report.removed ∧ report.added.Disjoint report.changed ∧
    report.removed.Disjoint report.changed
  added : ∀ id, id ∈ report.added ↔
    id ∈ candidate.infos.map PolicyInfo.id ∧ id ∉ current.infos.map PolicyInfo.id
  removed : ∀ id, id ∈ report.removed ↔
    id ∈ current.infos.map PolicyInfo.id ∧ id ∉ candidate.infos.map PolicyInfo.id
  changed : ∀ id, id ∈ report.changed ↔
    ∃ left ∈ current.infos, ∃ right ∈ candidate.infos,
      left.id = id ∧ right.id = id ∧ Differ left right

theorem added_iff {current candidate : Snapshot W} {id : PolicyID} :
    difference (shows current) (shows candidate) id = some .added ↔
      id ∈ candidate.infos.map PolicyInfo.id ∧ id ∉ current.infos.map PolicyInfo.id := by
  rw [difference_eq_added, shows_eq_none, shows_ne_none]
  exact And.comm

theorem changed_iff {current candidate : Snapshot W} {id : PolicyID} :
    difference (shows current) (shows candidate) id = some .changed ↔
      ∃ left ∈ current.infos, ∃ right ∈ candidate.infos,
        left.id = id ∧ right.id = id ∧ Differ left right := by
  rw [difference_eq_changed]
  constructor
  · rintro ⟨a, b, ha, hb, hne⟩
    obtain ⟨left, hleft, hid, rfl⟩ := shows_eq_some.mp ha
    obtain ⟨right, hright, hid', rfl⟩ := shows_eq_some.mp hb
    exact ⟨left, hleft, right, hright, hid, hid', (differ_iff (hid.trans hid'.symm)).mpr hne⟩
  · rintro ⟨left, hleft, right, hright, hid, hid', hdiffer⟩
    exact ⟨_, _, shows_eq_some.mpr ⟨left, hleft, hid, rfl⟩,
      shows_eq_some.mpr ⟨right, hright, hid', rfl⟩,
      (differ_iff (hid.trans hid'.symm)).mp hdiffer⟩

theorem Reports.partition {current candidate : Snapshot W} {report : SnapshotDiff}
    (h : Reports current candidate report) : Partition current candidate report := by
  have hdisjoint : ∀ {d e : Difference}, d ≠ e → (report.ids d).Disjoint (report.ids e) := by
    intro d e hne id hd he
    have hboth := ((h.mem d id).mp hd).symm.trans ((h.mem e id).mp he)
    exact hne (Option.some.inj hboth)
  refine ⟨⟨h.sorted .added, h.sorted .removed, h.sorted .changed⟩, ⟨?_, ?_, ?_⟩, ?_, ?_, ?_⟩
  · exact hdisjoint (show Difference.added ≠ .removed by decide)
  · exact hdisjoint (show Difference.added ≠ .changed by decide)
  · exact hdisjoint (show Difference.removed ≠ .changed by decide)
  · exact fun id => (h.mem .added id).trans added_iff
  · exact fun id => (h.mem .removed id).trans (difference_swap_iff.symm.trans added_iff)
  · exact fun id => (h.mem .changed id).trans changed_iff

/-- **`Diff` is an exact, order-independent and reversible partition.** -/
theorem diff_exact (current candidate : Snapshot W) : ∃ report,
    (∀ currentRange candidateRange,
      diff currentRange candidateRange (some current) (some candidate) = .ok report) ∧
    Partition current candidate report ∧
    -- the way back
    (∃ back, (∀ currentRange candidateRange,
        diff currentRange candidateRange (some candidate) (some current) = .ok back) ∧
      back.added = report.removed ∧ back.removed = report.added ∧
      back.changed = report.changed) ∧
    -- nothing to report
    ((report.added = [] ∧ report.removed = [] ∧ report.changed = []) ∧
        report.algorithmChanged = false ↔
      current.algorithm = candidate.algorithm ∧
        (current.infos.map normalInfo).Perm (candidate.infos.map normalInfo)) ∧
    -- one after the other
    ∀ third : Snapshot W, ∃ next far, (∀ currentRange candidateRange,
        diff currentRange candidateRange (some candidate) (some third) = .ok next) ∧
      (∀ currentRange candidateRange,
        diff currentRange candidateRange (some current) (some third) = .ok far) ∧
      ∀ id, report.Omits id → next.Omits id → far.Omits id := by
  obtain ⟨report, -, h⟩ := diff_reports .insertion .insertion current candidate
  obtain ⟨back, -, hback⟩ := diff_reports .insertion .insertion candidate current
  refine ⟨report, h.diff_eq, h.partition, ⟨back, hback.diff_eq, h.swap hback .added,
    h.swap hback .removed, h.swap hback .changed⟩, ?_, fun third => ?_⟩
  · rw [← omits_all_iff, h.algorithmChanged, bne_eq_false_iff_eq, ← shows_eq_iff, and_comm]
    refine and_congr_right fun _ => forall_congr' fun id => ?_
    rw [h.omits_iff, difference_eq_none]
  · obtain ⟨next, -, hnext⟩ := diff_reports .insertion .insertion candidate third
    obtain ⟨far, -, hfar⟩ := diff_reports .insertion .insertion current third
    refine ⟨next, far, hnext.diff_eq, hfar.diff_eq, fun id homits homits' => ?_⟩
    exact hfar.omits_iff.mpr
      (difference_trans (h.omits_iff.mp homits) (hnext.omits_iff.mp homits'))

end Authorization.Policy
