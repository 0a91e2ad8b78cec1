import Authorization.Core.PolicyOrder
import Authorization.Policy.Diff
import Authorization.Policy.Meaning

/-!
# What a difference of snapshots explains

`Diff` compares what is shown of two snapshots; documents are not.  Where publishers
give a changed document a new revision, that is enough: a request that two manifests
answer differently has a record in the report which bears on it, active at the time and
with a ruling (`diff_explains`).

The records that bear on a request are marked with their identifier, priority and
ruling.  The combined outcome is a function of the marks in order, and marks that are
not reported are the same on both sides.  What is left is the order: the overriding
algorithms do not look at it, a priority order is determined by the marks, and for the
first applicable record the common records must not have been moved.
-/

namespace Authorization.Policy

open Authorization.Foundation Authorization.Core

variable {W : Type}

/-! ### What is shown of a record -/

/-- The info of the policy of a record. -/
def Record.info (record : Record) : PolicyInfo :=
  ⟨record.id, record.revision, record.priority.toInt, record.activeFrom.getD .zero,
    record.activeUntil.getD .zero, record.metadata⟩

theorem infos_of_compile {compiler : Compiler W} {manifest : Manifest} {snapshot : Snapshot W}
    (hlimit : 0 ≤ compiler.limits.maxTotalDocumentBytes) {w : W}
    (hcompile : (compiler.compile manifest w).1 = .ok snapshot) :
    snapshot.algorithm = combiningAlgorithm manifest.algorithm ∧
      snapshot.infos.Perm (manifest.records.map Record.info) := by
  obtain ⟨hmanifest, -, definitions, hdefinitions, hsnapshot⟩ := compile_eq_ok.mp hcompile
  obtain ⟨-, -, evaluators, hdecodes, rfl⟩ := (compileRecords_eq_ok_iff hlimit).mp hdefinitions
  obtain ⟨snapshot', hsnapshot', -, halgorithm, hpolicies⟩ :=
    newSnapshot_of_validate hmanifest evaluators
  rw [hsnapshot] at hsnapshot'
  cases hsnapshot'
  refine ⟨halgorithm, ?_⟩
  have hinfos : (List.zipWith Record.policy manifest.records evaluators).map PolicyEntry.info
      = manifest.records.map Record.info := by
    have hrecords : (manifest.records.zip evaluators).map Prod.fst = manifest.records :=
      List.map_fst_zip hdecodes.length_eq.le
    rw [List.map_zipWith, ← List.map_uncurry_zip_eq_zipWith]
    nth_rewrite 2 [← hrecords]
    rw [List.map_map]
    rfl
  rw [Snapshot.infos, hpolicies, ← hinfos]
  exact (orderPolicies_perm _ _).map _

theorem shows_of_compile {manifest : Manifest} {snapshot : Snapshot W}
    (hinfos : snapshot.infos.Perm (manifest.records.map Record.info)) {id : PolicyID}
    {info : PolicyInfo} :
    shows snapshot id = some info ↔
      ∃ record ∈ manifest.records, record.id = id ∧ normalInfo record.info = info := by
  rw [shows_eq_some]
  constructor
  · rintro ⟨policy, hpolicy, hid, heq⟩
    obtain ⟨record, hrecord, rfl⟩ := List.mem_map.mp (hinfos.mem_iff.mp hpolicy)
    exact ⟨record, hrecord, hid, heq⟩
  · rintro ⟨record, hrecord, hid, heq⟩
    exact ⟨record.info, hinfos.mem_iff.mpr (List.mem_map_of_mem hrecord), hid, heq⟩

theorem Record.activeAt_iff_info (record : Record) (t : Time) : record.ActiveAt t ↔
    (record.info.activeFrom.isZero = true ∨ record.info.activeFrom.nanos ≤ t.nanos) ∧
      (record.info.activeUntil.isZero = true ∨ t.nanos < record.info.activeUntil.nanos) :=
  (record.inWindow_policy (W := Unit) (fun _ _ w => (.panicked, w)) t).symm

/-- Infos with the same instants have the same window. -/
theorem Record.activeAt_iff_of_info {record record' : Record}
    (h : normalInfo record.info = normalInfo record'.info) (t : Time) :
    record.ActiveAt t ↔ record'.ActiveAt t := by
  have hfrom : record.info.activeFrom.nanos = record'.info.activeFrom.nanos :=
    congrArg (fun info => info.activeFrom.nanos) h
  have huntil : record.info.activeUntil.nanos = record'.info.activeUntil.nanos :=
    congrArg (fun info => info.activeUntil.nanos) h
  rw [Record.activeAt_iff_info, Record.activeAt_iff_info, Time.isZero, Time.isZero, Time.isZero,
    Time.isZero, hfrom, huntil]

/-! ### Marks -/

/-- The record bears on the request: it is active, and its law applies. -/
def Record.BearsOn (dialect : Dialect) (request : Request) (time : Time) (record : Record) : Prop :=
  record.ActiveAt time ∧ (record.law dialect).ruling request ≠ .notApplicable

noncomputable instance Record.decidableBearsOn (dialect : Dialect) (request : Request) (time : Time)
    (record : Record) : Decidable (record.BearsOn dialect request time) :=
  inferInstanceAs (Decidable (_ ∧ _))

/-- What the combination sees of a record. -/
structure Mark where
  id : PolicyID
  priority : Int
  ruling : Outcome

noncomputable def Record.mark (dialect : Dialect) (request : Request) (record : Record) : Mark :=
  ⟨record.id, record.priority.toInt, (record.law dialect).ruling request⟩

section Marks

variable {dialect : Dialect} {request : Request} {time : Time}

variable (dialect request time) in
/-- The marks of the records that bear on the request. -/
noncomputable def marks (records : List Record) : List Mark :=
  (records.filter fun record => record.BearsOn dialect request time).map
    (Record.mark dialect request)

theorem mem_marks {records : List Record} {mark : Mark} : mark ∈ marks dialect request time records ↔
    ∃ record ∈ records, record.BearsOn dialect request time ∧
      record.mark dialect request = mark := by
  simp only [marks, List.mem_map, List.mem_filter, decide_eq_true_eq, and_assoc]

theorem marks_cons_of_bears {record : Record} (h : record.BearsOn dialect request time)
    (rest : List Record) : marks dialect request time (record :: rest)
      = record.mark dialect request :: marks dialect request time rest := by
  rw [marks, List.filter_cons, if_pos (decide_eq_true h), List.map_cons]
  rfl

theorem marks_cons_of_not {record : Record} (h : ¬ record.BearsOn dialect request time)
    (rest : List Record) : marks dialect request time (record :: rest)
      = marks dialect request time rest := by
  rw [marks, List.filter_cons, if_neg (by rw [decide_eq_true_eq]; exact h)]
  rfl

variable (dialect request time) in
theorem marks_ids_sublist (records : List Record) :
    ((marks dialect request time records).map Mark.id).Sublist (records.map Record.id) := by
  rw [marks, List.map_map]
  exact List.filter_sublist.map Record.id

/-- **The combined ruling is a function of the marks.** -/
theorem jointRuling_eq_marks {algorithm : CombiningAlgorithm} (ha : algorithm ≤ .priorityOrder)
    (records : List Record) :
    jointRuling algorithm request (lawsAt dialect time records)
      = referenceOutcome algorithm ((marks dialect request time records).map Mark.ruling) := by
  induction records with
  | nil => rfl
  | cons record rest ih =>
    by_cases hactive : record.ActiveAt time
    · rw [lawsAt_cons_of_active hactive, jointRuling, List.map_cons]
      by_cases hruling : (record.law dialect).ruling request = .notApplicable
      · rw [hruling, referenceOutcome_notApplicable_cons ha,
          marks_cons_of_not fun h => h.2 hruling, ← ih]
        rfl
      · have hcons : (marks dialect request time (record :: rest)).map Mark.ruling
            = (record.law dialect).ruling request
              :: (marks dialect request time rest).map Mark.ruling := by
          rw [marks_cons_of_bears ⟨hactive, hruling⟩, List.map_cons]
          rfl
        rw [hcons, referenceOutcome_cons ha (Law.ruling_le _ _),
          referenceOutcome_cons ha (Law.ruling_le _ _), ← ih]
        rfl
    · rw [lawsAt_cons_of_not hactive, marks_cons_of_not fun h => hactive h.1, ih]

variable (dialect request time) in
/-- The marks come in the order of the records, or of their priorities. -/
theorem marks_ordered {manifest : Manifest} (hnodup : (manifest.records.map Record.id).Nodup) :
    marks dialect request time manifest.ordered
      = if manifest.algorithm = algorithmPriorityOrder then
          sortBy (PriorityLe Mark.priority Mark.id) (marks dialect request time manifest.records)
        else marks dialect request time manifest.records := by
  unfold Manifest.ordered
  split
  · rw [marks, filter_sortBy _ _ (PriorityLe.eq_of_nodup hnodup), marks]
    exact map_sortBy _ _ _ fun _ _ _ _ => Iff.rfl
  · rfl

end Marks

/-! ### Records that are not reported -/

instance SnapshotDiff.decidableOmits (report : SnapshotDiff) (id : PolicyID) :
    Decidable (report.Omits id) := inferInstanceAs (Decidable (_ ∧ _ ∧ _))

/-- A record keeps its model and document as long as it keeps its revision. -/
def RevisionsName (manifest manifest' : Manifest) : Prop :=
  ∀ record ∈ manifest.records, ∀ record' ∈ manifest'.records, record.id = record'.id →
    record.revision = record'.revision →
    record.model = record'.model ∧ record.document = record'.document

theorem RevisionsName.symm {manifest manifest' : Manifest} (h : RevisionsName manifest manifest') :
    RevisionsName manifest' manifest := by
  intro record' hrecord' record hrecord hid hrevision
  obtain ⟨hmodel, hdocument⟩ := h record hrecord record' hrecord' hid.symm hrevision.symm
  exact ⟨hmodel.symm, hdocument.symm⟩

section Unreported

variable {dialect : Dialect} {request : Request} {time : Time} {manifest manifest' : Manifest}
  {snapshot snapshot' : Snapshot W}

/-- Where two snapshots show the same, the records have the same mark. -/
theorem exists_same_mark (hinfos : snapshot.infos.Perm (manifest.records.map Record.info))
    (hinfos' : snapshot'.infos.Perm (manifest'.records.map Record.info))
    (hname : RevisionsName manifest manifest') {record : Record}
    (hrecord : record ∈ manifest.records)
    (hshows : shows snapshot record.id = shows snapshot' record.id) :
    ∃ record' ∈ manifest'.records,
      record'.mark dialect request = record.mark dialect request ∧
      (record'.BearsOn dialect request time ↔ record.BearsOn dialect request time) := by
  have hshown : shows snapshot record.id = some (normalInfo record.info) :=
    (shows_of_compile hinfos).mpr ⟨record, hrecord, rfl, rfl⟩
  rw [hshows] at hshown
  obtain ⟨record', hrecord', hid, hinfo⟩ := (shows_of_compile hinfos').mp hshown
  have hrevision : record'.revision = record.revision := congrArg PolicyInfo.revision hinfo
  have hpriority : record'.priority.toInt = record.priority.toInt :=
    congrArg PolicyInfo.priority hinfo
  obtain ⟨hmodel, hdocument⟩ := hname record hrecord record' hrecord' hid.symm hrevision.symm
  have hlaw : record'.law dialect = record.law dialect := by
    rw [Record.law, Record.law, hmodel, hdocument]
  refine ⟨record', hrecord', ?_, ?_⟩
  · rw [Record.mark, Record.mark, hid, hpriority, hlaw]
  · rw [Record.BearsOn, Record.BearsOn, hlaw, Record.activeAt_iff_of_info hinfo]

theorem marks_subset (hinfos : snapshot.infos.Perm (manifest.records.map Record.info))
    (hinfos' : snapshot'.infos.Perm (manifest'.records.map Record.info))
    (hname : RevisionsName manifest manifest')
    (hshows : ∀ record ∈ manifest.records, record.BearsOn dialect request time →
      shows snapshot record.id = shows snapshot' record.id) :
    ∀ mark ∈ marks dialect request time manifest.records,
      mark ∈ marks dialect request time manifest'.records := by
  intro mark hmark
  obtain ⟨record, hrecord, hbears, rfl⟩ := mem_marks.mp hmark
  obtain ⟨record', hrecord', hsame, hbears'⟩ :=
    exists_same_mark hinfos hinfos' hname hrecord (hshows record hrecord hbears)
  exact mem_marks.mpr ⟨record', hrecord', hbears'.mpr hbears, hsame⟩

theorem marks_perm (hinfos : snapshot.infos.Perm (manifest.records.map Record.info))
    (hinfos' : snapshot'.infos.Perm (manifest'.records.map Record.info))
    (hnodup : (manifest.records.map Record.id).Nodup)
    (hnodup' : (manifest'.records.map Record.id).Nodup)
    (hname : RevisionsName manifest manifest')
    (hshows : ∀ record, record ∈ manifest.records ∨ record ∈ manifest'.records →
      record.BearsOn dialect request time → shows snapshot record.id = shows snapshot' record.id) :
    (marks dialect request time manifest.records).Perm
      (marks dialect request time manifest'.records) := by
  have hmarks : ∀ {records : List Record}, (records.map Record.id).Nodup →
      (marks dialect request time records).Nodup :=
    fun hids => List.Nodup.of_map Mark.id (hids.sublist (marks_ids_sublist _ _ _ _))
  refine (List.perm_ext_iff_of_nodup (hmarks hnodup) (hmarks hnodup')).mpr fun mark => ⟨?_, ?_⟩
  · exact marks_subset hinfos hinfos' hname
      (fun record hrecord => hshows record (Or.inl hrecord)) mark
  · exact marks_subset hinfos' hinfos hname.symm
      (fun record hrecord hbears => (hshows record (Or.inr hrecord) hbears).symm) mark

end Unreported

/-! ### The order of what is common -/

section Order

variable {α β : Type*}

/-- A list without repetitions, restricted to the members of a sublist. -/
theorem filter_mem_of_sublist [BEq α] [LawfulBEq α] {l' l : List α} (h : l'.Sublist l)
    (hnodup : l.Nodup) : l.filter (· ∈ l') = l' := by
  induction h with
  | slnil => rfl
  | @cons l' l a hsub ih =>
    obtain ⟨ha, hl⟩ := List.nodup_cons.mp hnodup
    rw [List.filter_cons_of_neg (by simpa using fun hmem => ha (hsub.subset hmem)), ih hl]
  | @cons_cons l' l a hsub ih =>
    obtain ⟨ha, hl⟩ := List.nodup_cons.mp hnodup
    have hrest : l.filter (· ∈ a :: l') = l.filter (· ∈ l') := by
      refine List.filter_congr fun b hb => ?_
      have hne : b ≠ a := fun heq => ha (heq ▸ hb)
      simp [hne]
    rw [List.filter_cons_of_pos (by simp), hrest, ih hl]

/-- Lists with the same members in the order of the same keys. -/
theorem eq_of_perm_of_map_eq {f : α → β} {l l' : List α} (hperm : l.Perm l')
    (hnodup : (l.map f).Nodup) (hmap : l.map f = l'.map f) : l = l' := by
  have hinjective : ∀ a ∈ l, ∀ b ∈ l', f a = f b → a = b := fun a ha b hb =>
    List.inj_on_of_nodup_map hnodup ha (hperm.mem_iff.mpr hb)
  clear hperm hnodup
  induction l generalizing l' with
  | nil => exact (List.map_eq_nil_iff.mp hmap.symm).symm
  | cons a rest ih =>
    cases l' with
    | nil => cases hmap
    | cons b rest' =>
      rw [List.map_cons, List.map_cons, List.cons.injEq] at hmap
      rw [hinjective a List.mem_cons_self b List.mem_cons_self hmap.1,
        ih hmap.2 fun a ha b hb => hinjective a (List.mem_cons_of_mem _ ha) b
          (List.mem_cons_of_mem _ hb)]

end Order

/-- The records that are not reported are in the same order in both manifests. -/
def KeepsOrder (report : SnapshotDiff) (manifest manifest' : Manifest) : Prop :=
  (manifest.records.map Record.id).filter (fun id => report.Omits id)
    = (manifest'.records.map Record.id).filter fun id => report.Omits id

section Verdict

variable {dialect : Dialect} {request : Request} {time : Time} {manifest manifest' : Manifest}
  {report : SnapshotDiff}

/-- **Marks that are not reported, in an order that was kept, are the same list.** -/
theorem marks_eq_of_keepsOrder (hnodup : (manifest.records.map Record.id).Nodup)
    (hnodup' : (manifest'.records.map Record.id).Nodup)
    (hperm : (marks dialect request time manifest.records).Perm
      (marks dialect request time manifest'.records))
    (homits : ∀ mark ∈ marks dialect request time manifest.records, report.Omits mark.id)
    (hkept : KeepsOrder report manifest manifest') :
    marks dialect request time manifest.records = marks dialect request time manifest'.records := by
  let ids := (marks dialect request time manifest.records).map Mark.id
  have hids : ids.Perm ((marks dialect request time manifest'.records).map Mark.id) :=
    hperm.map Mark.id
  have homitted : ∀ id ∈ ids, report.Omits id := by
    intro id hid
    obtain ⟨mark, hmark, rfl⟩ := List.mem_map.mp hid
    exact homits mark hmark
  -- the marks are found among the identifiers that are not reported
  have hfound : ∀ {l : List PolicyID}, l.filter (· ∈ ids)
      = (l.filter fun id => report.Omits id).filter (· ∈ ids) := by
    intro l
    rw [List.filter_filter]
    refine List.filter_congr fun id _ => ?_
    by_cases hid : id ∈ ids
    · simp [hid, homitted id hid]
    · simp [hid]
  have hsub := marks_ids_sublist dialect request time manifest.records
  have hsub' := marks_ids_sublist dialect request time manifest'.records
  refine eq_of_perm_of_map_eq hperm (hnodup.sublist hsub) ?_
  calc ids = (manifest.records.map Record.id).filter (· ∈ ids) :=
        (filter_mem_of_sublist hsub hnodup).symm
    _ = (manifest'.records.map Record.id).filter (· ∈ ids) := by
        rw [hfound, hkept, ← hfound]
    _ = (marks dialect request time manifest'.records).map Mark.id := by
        rw [← filter_mem_of_sublist hsub' hnodup']
        exact List.filter_congr fun id _ => decide_eq_decide.mpr hids.mem_iff

/-- **The verdict is the same where nothing that bears on the request is reported.** -/
theorem verdict_eq_of_marks (hnodup : (manifest.records.map Record.id).Nodup)
    (hnodup' : (manifest'.records.map Record.id).Nodup)
    (halgorithm : combiningAlgorithm manifest.algorithm = combiningAlgorithm manifest'.algorithm)
    (hperm : (marks dialect request time manifest.records).Perm
      (marks dialect request time manifest'.records))
    (homits : ∀ mark ∈ marks dialect request time manifest.records, report.Omits mark.id)
    (hkept : combiningAlgorithm manifest.algorithm = .firstApplicable →
      KeepsOrder report manifest manifest') :
    manifest.verdict dialect request time = manifest'.verdict dialect request time := by
  have hle := combiningAlgorithm_le manifest.algorithm
  have hpriority : manifest.algorithm = algorithmPriorityOrder ↔
      manifest'.algorithm = algorithmPriorityOrder := by
    rw [← combiningAlgorithm_eq_priorityOrder, ← combiningAlgorithm_eq_priorityOrder, halgorithm]
  have hordered := marks_ordered dialect request time hnodup
  have hordered' := marks_ordered dialect request time hnodup'
  rw [Manifest.verdict, Manifest.verdict, Manifest.activeLaws, Manifest.activeLaws,
    jointRuling_eq_marks hle, jointRuling_eq_marks (combiningAlgorithm_le _), ← halgorithm]
  have hunsorted : combiningAlgorithm manifest.algorithm ≠ .priorityOrder →
      marks dialect request time manifest.ordered = marks dialect request time manifest.records ∧
      marks dialect request time manifest'.ordered
        = marks dialect request time manifest'.records := by
    intro hne
    rw [ne_eq, combiningAlgorithm_eq_priorityOrder] at hne
    rw [hordered, hordered', if_neg hne, if_neg fun h => hne (hpriority.mpr h)]
    exact ⟨rfl, rfl⟩
  congr 1
  rcases CombiningAlgorithm.cases_of_le hle with hdeny | hallow | hfirst | hsorted
  · obtain ⟨h, h'⟩ := hunsorted (by rw [hdeny]; decide)
    rw [h, h']
    exact referenceOutcome_perm (Or.inl hdeny) (hperm.map _)
  · obtain ⟨h, h'⟩ := hunsorted (by rw [hallow]; decide)
    rw [h, h']
    exact referenceOutcome_perm (Or.inr hallow) (hperm.map _)
  · obtain ⟨h, h'⟩ := hunsorted (by rw [hfirst]; decide)
    rw [h, h', marks_eq_of_keepsOrder hnodup hnodup' hperm homits (hkept hfirst)]
  · have hmanifest := combiningAlgorithm_eq_priorityOrder.mp hsorted
    have hids := hnodup.sublist (marks_ids_sublist dialect request time manifest.records)
    rw [hordered, hordered', if_pos hmanifest, if_pos (hpriority.mp hmanifest),
      sortBy_eq_of_perm _ hperm (PriorityLe.eq_of_nodup hids)]

end Verdict

/-! ### Decisions -/

/-- **Every changed decision is explained by the report.**  Two manifests are compiled,
and where they share a revision of a record they share its document.  If `Diff` reports
no change of the algorithm and two engines decide a request differently at one time,
both without an error, then one of the reported records bears on the request. -/
theorem diff_explains {ctx : Context W} (hctx : ctx.Quiet) {dialect : Dialect}
    {range : MapRange Model} {decoders : GoMap Model (Option (Decoder W))}
    {overrides : List CompilerLimits} {compiler : Compiler W}
    (hnew : newCompiler range decoders (overrides.map withCompilerLimits) = .ok compiler)
    (hstandard : ∀ model decoder, decoders.lookup model = some (some decoder) →
      Standard dialect ctx model decoder)
    {manifest manifest' : Manifest} {snapshot snapshot' : Snapshot W} {w₁ w₂ : W}
    (hcompile : (compiler.compile manifest w₁).1 = .ok snapshot)
    (hcompile' : (compiler.compile manifest' w₂).1 = .ok snapshot')
    (hname : RevisionsName manifest manifest')
    {currentRange candidateRange : MapRange PolicyID} {report : SnapshotDiff}
    (hdiff : diff currentRange candidateRange (some snapshot) (some snapshot') = .ok report)
    (halgorithm : report.algorithmChanged = false)
    (hkept : snapshot.algorithm = .firstApplicable → KeepsOrder report manifest manifest')
    {engine engine' : Engine W} (hengine : engine.snapshot = snapshot)
    (hengine' : engine'.snapshot = snapshot') {request : Request}
    (hvalid : request.validate = none) {w w' : W} {time : Time}
    (htime : engine.decisionTime ctx request w = time)
    (htime' : engine'.decisionTime ctx request w' = time)
    (herr : (engine.decide ctx request w).err = none)
    (herr' : (engine'.decide ctx request w').err = none)
    (hchanged : (engine.decide ctx request w).decision.outcome
      ≠ (engine'.decide ctx request w').decision.outcome) :
    ∃ record, (record ∈ manifest.records ∨ record ∈ manifest'.records) ∧
      ¬ report.Omits record.id ∧ record.BearsOn dialect request time := by
  have hfollows : ∀ model decoder, compiler.decoders.lookup model = some decoder →
      decoder.Follows ctx (dialect.law model) := fun model decoder hlookup =>
    ((hstandard model decoder (lookup_newCompiler hnew hlookup)).means hctx).follows
  have hlimit := (limits_of_newCompiler hnew).le
  have hdecides := decides_of_compile hctx hfollows hlimit hcompile hengine hvalid w
  have hdecides' := decides_of_compile hctx hfollows hlimit hcompile' hengine' hvalid w'
  rw [hdecides.ruled herr, hdecides'.ruled herr', htime, htime'] at hchanged
  obtain ⟨hsnapshot, hinfos⟩ := infos_of_compile hlimit hcompile
  obtain ⟨hsnapshot', hinfos'⟩ := infos_of_compile hlimit hcompile'
  have hnodup := (sound_of_validate (compile_eq_ok.mp hcompile).1).1
  have hnodup' := (sound_of_validate (compile_eq_ok.mp hcompile').1).1
  obtain ⟨report', hreport', hreports⟩ :=
    diff_reports currentRange candidateRange snapshot snapshot'
  rw [hdiff] at hreport'
  cases hreport'
  by_contra hnone
  have homits : ∀ record, record ∈ manifest.records ∨ record ∈ manifest'.records →
      record.BearsOn dialect request time → report.Omits record.id := by
    intro record hrecord hbears
    by_contra hreported
    exact hnone ⟨record, hrecord, hreported, hbears⟩
  have hsame : combiningAlgorithm manifest.algorithm = combiningAlgorithm manifest'.algorithm := by
    rw [hreports.algorithmChanged, bne_eq_false_iff_eq] at halgorithm
    rw [← hsnapshot, ← hsnapshot', halgorithm]
  have hperm := marks_perm hinfos hinfos' hnodup hnodup' hname fun record hrecord hbears =>
    difference_eq_none.mp (hreports.omits_iff.mp (homits record hrecord hbears))
  refine hchanged (verdict_eq_of_marks hnodup hnodup' hsame hperm ?_ (hsnapshot ▸ hkept))
  intro mark hmark
  obtain ⟨record, hrecord, hbears, rfl⟩ := mem_marks.mp hmark
  exact homits record (Or.inl hrecord) hbears

/-! ### A record that was added -/

def refusingRecord : Record where
  id := str "q"
  revision := 1
  model := modelACL
  document := str ("\x7b\"version\":1,\"entries\":[\x7b\"id\":\"d\",\"subject_kind\":\"user\"," ++
    "\"subject_id\":\"u\",\"action\":\"read\",\"resource_type\":\"doc\"," ++
    "\"effect\":\"deny\"\x7d]\x7d")

def refusingManifest : Manifest :=
  { grantingManifest with policies := some (grantingManifest.records ++ [refusingRecord]) }

theorem diff_explains_refusing : ∃ (snapshot snapshot' : Snapshot Unit) (report : SnapshotDiff),
    diff .insertion .insertion (some snapshot) (some snapshot') = .ok report ∧
    ((engineOf snapshot).decide .background readingRequest ()).decision.outcome = .allow ∧
    ((engineOf snapshot').decide .background readingRequest ()).decision.outcome = .deny ∧
    ∃ record, (record ∈ grantingManifest.records ∨ record ∈ refusingManifest.records) ∧
      ¬ report.Omits record.id ∧ record.BearsOn sampleDialect readingRequest .zero := by
  obtain ⟨snapshot, hsnapshot, herr, hallow⟩ := exists_of_answersReading
    (show answersReading .allow (sampleCompiler.compile grantingManifest ()).1 = true
      by decide +kernel)
  obtain ⟨snapshot', hsnapshot', herr', hdeny⟩ := exists_of_answersReading
    (show answersReading .deny (sampleCompiler.compile refusingManifest ()).1 = true
      by decide +kernel)
  obtain ⟨report, hdiff, hreports⟩ := diff_reports .insertion .insertion snapshot snapshot'
  have hlimit := (limits_of_newCompiler newCompiler_sample).le
  have halgorithm : snapshot.algorithm = .denyOverrides := by
    rw [(infos_of_compile hlimit hsnapshot).1]
    decide +kernel
  have halgorithm' : snapshot'.algorithm = .denyOverrides := by
    rw [(infos_of_compile hlimit hsnapshot').1]
    decide +kernel
  have hname : RevisionsName grantingManifest refusingManifest := by
    unfold RevisionsName
    decide +kernel
  refine ⟨snapshot, snapshot', report, hdiff, hallow, hdeny, ?_⟩
  refine diff_explains Context.quiet_background newCompiler_sample (standard_sampleDecoders _)
    hsnapshot hsnapshot' hname hdiff ?_ (fun hfirst => ?_)
    (show (engineOf snapshot).snapshot = snapshot from rfl)
    (show (engineOf snapshot').snapshot = snapshot' from rfl)
    (show readingRequest.validate = none from rfl) (show _ = Time.zero from rfl)
    (show _ = Time.zero from rfl) herr herr' ?_
  · rw [hreports.algorithmChanged, halgorithm, halgorithm']
    rfl
  · rw [halgorithm] at hfirst
    exact absurd hfirst (by decide)
  · rw [hallow, hdeny]
    decide

end Authorization.Policy
