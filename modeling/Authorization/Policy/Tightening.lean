import Authorization.Policy.Meaning
import Authorization.Stricter

/-!
# Tightening a manifest

A manifest may be changed record by record, in the order in which the records are
asked: a record is replaced by one with the same window and a law that tightens its
own, a record that does not allow is added, one that does not deny is taken away.
Whatever the algorithm, the engine of the new manifest then allows no request that the
engine of the old one does not allow (`tightening_never_grants`).
-/

namespace Authorization.Policy

open Authorization.Foundation Authorization.Core

variable {W : Type} {dialect : Dialect}

/-- Records in order, changed one by one. -/
inductive TightenedRecords (dialect : Dialect) (request : Request) :
    List Record → List Record → Prop
  | nil : TightenedRecords dialect request [] []
  | keep {record' record : Record} {records' records : List Record}
      (activeFrom : record'.activeFrom = record.activeFrom)
      (activeUntil : record'.activeUntil = record.activeUntil)
      (tightens : (record'.law dialect).TightensAt (record.law dialect) request)
      (rest : TightenedRecords dialect request records' records) :
      TightenedRecords dialect request (record' :: records') (record :: records)
  | add {record' : Record} {records' records : List Record}
      (ruling : (record'.law dialect).ruling request ≠ .allow)
      (rest : TightenedRecords dialect request records' records) :
      TightenedRecords dialect request (record' :: records') records
  | drop {record : Record} {records' records : List Record}
      (admits : (record.law dialect).Admits request)
      (ruling : (record.law dialect).ruling request ≠ .deny)
      (rest : TightenedRecords dialect request records' records) :
      TightenedRecords dialect request records' (record :: records)

/-- What is changed outside its window is not seen. -/
theorem TightenedRecords.tightened {request : Request} {records' records : List Record}
    (h : TightenedRecords dialect request records' records) (time : Time) :
    Tightened request (lawsAt dialect time records') (lawsAt dialect time records) := by
  induction h with
  | nil => exact .nil
  | @keep record' record records' records activeFrom activeUntil tightens _ ih =>
    have hwindow : record'.ActiveAt time ↔ record.ActiveAt time := by
      rw [Record.ActiveAt, Record.ActiveAt, activeFrom, activeUntil]
    by_cases hactive : record.ActiveAt time
    · rw [lawsAt_cons_of_active (hwindow.mpr hactive), lawsAt_cons_of_active hactive]
      exact .keep tightens ih
    · rw [lawsAt_cons_of_not (fun h => hactive (hwindow.mp h)), lawsAt_cons_of_not hactive]
      exact ih
  | @add record' records' records ruling _ ih =>
    by_cases hactive : record'.ActiveAt time
    · rw [lawsAt_cons_of_active hactive]
      exact .add ruling ih
    · rw [lawsAt_cons_of_not hactive]
      exact ih
  | @drop record records' records admits ruling _ ih =>
    by_cases hactive : record.ActiveAt time
    · rw [lawsAt_cons_of_active hactive]
      exact .drop admits ruling ih
    · rw [lawsAt_cons_of_not hactive]
      exact ih

/-- Records that do not allow, behind the others. -/
theorem TightenedRecords.append {request : Request} (records : List Record) {added : List Record}
    (h : ∀ record ∈ added, (record.law dialect).ruling request ≠ .allow) :
    TightenedRecords dialect request (records ++ added) records := by
  induction records with
  | nil =>
    induction added with
    | nil => exact .nil
    | cons record rest ih =>
      obtain ⟨hrecord, hrest⟩ := List.forall_mem_cons.mp h
      exact .add hrecord (ih hrest)
  | cons record rest ih => exact .keep rfl rfl (Law.TightensAt.refl _ _) ih

/-- **A decision allows exactly what the manifest answers with an allowance.** -/
theorem Manifest.Decides.allow_iff {manifest : Manifest} {request : Request} {time : Time}
    {result : DecideResult W} (h : manifest.Decides dialect request time result) :
    result.decision.outcome = .allow ↔ manifest.answer dialect request time = some .allow := by
  have hle := combiningAlgorithm_le manifest.algorithm
  constructor
  · intro hallow
    cases herr : result.err with
    | some err =>
      rw [(h.refused err herr).1] at hallow
      exact absurd hallow (by decide)
    | none =>
      cases hanswer : manifest.answer dialect request time with
      | none => exact absurd hanswer (h.answered.mp herr)
      | some outcome =>
        have hruled := h.ruled herr
        rw [hallow, Manifest.verdict, ← eq_jointRuling_of_jointAnswer hle request hanswer,
          Outcome.orDeny] at hruled
        split at hruled
        · exact absurd hruled (by decide)
        · rw [hruled]
  · intro hanswer
    have herr : result.err = none := h.answered.mpr (by rw [hanswer]; exact Option.some_ne_none _)
    rw [h.ruled herr, Manifest.verdict, ← eq_jointRuling_of_jointAnswer hle request hanswer]
    rfl

/-- **Tightening a manifest never grants.** -/
theorem tightening_never_grants {ctx : Context W} (hctx : ctx.Quiet) {range : MapRange Model}
    {decoders : GoMap Model (Option (Decoder W))} {overrides : List CompilerLimits}
    {compiler : Compiler W}
    (hnew : newCompiler range decoders (overrides.map withCompilerLimits) = .ok compiler)
    (hstandard : ∀ model decoder, decoders.lookup model = some (some decoder) →
      Standard dialect ctx model decoder)
    {manifest' manifest : Manifest} {snapshot' snapshot : Snapshot W} {w₁ w₂ : W}
    (hcompile' : (compiler.compile manifest' w₁).1 = .ok snapshot')
    (hcompile : (compiler.compile manifest w₂).1 = .ok snapshot)
    {engine' engine : Engine W} (hengine' : engine'.snapshot = snapshot')
    (hengine : engine.snapshot = snapshot) {request : Request} (hvalid : request.validate = none)
    {w' w : W}
    (htime : engine'.decisionTime ctx request w' = engine.decisionTime ctx request w)
    (halgorithm : manifest'.algorithm = manifest.algorithm)
    (htightened : TightenedRecords dialect request manifest'.ordered manifest.ordered)
    (hallow : (engine'.decide ctx request w').decision.outcome = .allow) :
    (engine.decide ctx request w).decision.outcome = .allow ∧
      (engine.decide ctx request w).err = none := by
  have hfollows : ∀ model decoder, compiler.decoders.lookup model = some decoder →
      decoder.Follows ctx (dialect.law model) := fun model decoder hlookup =>
    ((hstandard model decoder (lookup_newCompiler hnew hlookup)).means hctx).follows
  have hlimit := (limits_of_newCompiler hnew).le
  have hdecides' := decides_of_compile hctx hfollows hlimit hcompile' hengine' hvalid w'
  have hdecides := decides_of_compile hctx hfollows hlimit hcompile hengine hvalid w
  have hanswer : manifest.answer dialect request (engine.decisionTime ctx request w)
      = some .allow := by
    have hanswer' := hdecides'.allow_iff.mp hallow
    rw [Manifest.answer, halgorithm, htime] at hanswer'
    exact allow_of_tightened (htightened.tightened _) hanswer'
  refine ⟨hdecides.allow_iff.mpr hanswer, hdecides.answered.mpr ?_⟩
  rw [hanswer]
  exact Option.some_ne_none _

/-! ### A manifest with one more denial -/

/-- Every entry of the document denies. -/
def denyingText (document : Bytes) : Bool :=
  (Acl.documentCodec.readText document).all fun read =>
    read.entries.toList.all fun entry => entry.effect == effectDeny

theorem effect_of_build {entry : Acl.EntryDocument} {built : Acl.Entry}
    (h : entry.build = .ok built) (hdeny : entry.effect = effectDeny) : built.effect = .deny := by
  rw [Acl.EntryDocument.build, hdeny] at h
  cases h
  rfl

/-- A document whose entries all deny allows nothing. -/
theorem ruling_ne_allow_of_denyingText {document : Bytes} (h : denyingText document = true)
    (request : Request) : (Acl.textLaw document).ruling request ≠ .allow := by
  intro hallow
  obtain ⟨⟨item, hitem⟩, hnone⟩ := Law.ruling_eq_allow.mp hallow
  unfold denyingText at h
  unfold Acl.textLaw Law.ofText at hitem hnone
  cases hread : Acl.documentCodec.readText document with
  | none =>
    rw [hread] at hitem
    exact absurd hitem (Set.notMem_empty item)
  | some read =>
    rw [hread] at hitem hnone h
    obtain ⟨built, hbuilt, hmatches, rfl⟩ := hitem
    obtain ⟨entry, hentry, hbuild⟩ := List.mem_filterMap.mp hbuilt
    have hdeny : entry.effect = effectDeny :=
      beq_iff_eq.mp (List.all_eq_true.mp h entry hentry)
    cases hresult : entry.build with
    | error err =>
      rw [hresult] at hbuild
      cases hbuild
    | ok result =>
      rw [hresult] at hbuild
      cases hbuild
      exact hnone _ ⟨built, hbuilt, hmatches, rfl⟩ (effect_of_build hresult hdeny)

/-- A record that denies the user another document. -/
def guardingRecord : Record where
  id := str "q"
  revision := 1
  model := modelACL
  document := str ("\x7b\"version\":1,\"entries\":[\x7b\"id\":\"d\",\"subject_kind\":\"user\"," ++
    "\"subject_id\":\"u\",\"action\":\"read\",\"resource_type\":\"doc\"," ++
    "\"resource_id\":\"2\",\"effect\":\"deny\"\x7d]\x7d")

theorem denyingText_guardingRecord : denyingText guardingRecord.document = true := by
  decide +kernel

theorem law_of_modelACL {record : Record} (h : record.model = modelACL) (dialect : Dialect) :
    record.law dialect = Acl.textLaw record.document := by
  rw [Record.law, Dialect.law, if_pos h]

def guardedManifest : Manifest :=
  { grantingManifest with policies := some (grantingManifest.records ++ [guardingRecord]) }

theorem algorithm_guardedManifest : guardedManifest.algorithm = grantingManifest.algorithm := by
  simp only [guardedManifest]

theorem records_guardedManifest :
    guardedManifest.records = grantingManifest.records ++ [guardingRecord] := by
  simp only [Manifest.records, guardedManifest, Option.getD_some]

theorem tightening_never_grants_guarded : ∃ snapshot' snapshot : Snapshot Unit,
    (sampleCompiler.compile guardedManifest ()).1 = .ok snapshot' ∧
    (sampleCompiler.compile grantingManifest ()).1 = .ok snapshot ∧
    ((engineOf snapshot').decide .background readingRequest ()).decision.outcome = .allow ∧
    ((engineOf snapshot).decide .background readingRequest ()).decision.outcome = .allow := by
  obtain ⟨snapshot', hsnapshot', -, hallow⟩ := exists_of_answersReading
    (show answersReading .allow (sampleCompiler.compile guardedManifest ()).1 = true
      by decide +kernel)
  obtain ⟨snapshot, hsnapshot⟩ := exists_of_isOk
    (show (sampleCompiler.compile grantingManifest ()).1.isOk = true by decide +kernel)
  have hordered : ∀ manifest : Manifest, manifest.algorithm = grantingManifest.algorithm →
      manifest.ordered = manifest.records := by
    intro manifest halgorithm
    rw [Manifest.ordered, halgorithm, if_neg (by decide +kernel)]
  have htightened : TightenedRecords sampleDialect readingRequest guardedManifest.ordered
      grantingManifest.ordered := by
    rw [hordered guardedManifest algorithm_guardedManifest, hordered grantingManifest rfl,
      records_guardedManifest]
    refine TightenedRecords.append grantingManifest.records fun record hrecord => ?_
    rw [List.mem_singleton] at hrecord
    subst hrecord
    rw [law_of_modelACL rfl]
    exact ruling_ne_allow_of_denyingText denyingText_guardingRecord readingRequest
  have hnever := tightening_never_grants Context.quiet_background newCompiler_sample
    (standard_sampleDecoders _) hsnapshot' hsnapshot
    (show (engineOf snapshot').snapshot = snapshot' from rfl)
    (show (engineOf snapshot).snapshot = snapshot from rfl)
    (show readingRequest.validate = none from rfl)
    (show (engineOf snapshot').decisionTime .background readingRequest ()
      = (engineOf snapshot).decisionTime .background readingRequest () from rfl)
    algorithm_guardedManifest htightened hallow
  exact ⟨snapshot', snapshot, hsnapshot', hsnapshot, hallow, hnever.1⟩

end Authorization.Policy
