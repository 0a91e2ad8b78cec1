import Authorization.DocumentLaws
import Authorization.DocumentRoundTrip
import Authorization.Policy.Compilation

/-!
# The meaning of a manifest

A manifest is a text of texts.  Its records have laws (`Record.law`), its algorithm
combines the rulings of the records that are active (`Manifest.verdict`), and all this
is said of the manifest alone, without compiler, snapshot, index or engine.

`Manifest.Decides` compares one call of `Decide` with it.  It holds for every engine
whose snapshot was compiled from the manifest (`manifest_meaning`), and publishing
keeps it: what is encoded, stored, decoded and compiled again decides by the manifest
that was encoded (`publish_meaning`).
-/

namespace Authorization.Policy

open Authorization.Foundation Authorization.Core Authorization.Foundation.Json

variable {W : Type}

/-! ### Records -/

/-- What documents are read with: the parsers of the standard library, and the meaning
that the application gives to composite documents. -/
structure Dialect where
  floats : FloatText floatFinite
  literals : Abac.Literals
  composite : Bytes → Law

/-- The law of a text under a model. -/
def Dialect.law (dialect : Dialect) (model : Model) : Bytes → Law :=
  if model = modelACL then Acl.textLaw
  else if model = modelRBAC then Rbac.textLaw
  else if model = modelABAC then Abac.textLaw dialect.floats dialect.literals
  else dialect.composite

def Record.law (dialect : Dialect) (record : Record) : Law :=
  dialect.law record.model record.document

/-- The time lies in the window of the record; a nil or zero end is unbounded. -/
def Record.ActiveAt (record : Record) (t : Time) : Prop :=
  (∀ activeFrom ∈ record.activeFrom, activeFrom.isZero = true ∨ activeFrom.nanos ≤ t.nanos) ∧
    ∀ activeUntil ∈ record.activeUntil, activeUntil.isZero = true ∨ t.nanos < activeUntil.nanos

instance (record : Record) (t : Time) : Decidable (record.ActiveAt t) := by
  unfold Record.ActiveAt
  infer_instance

theorem Record.inWindow_policy (record : Record) (evaluator : Evaluator W) (t : Time) :
    (record.policy evaluator).InWindow t ↔ record.ActiveAt t := by
  have h := record.activeAt_policy evaluator t
  rw [PolicyEntry.activeAt_eq, decide_eq_true_eq] at h
  exact h

/-- What a registry may hold under a model: the `Decoder` of the package of that name,
or for composite documents a decoder that gives them the meaning they have. -/
inductive Standard (dialect : Dialect) (ctx : Context W) : Model → Decoder W → Prop
  | acl : Standard dialect ctx modelACL Acl.decoder
  | rbac (ranges : W → Rbac.RoleRanges) (order : W → MapRange Rbac.RoleID) :
      Standard dialect ctx modelRBAC (Rbac.decoder ranges order)
  | abac : Standard dialect ctx modelABAC (Abac.decoder dialect.floats dialect.literals)
  | composite {decoder : Decoder W}
      (means : decoder.Means ctx maxEncodedDocumentBytes dialect.composite) :
      Standard dialect ctx modelComposite decoder

theorem Standard.means {dialect : Dialect} {ctx : Context W} {model : Model} {decoder : Decoder W}
    (h : Standard dialect ctx model decoder) (hctx : ctx.Quiet) :
    decoder.Means ctx maxEncodedDocumentBytes (dialect.law model) := by
  cases h with
  | acl => exact Acl.means_decoder hctx
  | rbac ranges order => exact Rbac.means_decoder ranges order hctx
  | abac => exact Abac.means_decoder dialect.floats dialect.literals hctx
  | composite means => exact means

/-! ### Manifests -/

/-- The records in the order in which they are asked. -/
def Manifest.ordered (manifest : Manifest) : List Record :=
  if manifest.algorithm = algorithmPriorityOrder then
    sortBy (PriorityLe (fun record : Record => record.priority.toInt) Record.id) manifest.records
  else manifest.records

/-- The laws of the active ones among some records. -/
def lawsAt (dialect : Dialect) (time : Time) (records : List Record) : List Law :=
  (records.filter fun record => record.ActiveAt time).map fun record => record.law dialect

theorem lawsAt_cons_of_active {dialect : Dialect} {time : Time} {record : Record} (h : record.ActiveAt time)
    (rest : List Record) :
    lawsAt dialect time (record :: rest) = record.law dialect :: lawsAt dialect time rest := by
  rw [lawsAt, List.filter_cons, if_pos (decide_eq_true h), List.map_cons]
  rfl

theorem lawsAt_cons_of_not {dialect : Dialect} {time : Time} {record : Record}
    (h : ¬ record.ActiveAt time) (rest : List Record) : lawsAt dialect time (record :: rest) = lawsAt dialect time rest := by
  rw [lawsAt, List.filter_cons, if_neg (by rw [decide_eq_true_eq]; exact h)]
  rfl

section Meaning

variable (dialect : Dialect) (manifest : Manifest) (request : Request) (time : Time)

/-- The laws of the active records, in order. -/
def Manifest.activeLaws : List Law := lawsAt dialect time manifest.ordered

/-- **What the manifest says about a request**: the rulings of the active records
combined, and a denial if none applies. -/
noncomputable def Manifest.verdict : Outcome :=
  (jointRuling (combiningAlgorithm manifest.algorithm) request
    (manifest.activeLaws dialect time)).orDeny

/-- The same with the refusals: nothing if one is met before a decisive ruling. -/
noncomputable def Manifest.answer : Option Outcome :=
  jointAnswer (combiningAlgorithm manifest.algorithm) request (manifest.activeLaws dialect time)

/-- **A decision by the manifest.** -/
structure Manifest.Decides (result : DecideResult W) : Prop where
  revision : result.decision.revision = manifest.revision
  /-- There is an error exactly if a refusal is met before a decisive ruling. -/
  answered : result.err = none ↔ manifest.answer dialect request time ≠ none
  ruled : result.err = none → result.decision.outcome = manifest.verdict dialect request time
  /-- An error denies and names an active record that refuses the request. -/
  refused : ∀ err, result.err = some err → result.decision.outcome = .deny ∧
    ∃ record ∈ manifest.records, record.ActiveAt time ∧ ¬ (record.law dialect).Admits request ∧
      ∃ cause, err = .policyEvaluation record.id cause

end Meaning

/-! ### Compiled manifests -/

theorem DecodesAll.exists_decoder {compiler : Compiler W} {records : List Record} {w : W}
    {evaluators : List (Evaluator W)} (h : DecodesAll compiler records w evaluators) :
    ∀ pair ∈ records.zip evaluators, ∃ decoder w',
      compiler.decoders.lookup pair.1.model = some decoder ∧
        (decoder pair.1.document w').1 = .ok (some pair.2) := by
  induction h with
  | nil => exact fun pair hpair => absurd hpair List.not_mem_nil
  | @cons record rest w w' decoder evaluator evaluators hlookup hdecode _ ih =>
    rw [List.zip_cons_cons]
    exact List.forall_mem_cons.mpr ⟨⟨decoder, w, hlookup, by rw [hdecode]⟩, ih⟩

/-- The records and the policies in the order in which they are asked. -/
theorem exists_ordered (manifest : Manifest) {evaluators : List (Evaluator W)}
    (hlength : manifest.records.length = evaluators.length) :
    ∃ pairs : List (Record × Evaluator W), pairs.Perm (manifest.records.zip evaluators) ∧
      manifest.ordered = pairs.map Prod.fst ∧
      orderPolicies (combiningAlgorithm manifest.algorithm)
        (List.zipWith Record.policy manifest.records evaluators)
          = pairs.map fun pair => pair.1.policy pair.2 := by
  have hrecords : (manifest.records.zip evaluators).map Prod.fst = manifest.records :=
    List.map_fst_zip hlength.le
  have hpolicies : List.zipWith Record.policy manifest.records evaluators
      = (manifest.records.zip evaluators).map fun pair => pair.1.policy pair.2 := by
    rw [List.zip, List.map_zipWith]
  by_cases hsorted : manifest.algorithm = algorithmPriorityOrder
  · let pairs := sortBy (PriorityLe (fun pair : Record × Evaluator W => pair.1.priority.toInt)
      (fun pair => pair.1.id)) (manifest.records.zip evaluators)
    have hfirst : pairs.map Prod.fst
        = sortBy (PriorityLe (fun record : Record => record.priority.toInt) Record.id)
          ((manifest.records.zip evaluators).map Prod.fst) :=
      map_sortBy _ _ _ fun _ _ _ _ => Iff.rfl
    have hpolicy : pairs.map (fun pair => pair.1.policy pair.2)
        = sortBy (PriorityLe PolicyEntry.priority PolicyEntry.id)
          ((manifest.records.zip evaluators).map fun pair => pair.1.policy pair.2) :=
      map_sortBy _ _ _ fun _ _ _ _ => Iff.rfl
    refine ⟨pairs, sortBy_perm _ _, ?_, ?_⟩
    · rw [Manifest.ordered, if_pos hsorted, hfirst, hrecords]
    · rw [orderPolicies, if_pos (combiningAlgorithm_eq_priorityOrder.mpr hsorted), hpolicies,
        hpolicy]
  · refine ⟨manifest.records.zip evaluators, List.Perm.refl _, ?_, ?_⟩
    · rw [Manifest.ordered, if_neg hsorted, hrecords]
    · rw [orderPolicies, if_neg fun h => hsorted (combiningAlgorithm_eq_priorityOrder.mp h),
        hpolicies]

/-- The law of the record with an identifier. -/
def Manifest.lawOf (dialect : Dialect) (manifest : Manifest) (id : PolicyID) : Law :=
  match manifest.records.find? fun record => record.id = id with
  | some record => record.law dialect
  | none => .refusing

theorem Manifest.lawOf_id {manifest : Manifest} (h : manifest.validate = none) (dialect : Dialect)
    {record : Record} (hrecord : record ∈ manifest.records) :
    manifest.lawOf dialect record.id = record.law dialect := by
  have hinjective := List.inj_on_of_nodup_map (sound_of_validate h).1
  unfold Manifest.lawOf
  cases hfind : manifest.records.find? fun other => other.id = record.id with
  | none =>
    have hnone := List.find?_eq_none.mp hfind record hrecord
    simp at hnone
  | some found =>
    have hid : found.id = record.id := by simpa using List.find?_some hfind
    rw [hinjective (List.mem_of_find?_eq_some hfind) hrecord hid]

theorem decoders_withCompilerLimits (overrides : List CompilerLimits) (compiler : Compiler W) :
    ((overrides.map withCompilerLimits).foldl (fun compiler option => option compiler)
      compiler).decoders = compiler.decoders := by
  refine List.foldlRecOn (motive := fun other : Compiler W => other.decoders = compiler.decoders)
    _ _ rfl fun other h option hoption => ?_
  obtain ⟨override, -, rfl⟩ := List.mem_map.mp hoption
  exact h

/-- What is copied was registered. -/
theorem lookup_copyDecoders {decoders : GoMap Model (Option (Decoder W))} {model : Model}
    {decoder : Decoder W} : ∀ {models : List Model} {copied copied' : GoMap Model (Decoder W)},
    copyDecoders decoders models copied = .ok copied' →
    (copied.lookup model = some decoder → decoders.lookup model = some (some decoder)) →
    copied'.lookup model = some decoder → decoders.lookup model = some (some decoder) := by
  intro models
  induction models with
  | nil =>
    intro copied copied' h hcopied
    cases h
    exact hcopied
  | cons next rest ih =>
    intro copied copied' h hcopied
    unfold copyDecoders at h
    split at h
    · rename_i registered hregistered
      refine ih h fun hlookup => ?_
      by_cases hmodel : model = next
      · rw [hmodel, AList.lookup_insert] at hlookup
        cases hlookup
        rw [hmodel]
        exact hregistered
      · rw [AList.lookup_insert_ne hmodel] at hlookup
        exact hcopied hlookup
    · cases h

/-- **`NewCompiler` registers nothing of its own.** -/
theorem lookup_newCompiler {range : MapRange Model} {decoders : GoMap Model (Option (Decoder W))}
    {overrides : List CompilerLimits} {compiler : Compiler W}
    (h : newCompiler range decoders (overrides.map withCompilerLimits) = .ok compiler)
    {model : Model} {decoder : Decoder W} (hlookup : compiler.decoders.lookup model = some decoder) :
    decoders.lookup model = some (some decoder) := by
  unfold newCompiler at h
  split at h
  · cases h
  · rename_i copied hcopied
    injection h with h
    subst h
    rw [decoders_withCompilerLimits] at hlookup
    refine lookup_copyDecoders hcopied (fun hempty => ?_) hlookup
    rw [AList.lookup_empty] at hempty
    cases hempty

section Compiled

variable {dialect : Dialect} {ctx : Context W} {compiler : Compiler W} {manifest : Manifest}
  {snapshot : Snapshot W}

/-- **A compiled manifest decides by its meaning.** -/
theorem decides_of_compile (hctx : ctx.Quiet)
    (hdecoders : ∀ model decoder, compiler.decoders.lookup model = some decoder →
      decoder.Follows ctx (dialect.law model))
    (hlimit : 0 ≤ compiler.limits.maxTotalDocumentBytes) {w : W}
    (hcompile : (compiler.compile manifest w).1 = .ok snapshot) {engine : Engine W}
    (hengine : engine.snapshot = snapshot) {request : Request} (hvalid : request.validate = none)
    (w' : W) :
    manifest.Decides dialect request (engine.decisionTime ctx request w')
      (engine.decide ctx request w') := by
  obtain ⟨hmanifest, -, definitions, hdefinitions, hsnapshot⟩ := compile_eq_ok.mp hcompile
  obtain ⟨-, -, evaluators, hdecodes, rfl⟩ := (compileRecords_eq_ok_iff hlimit).mp hdefinitions
  obtain ⟨snapshot', hsnapshot', hrevision, halgorithm, hpolicies⟩ :=
    newSnapshot_of_validate hmanifest evaluators
  rw [hsnapshot] at hsnapshot'
  cases hsnapshot'
  obtain ⟨pairs, hperm, hordered, hentries⟩ := exists_ordered manifest hdecodes.length_eq
  rw [hentries] at hpolicies
  have hrecord : ∀ pair ∈ pairs, pair.1 ∈ manifest.records := fun pair hpair =>
    (List.of_mem_zip (hperm.mem_iff.mp hpair)).1
  have hfollows : ∀ policy ∈ engine.snapshot.policies,
      policy.evaluator.Follows ctx (manifest.lawOf dialect policy.id) := by
    intro policy hpolicy
    rw [hengine, hpolicies] at hpolicy
    obtain ⟨pair, hpair, rfl⟩ := List.mem_map.mp hpolicy
    obtain ⟨decoder, w₁, hlookup, hdecoded⟩ :=
      hdecodes.exists_decoder pair (hperm.mem_iff.mp hpair)
    have hlaw : manifest.lawOf dialect pair.1.id = pair.1.law dialect :=
      Manifest.lawOf_id hmanifest dialect (hrecord pair hpair)
    show pair.2.Follows ctx (manifest.lawOf dialect pair.1.id)
    rw [hlaw]
    exact hdecoders _ _ hlookup hdecoded
  have hlawful := decide_lawful engine hvalid hctx hfollows w'
  generalize engine.decisionTime ctx request w' = time at hlawful ⊢
  rw [hengine] at hlawful
  -- the policies have the laws of their records
  have hlaws : Core.activeLaws (manifest.lawOf dialect) time snapshot.policies
      = manifest.activeLaws dialect time := by
    rw [Core.activeLaws, Manifest.activeLaws, lawsAt, hpolicies, hordered, List.filter_map,
      List.filter_map, List.map_map, List.map_map]
    have hfilter : pairs.filter ((fun policy : PolicyEntry W => decide (policy.InWindow time)) ∘
          fun pair => pair.1.policy pair.2)
        = pairs.filter ((fun record : Record => decide (record.ActiveAt time)) ∘ Prod.fst) :=
      List.filter_congr fun pair _ =>
        decide_eq_decide.mpr (pair.1.inWindow_policy pair.2 time)
    rw [hfilter]
    exact List.map_congr_left fun pair hpair =>
      Manifest.lawOf_id hmanifest dialect (hrecord pair (List.mem_filter.mp hpair).1)
  refine ⟨hlawful.revision.trans hrevision, ?_, fun herr => ?_, fun err herr => ?_⟩
  · rw [hlawful.answered, hlaws, halgorithm]
    rfl
  · rw [hlawful.ruled herr, hlaws, halgorithm]
    rfl
  · obtain ⟨hdeny, policy, hpolicy, hwindow, hrefuses, cause, rfl⟩ := hlawful.refused err herr
    rw [hpolicies] at hpolicy
    obtain ⟨pair, hpair, rfl⟩ := List.mem_map.mp hpolicy
    have hlaw : manifest.lawOf dialect pair.1.id = pair.1.law dialect :=
      Manifest.lawOf_id hmanifest dialect (hrecord pair hpair)
    have hadmits : ¬ (manifest.lawOf dialect pair.1.id).Admits request := hrefuses
    rw [hlaw] at hadmits
    exact ⟨hdeny, pair.1, hrecord pair hpair, (pair.1.inWindow_policy pair.2 time).mp hwindow,
      hadmits, cause, rfl⟩

/-- **The engine decides what the manifest says.** -/
theorem manifest_meaning (hctx : ctx.Quiet) {range : MapRange Model}
    {decoders : GoMap Model (Option (Decoder W))} {overrides : List CompilerLimits}
    (hnew : newCompiler range decoders (overrides.map withCompilerLimits) = .ok compiler)
    (hstandard : ∀ model decoder, decoders.lookup model = some (some decoder) →
      Standard dialect ctx model decoder)
    {w : W} (hcompile : (compiler.compile manifest w).1 = .ok snapshot) {engine : Engine W}
    (hengine : engine.snapshot = snapshot) {request : Request} (hvalid : request.validate = none)
    (w' : W) :
    manifest.Decides dialect request (engine.decisionTime ctx request w')
      (engine.decide ctx request w') :=
  decides_of_compile hctx
    (fun model decoder hlookup =>
      ((hstandard model decoder (lookup_newCompiler hnew hlookup)).means hctx).follows)
    (limits_of_newCompiler hnew).le hcompile hengine hvalid w'

/-! ### Published manifests -/

theorem ordered_normalize (manifest : Manifest) :
    manifest.normalize.ordered = manifest.ordered.map Record.normalize := by
  have halgorithm : manifest.normalize.algorithm = manifest.algorithm := rfl
  unfold Manifest.ordered
  rw [halgorithm, Manifest.records_normalize]
  split
  · have hsorted := map_sortBy (PriorityLe (fun record : Record => record.priority.toInt) Record.id)
      (PriorityLe (fun record : Record => record.priority.toInt) Record.id) Record.normalize
      (l := manifest.records) fun _ _ _ _ => Iff.rfl
    exact hsorted.symm
  · rfl

theorem mem_ordered {record : Record} : record ∈ manifest.ordered ↔ record ∈ manifest.records := by
  unfold Manifest.ordered
  split
  · exact mem_sortBy _
  · rfl

/-- Records keep their laws if their documents keep their values. -/
theorem decides_of_normalize
    (hlaw : ∀ record ∈ manifest.records, record.normalize.law dialect = record.law dialect)
    {request : Request} {time : Time} {result : DecideResult W}
    (h : manifest.normalize.Decides dialect request time result) :
    manifest.Decides dialect request time result := by
  have hlaws : manifest.normalize.activeLaws dialect time = manifest.activeLaws dialect time := by
    rw [Manifest.activeLaws, Manifest.activeLaws, ordered_normalize, lawsAt, lawsAt,
      List.filter_map, List.map_map]
    exact List.map_congr_left fun record hrecord =>
      hlaw record (mem_ordered.mp (List.mem_filter.mp hrecord).1)
  have halgorithm : manifest.normalize.algorithm = manifest.algorithm := rfl
  refine ⟨h.revision, ?_, fun herr => ?_, fun err herr => ?_⟩
  · rw [h.answered, Manifest.answer, Manifest.answer, hlaws, halgorithm]
  · rw [h.ruled herr, Manifest.verdict, Manifest.verdict, hlaws, halgorithm]
  · obtain ⟨hdeny, record', hrecord', hactive, hrefuses, cause, rfl⟩ := h.refused err herr
    rw [manifest.records_normalize] at hrecord'
    obtain ⟨record, hrecord, rfl⟩ := List.mem_map.mp hrecord'
    rw [hlaw record hrecord] at hrefuses
    exact ⟨hdeny, record, hrecord, hactive, hrefuses, cause, rfl⟩

/-- **Publishing keeps the meaning.**  What `Encode` writes of a decoded manifest that
compiles is decoded and, as long as the indented documents fit, compiled again, and an
engine of the result decides by the manifest that was encoded. -/
theorem publish_meaning (hctx : ctx.Quiet) {range : MapRange Model}
    {decoders : GoMap Model (Option (Decoder W))} {overrides : List CompilerLimits}
    (hnew : newCompiler range decoders (overrides.map withCompilerLimits) = .ok compiler)
    (hstandard : ∀ model decoder, decoders.lookup model = some (some decoder) →
      Standard dialect ctx model decoder)
    {stored encoded : Bytes} (hdecode : decode stored = .ok manifest) {w : W}
    (hcompile : (compiler.compile manifest w).1 = .ok snapshot)
    (hencode : encode manifest = .ok encoded) (w' : W) :
    ∃ manifest', decode encoded = .ok manifest' ∧
      (compiler.Fits (fun _ => maxEncodedDocumentBytes) manifest' →
        ∃ snapshot', (compiler.compile manifest' w').1 = .ok snapshot' ∧
          ∀ engine : Engine W, engine.snapshot = snapshot' →
          ∀ request : Request, request.validate = none → ∀ w'',
            manifest.Decides dialect request (engine.decisionTime ctx request w'')
              (engine.decide ctx request w'')) := by
  have hmeans : ∀ model decoder, compiler.decoders.lookup model = some decoder →
      decoder.Means ctx maxEncodedDocumentBytes (dialect.law model) :=
    fun model decoder hlookup =>
      (hstandard model decoder (lookup_newCompiler hnew hlookup)).means hctx
  have hlimit := (limits_of_newCompiler hnew).le
  have hread := read_of_decode hdecode
  obtain ⟨hvalid, t, ht, -⟩ := encode_eq_ok.mp hencode
  have hsame := sameManifest_normalize ht
  refine ⟨manifest.normalize, decode_of_encode hencode (fun record hr => (hread record hr).1)
    (fun record hr => (hread record hr).2), fun hfits => ?_⟩
  obtain ⟨snapshot', hcompile', -⟩ := compile_sameManifest
    (fun model decoder hlookup => (hmeans model decoder hlookup).reads) hcompile hsame
    (validate_normalize hvalid ht) hfits w'
  -- every record that was compiled has a decoder, which gives it its meaning
  have hlaw : ∀ record ∈ manifest.records, record.normalize.law dialect = record.law dialect := by
    intro record hrecord
    obtain ⟨-, -, definitions, hdefinitions, -⟩ := compile_eq_ok.mp hcompile
    obtain ⟨-, -, evaluators, hdecodes, -⟩ := (compileRecords_eq_ok_iff hlimit).mp hdefinitions
    have hrecords : (manifest.records.zip evaluators).map Prod.fst = manifest.records :=
      List.map_fst_zip hdecodes.length_eq.le
    rw [← hrecords] at hrecord
    obtain ⟨pair, hpair, rfl⟩ := List.mem_map.mp hrecord
    obtain ⟨decoder, -, hlookup, -⟩ := hdecodes.exists_decoder pair hpair
    have hpolicies := hsame.policies
    rw [Manifest.records_normalize, List.forall₂_map_right_iff, List.forall₂_same] at hpolicies
    exact ((hmeans _ _ hlookup).byValue
      (hpolicies pair.1 (List.of_mem_zip hpair).1).document).symm
  refine ⟨snapshot', hcompile', fun engine hengine request hrequest w'' => ?_⟩
  exact decides_of_normalize hlaw (decides_of_compile hctx
    (fun model decoder hlookup => (hmeans model decoder hlookup).follows) hlimit hcompile' hengine
    hrequest w'')

end Compiled

/-! ### Manifests of access lists and roles -/

/-- A manifest with one grant, on one line. -/
def grantingText : Bytes :=
  str ("\x7b\"format\":\"authorization.policy/v1\",\"revision\":1,\"algorithm\":\"deny-overrides\"," ++
    "\"policies\":[\x7b\"id\":\"p\",\"revision\":1,\"model\":\"acl\",\"document\":" ++
    "\x7b\"version\":1,\"entries\":[\x7b\"id\":\"e\",\"subject_kind\":\"user\"," ++
    "\"subject_id\":\"u\",\"action\":\"read\",\"resource_type\":\"doc\"," ++
    "\"effect\":\"allow\"\x7d]\x7d\x7d]\x7d")

def grantingManifest : Manifest :=
  match decode grantingText with
  | .ok manifest => manifest
  | .error _ => {}

def sampleDialect : Dialect := ⟨sampleFloats, sampleLiterals, fun _ => .refusing⟩

/-- The decoders of access lists and roles. -/
def sampleDecoders : GoMap Model (Option (Decoder Unit)) :=
  ((∅ : GoMap Model (Option (Decoder Unit))).insert modelACL (some Acl.decoder)).insert modelRBAC
    (some (Rbac.decoder (fun _ => {}) fun _ => .insertion))

theorem standard_sampleDecoders (ctx : Context Unit) : ∀ model decoder,
    sampleDecoders.lookup model = some (some decoder) →
      Standard sampleDialect ctx model decoder := by
  intro model decoder h
  by_cases hrbac : model = modelRBAC
  · rw [hrbac, sampleDecoders, AList.lookup_insert] at h
    cases h
    rw [hrbac]
    exact .rbac _ _
  · rw [sampleDecoders, AList.lookup_insert_ne hrbac] at h
    by_cases hacl : model = modelACL
    · rw [hacl, AList.lookup_insert] at h
      cases h
      rw [hacl]
      exact .acl
    · rw [AList.lookup_insert_ne hacl, AList.lookup_empty] at h
      cases h

def sampleCompiler : Compiler Unit :=
  match newCompiler .insertion sampleDecoders ([].map withCompilerLimits) with
  | .ok compiler => compiler
  | .error _ => { decoders := ∅ }

theorem newCompiler_sample :
    newCompiler .insertion sampleDecoders ([].map withCompilerLimits) = .ok sampleCompiler := by
  rfl

def readingRequest : Request :=
  ⟨⟨str "user", str "u", [], ∅⟩, str "read", ⟨str "doc", [], ∅⟩, [], {}, ∅⟩

def engineOf (snapshot : Snapshot Unit) : Engine Unit := ⟨snapshot, {}, fun w => (.zero, w)⟩

/-- The compiled snapshot answers the request so. -/
def answersReading (outcome : Outcome) : Except GoError (Snapshot Unit) → Bool
  | .ok snapshot =>
    ((engineOf snapshot).decide .background readingRequest ()).err.isNone &&
      ((engineOf snapshot).decide .background readingRequest ()).decision.outcome == outcome
  | .error _ => false

theorem exists_of_answersReading {outcome : Outcome} {compiled : Except GoError (Snapshot Unit)}
    (h : answersReading outcome compiled = true) : ∃ snapshot, compiled = .ok snapshot ∧
      ((engineOf snapshot).decide .background readingRequest ()).err = none ∧
      ((engineOf snapshot).decide .background readingRequest ()).decision.outcome = outcome := by
  cases compiled with
  | error err => cases h
  | ok snapshot =>
    obtain ⟨herr, houtcome⟩ := Bool.and_eq_true_iff.mp h
    exact ⟨snapshot, rfl, Option.isNone_iff_eq_none.mp herr, beq_iff_eq.mp houtcome⟩

/-- Allows the reading. -/
def readersDocument : String :=
  "\x7b\"version\":1,\"entries\":[\x7b\"id\":\"e\",\"subject_kind\":\"user\"," ++
    "\"subject_id\":\"u\",\"action\":\"read\",\"resource_type\":\"doc\"," ++
    "\"effect\":\"allow\"\x7d,\x7b\"id\":\"f\",\"subject_kind\":\"user\"," ++
    "\"subject_id\":\"v\",\"action\":\"read\",\"resource_type\":\"doc\"," ++
    "\"effect\":\"deny\"\x7d]\x7d"

/-- Denies the reading, through an inherited role. -/
def guestsDocument : String :=
  "\x7b\"version\":1,\"roles\":[\x7b\"id\":\"base\"\x7d,\x7b\"id\":\"guest\"," ++
    "\"parents\":[\"base\"]\x7d],\"permissions\":[\x7b\"id\":\"n\",\"role_id\":\"base\"," ++
    "\"action\":\"read\",\"resource_type\":\"doc\",\"effect\":\"deny\"\x7d]," ++
    "\"assignments\":[\x7b\"id\":\"a\",\"subject_kind\":\"user\",\"subject_id\":\"u\"," ++
    "\"role_id\":\"guest\"\x7d]\x7d"

/-- An access list, one that is not active yet, and roles. -/
def combiningText : Bytes :=
  str ("\x7b\"format\":\"authorization.policy/v1\",\"revision\":3,\"algorithm\":\"deny-overrides\"," ++
    "\"policies\":[\x7b\"id\":\"p\",\"revision\":1,\"model\":\"acl\",\"document\":" ++
    readersDocument ++ "\x7d,\x7b\"id\":\"later\",\"revision\":1,\"model\":\"acl\"," ++
    "\"active_from\":\"2030-01-01T00:00:00Z\",\"document\":\x7b\"version\":1\x7d\x7d," ++
    "\x7b\"id\":\"q\",\"revision\":2,\"model\":\"rbac\",\"document\":" ++
    guestsDocument ++ "\x7d]\x7d")

def combiningManifest : Manifest where
  format := formatV1
  revision := 3
  algorithm := algorithmDenyOverrides
  policies := some [aclRecord (str "p") (str readersDocument),
    { aclRecord (str "later") (str "\x7b\"version\":1\x7d") with
      activeFrom := some ⟨64029052800000000000, 0⟩ },
    { id := str "q", revision := 2, model := modelRBAC, document := str guestsDocument }]

theorem decode_combiningText : decode combiningText = .ok combiningManifest := by
  decide +kernel

theorem manifest_meaning_combining : ∃ snapshot : Snapshot Unit,
    (sampleCompiler.compile combiningManifest ()).1 = .ok snapshot ∧
    ((engineOf snapshot).decide .background readingRequest ()).decision.matchedPolicyIDs
      = [str "e", str "n"] ∧
    ((engineOf snapshot).decide .background readingRequest ()).decision.outcome = .deny ∧
    combiningManifest.verdict sampleDialect readingRequest .zero = .deny := by
  obtain ⟨snapshot, hsnapshot, herr, hdeny⟩ := exists_of_answersReading
    (show answersReading .deny (sampleCompiler.compile combiningManifest ()).1 = true
      by decide +kernel)
  have hids : (sampleCompiler.compile combiningManifest ()).1.map (fun snapshot =>
      ((engineOf snapshot).decide .background readingRequest ()).decision.matchedPolicyIDs)
        = .ok [str "e", str "n"] := by
    decide +kernel
  rw [hsnapshot] at hids
  have hmeaning := manifest_meaning Context.quiet_background newCompiler_sample
    (standard_sampleDecoders _) hsnapshot (show (engineOf snapshot).snapshot = snapshot from rfl)
    (show readingRequest.validate = none from rfl) ()
  exact ⟨snapshot, hsnapshot, Except.ok.inj hids, hdeny, (hmeaning.ruled herr).symm.trans hdeny⟩

theorem publish_meaning_combining : ∃ (encoded : Bytes) (snapshot' : Snapshot Unit),
    encode combiningManifest = .ok encoded ∧
    (sampleCompiler.compile combiningManifest.normalize ()).1 = .ok snapshot' ∧
    combiningManifest.Decides sampleDialect readingRequest .zero
      ((engineOf snapshot').decide .background readingRequest ()) := by
  obtain ⟨snapshot, hsnapshot⟩ := exists_of_isOk
    (show (sampleCompiler.compile combiningManifest ()).1.isOk = true by decide +kernel)
  obtain ⟨encoded, hencoded⟩ := exists_of_isOk
    (show (encode combiningManifest).isOk = true by decide +kernel)
  obtain ⟨manifest', hdecode, hpublished⟩ := publish_meaning Context.quiet_background
    newCompiler_sample (standard_sampleDecoders _) decode_combiningText hsnapshot hencoded ()
  have hnormal : manifest' = combiningManifest.normalize := by
    rw [decode_of_encode hencoded (by decide +kernel) fun record hrecord =>
      (read_of_decode decode_combiningText record hrecord).2] at hdecode
    exact (Except.ok.inj hdecode).symm
  subst hnormal
  obtain ⟨snapshot', hsnapshot', hdecides⟩ :=
    hpublished ⟨by decide +kernel, by decide +kernel, by decide +kernel⟩
  exact ⟨encoded, snapshot', hencoded, hsnapshot',
    hdecides (engineOf snapshot') rfl readingRequest rfl ()⟩

end Authorization.Policy
