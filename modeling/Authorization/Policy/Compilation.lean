import Authorization.Core.ShortCircuit
import Authorization.Policy.Compiler

/-!
# What compilation accepts and makes

`Compile` goes through two validators: `Manifest.Validate`, over optional times, and
`NewSnapshot`, over times that may be zero.  The first implies the second
(`newSnapshot_of_validate`), so the second never fails here.  In between the loop
takes the documents off a byte budget, one after the other; that is a bound on
their sum (`compileRecords_eq_ok_iff`), and the budget never goes below zero
(`Reaches.budget`) wherever the loop gets to (`Reaches.compileRecords_eq`).

What comes out are the records with the evaluators that the decoders made of their
documents (`Record.policy`), in the order of the manifest or sorted.
-/

namespace Authorization.Policy

open Authorization.Foundation Authorization.Core

variable {W : Type}

/-! ### Decoding the documents -/

/-- The decoders of the records, called one after the other, are registered and
return these evaluators. -/
inductive DecodesAll (compiler : Compiler W) : List Record → W → List (Evaluator W) → Prop
  | nil (w : W) : DecodesAll compiler [] w []
  | cons {record : Record} {rest : List Record} {w w' : W} {decoder : Decoder W}
      {evaluator : Evaluator W} {evaluators : List (Evaluator W)}
      (registered : compiler.decoders.lookup record.model = some decoder)
      (decoded : decoder record.document w = (.ok (some evaluator), w'))
      (others : DecodesAll compiler rest w' evaluators) :
      DecodesAll compiler (record :: rest) w (evaluator :: evaluators)

theorem DecodesAll.length_eq {compiler : Compiler W} {records : List Record} {w : W}
    {evaluators : List (Evaluator W)} (h : DecodesAll compiler records w evaluators) :
    records.length = evaluators.length := by
  induction h with
  | nil => rfl
  | cons _ _ _ ih => rw [List.length_cons, List.length_cons, ih]

theorem documentBytes_cons (record : Record) (rest : List Record) :
    documentBytes (record :: rest) = record.document.length + documentBytes rest := by
  rw [documentBytes, List.map_cons, List.sum_cons]
  rfl

/-- **The loop of `Compile`** accepts the documents that fit one by one and
together, and decode. -/
theorem compileRecords_eq_ok_iff {compiler : Compiler W} : ∀ {records : List Record} {total : Int}
    {w : W} {definitions : List (PolicyDefinition W)},
    total ≤ compiler.limits.maxTotalDocumentBytes →
    ((compileRecords compiler total records w).1 = .ok definitions ↔
      (∀ record ∈ records,
        (record.document.length : Int) ≤ compiler.limits.maxDocumentBytes) ∧
      total + documentBytes records ≤ compiler.limits.maxTotalDocumentBytes ∧
      ∃ evaluators, DecodesAll compiler records w evaluators ∧
        definitions = List.zipWith Record.definition records evaluators) := by
  intro records
  induction records with
  | nil =>
    intro total w definitions htotal
    rw [compileRecords]
    constructor
    · intro h
      cases h
      exact ⟨fun _ h => absurd h List.not_mem_nil, by rw [documentBytes]; simpa using htotal,
        [], .nil w, rfl⟩
    · rintro ⟨-, -, evaluators, hdecodes, rfl⟩
      cases hdecodes
      rfl
  | cons record rest ih =>
    intro total w definitions htotal
    rw [compileRecords_cons_eq_ok, documentBytes_cons, List.forall_mem_cons]
    push_cast
    constructor
    · rintro ⟨hdocument, hbudget, decoder, evaluator, w', definitions', hlookup, hdecode, hrest, rfl⟩
      obtain ⟨hdocuments, hsum, evaluators, hdecodes, rfl⟩ := (ih (by omega)).mp hrest
      exact ⟨⟨hdocument, hdocuments⟩, by omega, evaluator :: evaluators,
        .cons hlookup hdecode hdecodes, rfl⟩
    · rintro ⟨⟨hdocument, hdocuments⟩, hsum, evaluators, hdecodes, rfl⟩
      cases hdecodes with
      | @cons _ _ _ w' decoder evaluator evaluators hlookup hdecode hdecodes =>
        refine ⟨hdocument, by omega, decoder, evaluator, w', _, hlookup, hdecode, ?_, rfl⟩
        exact (ih (by omega)).mpr ⟨hdocuments, by omega, evaluators, hdecodes, rfl⟩

/-! ### The budget -/

/-- The loop gets from one state to another: the bytes so far and the records to go. -/
inductive Reaches (compiler : Compiler W) :
    Int → List Record → W → Int → List Record → W → Prop
  | start (total : Int) (records : List Record) (w : W) :
      Reaches compiler total records w total records w
  | step {total total' : Int} {record : Record} {rest records : List Record} {w w' w'' : W}
      {decoder : Decoder W} {evaluator : Evaluator W}
      (document : (record.document.length : Int) ≤ compiler.limits.maxDocumentBytes)
      (budget : (record.document.length : Int) ≤ compiler.limits.maxTotalDocumentBytes - total)
      (registered : compiler.decoders.lookup record.model = some decoder)
      (decoded : decoder record.document w = (.ok (some evaluator), w'))
      (others : Reaches compiler (total + record.document.length) rest w' total' records w'') :
      Reaches compiler total (record :: rest) w total' records w''

/-- **From a state it gets to the loop goes on**, behind what it has made so far. -/
theorem Reaches.compileRecords_eq {compiler : Compiler W} {total total' : Int}
    {records records' : List Record} {w w' : W}
    (h : Reaches compiler total records w total' records' w') :
    ∃ made : List (PolicyDefinition W), compileRecords compiler total records w
      = ((compileRecords compiler total' records' w').1.map (made ++ ·),
          (compileRecords compiler total' records' w').2) := by
  induction h with
  | start total records w =>
    refine ⟨[], Prod.ext ?_ rfl⟩
    cases (compileRecords compiler total records w).1 with
    | error err => rfl
    | ok definitions => rfl
  | @step total total' record rest records w w' w'' decoder evaluator document budget registered
      decoded _ ih =>
    obtain ⟨made, ih⟩ := ih
    refine ⟨record.definition evaluator :: made, ?_⟩
    rw [compileRecords]
    dsimp only
    rw [if_neg (not_lt.mpr document), if_neg (not_lt.mpr budget), registered]
    dsimp only
    rw [decoded]
    dsimp only
    rw [ih]
    rcases compileRecords compiler total' records w'' with ⟨err | definitions, w₁⟩
    · rfl
    · rfl

/-- The bytes so far never exceed the limit, which is an `int`. -/
theorem Reaches.budget {compiler : Compiler W} {total total' : Int} {records records' : List Record}
    {w w' : W} (h : Reaches compiler total records w total' records' w') (hstart : 0 ≤ total)
    (hlimit : total ≤ compiler.limits.maxTotalDocumentBytes) :
    0 ≤ total' ∧ 0 ≤ compiler.limits.maxTotalDocumentBytes - total' := by
  induction h with
  | start total records w => exact ⟨hstart, by omega⟩
  | step _ hbudget _ _ _ ih => exact ih (by omega) (by omega)

/-! ### The second validator -/

/-- The entry of a record. -/
def Record.policy (record : Record) (evaluator : Evaluator W) : PolicyEntry W where
  id := record.id
  revision := record.revision
  priority := record.priority.toInt
  activeFrom := record.activeFrom.getD .zero
  activeUntil := record.activeUntil.getD .zero
  metadata := record.metadata
  evaluator := evaluator

theorem isZero_zero : Time.zero.isZero = true := by decide

/-- A nil or zero end is unbounded. -/
theorem Record.activeAt_policy (record : Record) (evaluator : Evaluator W) (t : Time) :
    (record.policy evaluator).activeAt t = true ↔
      (∀ activeFrom, record.activeFrom = some activeFrom →
        activeFrom.isZero = true ∨ activeFrom.nanos ≤ t.nanos) ∧
      (∀ activeUntil, record.activeUntil = some activeUntil →
        activeUntil.isZero = true ∨ t.nanos < activeUntil.nanos) := by
  rw [PolicyEntry.activeAt_eq, decide_eq_true_eq, PolicyEntry.InWindow]
  refine and_congr ?_ ?_
  · show ((record.activeFrom.getD .zero).isZero = true ∨ _) ↔ _
    cases hfrom : record.activeFrom with
    | none => simp [isZero_zero]
    | some activeFrom => simp [Record.policy, hfrom]
  · show ((record.activeUntil.getD .zero).isZero = true ∨ _) ↔ _
    cases huntil : record.activeUntil with
    | none => simp [isZero_zero]
    | some activeUntil => simp [Record.policy, huntil]

/-- What `Validate` asks of a record besides its model and document. -/
structure Record.Sound (record : Record) : Prop where
  id_ne : record.id ≠ []
  revision_ne : record.revision ≠ 0
  window : record.windowEmpty = false

theorem sound_of_validate {manifest : Manifest} (h : manifest.validate = none) :
    (manifest.records.map Record.id).Nodup ∧ ∀ record ∈ manifest.records, record.Sound := by
  obtain ⟨hnodup, -, hchecked⟩ := checkEach_eq_none checkRecord_new (validate_eq_none.mp h).2
  refine ⟨hnodup, fun record hrecord => ?_⟩
  obtain ⟨index, seen, hcheck⟩ := hchecked record hrecord
  obtain ⟨⟨hid, hrevision, -⟩, -, hwindow⟩ := checkRecord_eq_none.mp hcheck
  exact ⟨hid, hrevision, hwindow⟩

/-- A window that the record has is one that the definition has. -/
theorem Record.Sound.definition_window {record : Record} (h : record.Sound)
    (evaluator : Evaluator W) :
    (!(record.definition evaluator).activeFrom.isZero &&
      !(record.definition evaluator).activeUntil.isZero &&
      !(record.definition evaluator).activeUntil.after
        (record.definition evaluator).activeFrom) = false := by
  have hwindow := h.window
  unfold Record.windowEmpty at hwindow
  show (!(record.activeFrom.getD .zero).isZero && !(record.activeUntil.getD .zero).isZero &&
    !(record.activeUntil.getD .zero).after (record.activeFrom.getD .zero)) = false
  cases hfrom : record.activeFrom with
  | none => simp [isZero_zero]
  | some activeFrom =>
    cases huntil : record.activeUntil with
    | none => simp [isZero_zero]
    | some activeUntil =>
      rw [hfrom, huntil] at hwindow
      dsimp only at hwindow
      simp [hwindow]

theorem Record.Sound.admits {record : Record} (h : record.Sound) (revision : Revision)
    (evaluator : Evaluator W) :
    (record.definition evaluator).Admits revision (record.policy evaluator) := by
  refine ⟨rfl, h.id_ne, h.definition_window evaluator, ?_⟩
  show record.policy evaluator = (record.definition evaluator).entry revision evaluator
  rw [PolicyDefinition.entry, if_neg (c := (record.definition evaluator).revision = 0) h.revision_ne]
  rfl

theorem admits_zipWith (revision : Revision) : ∀ {records : List Record}
    {evaluators : List (Evaluator W)}, (∀ record ∈ records, record.Sound) →
    List.Forall₂ (PolicyDefinition.Admits revision)
      (List.zipWith Record.definition records evaluators)
      (List.zipWith Record.policy records evaluators) := by
  intro records
  induction records with
  | nil => intro evaluators _; exact .nil
  | cons record rest ih =>
    intro evaluators hsound
    cases evaluators with
    | nil => exact .nil
    | cons evaluator others =>
      exact .cons ((hsound record List.mem_cons_self).admits revision evaluator)
        (ih fun other hother => hsound other (List.mem_cons_of_mem _ hother))

theorem map_id_zipWith : ∀ {records : List Record} {evaluators : List (Evaluator W)},
    (List.zipWith Record.definition records evaluators).map PolicyDefinition.id
      <+: records.map Record.id := by
  intro records
  induction records with
  | nil => intro evaluators; exact List.prefix_rfl
  | cons record rest ih =>
    intro evaluators
    cases evaluators with
    | nil => exact List.nil_prefix
    | cons evaluator others => exact (List.prefix_cons_inj _).mpr ih

theorem combiningAlgorithm_le (algorithm : Algorithm) :
    combiningAlgorithm algorithm ≤ .priorityOrder := by
  unfold combiningAlgorithm
  split
  · decide
  · split
    · decide
    · split
      · decide
      · split
        · decide
        · decide

/-- **`NewSnapshot` accepts what `Validate` does**, whatever the evaluators. -/
theorem newSnapshot_of_validate {manifest : Manifest} (hvalid : manifest.validate = none)
    (evaluators : List (Evaluator W)) :
    ∃ snapshot, newSnapshot manifest.revision (combiningAlgorithm manifest.algorithm)
        (List.zipWith Record.definition manifest.records evaluators) = .ok snapshot ∧
      snapshot.revision = manifest.revision ∧
      snapshot.algorithm = combiningAlgorithm manifest.algorithm ∧
      snapshot.policies = orderPolicies (combiningAlgorithm manifest.algorithm)
        (List.zipWith Record.policy manifest.records evaluators) := by
  obtain ⟨⟨-, hrevision, -⟩, -⟩ := validate_eq_none.mp hvalid
  obtain ⟨hnodup, hsound⟩ := sound_of_validate hvalid
  have halgorithm := combiningAlgorithm_le manifest.algorithm
  have hentries : newEntries manifest.revision 0 []
      (List.zipWith Record.definition manifest.records evaluators)
        = .ok (List.zipWith Record.policy manifest.records evaluators) :=
    newEntries_eq_ok_iff.mpr ⟨hnodup.sublist map_id_zipWith.sublist, fun _ _ => List.not_mem_nil,
      admits_zipWith manifest.revision hsound⟩
  exact ⟨⟨manifest.revision, _, orderPolicies _ _, hrevision, halgorithm,
    ((orderPolicies_perm _ _).map _).nodup_iff.mpr (newEntries_ids hentries).1⟩,
    newSnapshot_eq_ok.mpr ⟨hrevision, halgorithm, _, hentries, rfl, rfl, rfl⟩, rfl, rfl, rfl⟩

/-! ### Compilation -/

/-- The manifests that can be compiled. -/
structure Admissible (compiler : Compiler W) (manifest : Manifest) (w : W) : Prop where
  valid : manifest.validate = none
  count : (manifest.records.length : Int) ≤ compiler.limits.maxPolicies
  document : ∀ record ∈ manifest.records,
    (record.document.length : Int) ≤ compiler.limits.maxDocumentBytes
  total : (documentBytes manifest.records : Int) ≤ compiler.limits.maxTotalDocumentBytes
  decodes : ∃ evaluators, DecodesAll compiler manifest.records w evaluators

/-- The snapshot is that of the records with these evaluators. -/
structure Faithful (manifest : Manifest) (evaluators : List (Evaluator W))
    (snapshot : Snapshot W) : Prop where
  revision : snapshot.revision = manifest.revision
  algorithm : (manifest.algorithm, snapshot.algorithm) ∈
    [(algorithmDenyOverrides, CombiningAlgorithm.denyOverrides),
      (algorithmAllowOverrides, .allowOverrides), (algorithmFirstApplicable, .firstApplicable),
      (algorithmPriorityOrder, .priorityOrder)]
  length_eq : manifest.records.length = evaluators.length
  ordered : manifest.algorithm ≠ algorithmPriorityOrder →
    snapshot.policies = List.zipWith Record.policy manifest.records evaluators
  sorted : manifest.algorithm = algorithmPriorityOrder →
    snapshot.policies.Perm (List.zipWith Record.policy manifest.records evaluators) ∧
      snapshot.policies.Pairwise (PriorityLt PolicyEntry.priority PolicyEntry.id)

theorem limits_of_newCompiler {range : MapRange Model} {decoders : GoMap Model (Option (Decoder W))}
    {overrides : List CompilerLimits} {compiler : Compiler W}
    (h : newCompiler range decoders (overrides.map withCompilerLimits) = .ok compiler) :
    0 < compiler.limits.maxTotalDocumentBytes := by
  have hdefault : 0 < defaultCompilerLimits.maxTotalDocumentBytes := by decide
  unfold newCompiler at h
  split at h
  · cases h
  · injection h with h
    subst h
    refine List.foldlRecOn (motive := fun compiler : Compiler W =>
      0 < compiler.limits.maxTotalDocumentBytes) _ _ hdefault fun compiler h option hoption => ?_
    obtain ⟨override, -, rfl⟩ := List.mem_map.mp hoption
    exact overrideLimit_pos h

theorem algorithm_pair {algorithm : Algorithm} (h : algorithmValid algorithm = true) :
    (algorithm, combiningAlgorithm algorithm) ∈
      [(algorithmDenyOverrides, CombiningAlgorithm.denyOverrides),
        (algorithmAllowOverrides, .allowOverrides), (algorithmFirstApplicable, .firstApplicable),
        (algorithmPriorityOrder, .priorityOrder)] := by
  simp only [algorithmValid, Bool.or_eq_true, beq_iff_eq] at h
  rcases h with ((rfl | rfl) | rfl) | rfl
  · decide
  · decide
  · decide
  · decide

theorem combiningAlgorithm_eq_priorityOrder {algorithm : Algorithm} :
    combiningAlgorithm algorithm = .priorityOrder ↔ algorithm = algorithmPriorityOrder := by
  constructor
  · intro h
    unfold combiningAlgorithm at h
    split at h
    · exact absurd h (by decide)
    · split at h
      · exact absurd h (by decide)
      · split at h
        · exact absurd h (by decide)
        · split at h
          · assumption
          · exact absurd h (by decide)
  · rintro rfl
    decide

theorem faithful_of_policies {manifest : Manifest} {evaluators : List (Evaluator W)}
    {snapshot : Snapshot W} (hvalid : manifest.validate = none)
    (hlength : manifest.records.length = evaluators.length)
    (hrevision : snapshot.revision = manifest.revision)
    (halgorithm : snapshot.algorithm = combiningAlgorithm manifest.algorithm)
    (hpolicies : snapshot.policies = orderPolicies (combiningAlgorithm manifest.algorithm)
      (List.zipWith Record.policy manifest.records evaluators)) :
    Faithful manifest evaluators snapshot := by
  obtain ⟨⟨-, -, hnamed⟩, -⟩ := validate_eq_none.mp hvalid
  refine ⟨hrevision, halgorithm ▸ algorithm_pair hnamed, hlength, fun hne => ?_, fun heq => ?_⟩
  · rw [hpolicies, orderPolicies, if_neg (fun h => hne (combiningAlgorithm_eq_priorityOrder.mp h))]
  · have hids := snapshot.ids_nodup
    rw [hpolicies, ((orderPolicies_perm _ _).map PolicyEntry.id).nodup_iff] at hids
    rw [hpolicies, orderPolicies, if_pos (combiningAlgorithm_eq_priorityOrder.mpr heq)]
    exact ⟨sortBy_perm _ _, pairwise_priorityLt hids⟩

/-- **`Compile` accepts exactly the admissible manifests and is faithful.** -/
theorem compile_exact {range : MapRange Model} {decoders : GoMap Model (Option (Decoder W))}
    {overrides : List CompilerLimits} {compiler : Compiler W}
    (hnew : newCompiler range decoders (overrides.map withCompilerLimits) = .ok compiler)
    (manifest : Manifest) (w : W) :
    ((∃ snapshot, (compiler.compile manifest w).1 = .ok snapshot) ↔
      Admissible compiler manifest w) ∧
    (∀ snapshot, (compiler.compile manifest w).1 = .ok snapshot →
      ∃ evaluators, DecodesAll compiler manifest.records w evaluators ∧
        Faithful manifest evaluators snapshot) ∧
    (∀ (record : Record) (evaluator : Evaluator W) (t : Time),
      (record.policy evaluator).activeAt t = true ↔
        (∀ activeFrom, record.activeFrom = some activeFrom →
          activeFrom.isZero = true ∨ activeFrom.nanos ≤ t.nanos) ∧
        (∀ activeUntil, record.activeUntil = some activeUntil →
          activeUntil.isZero = true ∨ t.nanos < activeUntil.nanos)) ∧
    (manifest.validate = none → ∀ evaluators : List (Evaluator W),
      ∃ snapshot, newSnapshot manifest.revision (combiningAlgorithm manifest.algorithm)
        (List.zipWith Record.definition manifest.records evaluators) = .ok snapshot) ∧
    -- the loop goes through these states; there, and after the addition of a document that
    -- passed both checks, whatever its decoder does, the total is within the limit
    (∀ total records w', Reaches compiler 0 manifest.records w total records w' →
      (∃ made, compileRecords compiler 0 manifest.records w
        = ((compileRecords compiler total records w').1.map (made ++ ·),
            (compileRecords compiler total records w').2)) ∧
      (0 ≤ total ∧ 0 ≤ compiler.limits.maxTotalDocumentBytes - total) ∧
      ∀ record ∈ records.head?,
        ¬ (record.document.length : Int) > compiler.limits.maxTotalDocumentBytes - total →
        0 ≤ total + record.document.length ∧
          total + record.document.length ≤ compiler.limits.maxTotalDocumentBytes) := by
  have hlimit := (limits_of_newCompiler hnew).le
  refine ⟨⟨?_, ?_⟩, ?_, fun record evaluator t => record.activeAt_policy evaluator t, ?_, ?_⟩
  · rintro ⟨snapshot, h⟩
    obtain ⟨hvalid, hcount, definitions, hdefinitions, -⟩ := compile_eq_ok.mp h
    obtain ⟨hdocument, htotal, evaluators, hdecodes, -⟩ :=
      (compileRecords_eq_ok_iff hlimit).mp hdefinitions
    exact ⟨hvalid, hcount, hdocument, by rw [Int.zero_add] at htotal; exact htotal,
      evaluators, hdecodes⟩
  · rintro ⟨hvalid, hcount, hdocument, htotal, evaluators, hdecodes⟩
    obtain ⟨snapshot, hsnapshot, -⟩ := newSnapshot_of_validate hvalid evaluators
    exact ⟨snapshot, compile_eq_ok.mpr ⟨hvalid, hcount, _,
      (compileRecords_eq_ok_iff hlimit).mpr ⟨hdocument, by rw [Int.zero_add]; exact htotal,
        evaluators, hdecodes, rfl⟩, hsnapshot⟩⟩
  · intro snapshot h
    obtain ⟨hvalid, -, definitions, hdefinitions, hsnapshot⟩ := compile_eq_ok.mp h
    obtain ⟨-, -, evaluators, hdecodes, rfl⟩ := (compileRecords_eq_ok_iff hlimit).mp hdefinitions
    obtain ⟨snapshot', hsnapshot', hrevision, halgorithm, hpolicies⟩ :=
      newSnapshot_of_validate hvalid evaluators
    rw [hsnapshot] at hsnapshot'
    cases hsnapshot'
    exact ⟨evaluators, hdecodes,
      faithful_of_policies hvalid hdecodes.length_eq hrevision halgorithm hpolicies⟩
  · intro hvalid evaluators
    obtain ⟨snapshot, hsnapshot, -⟩ := newSnapshot_of_validate hvalid evaluators
    exact ⟨snapshot, hsnapshot⟩
  · intro total records w' h
    obtain ⟨htotal, hleft⟩ := h.budget le_rfl hlimit
    refine ⟨h.compileRecords_eq, ⟨htotal, hleft⟩, fun record _ hfits => ?_⟩
    omega

/-- Two documents that fill the budget, sorted by priority. -/
def rankedManifest : Manifest :=
  { manifestOf [{ aclRecord (str "p") (str "\x7b\"a\":1\x7d") with priority := 1 },
      { aclRecord (str "q") (str "\x7b\x7d") with priority := 2 }] with
    algorithm := algorithmPriorityOrder }

def rankingDecoders : GoMap Model (Option (Decoder Unit)) :=
  (∅ : GoMap Model (Option (Decoder Unit))).insert modelACL (some (sizeDecoder 7))

/-- A compiler whose limits the documents just meet. -/
def rankingCompiler : Compiler Unit :=
  match newCompiler .insertion rankingDecoders ([⟨7, 2, 9⟩].map withCompilerLimits) with
  | .ok compiler => compiler
  | .error _ => { decoders := ∅ }

theorem compile_exact_small : ∃ snapshot : Snapshot Unit,
    newCompiler .insertion rankingDecoders ([⟨7, 2, 9⟩].map withCompilerLimits)
      = .ok rankingCompiler ∧
    (rankingCompiler.compile rankedManifest ()).1 = .ok snapshot ∧
    snapshot.policies.map PolicyEntry.id = [str "q", str "p"] ∧
    ∃ evaluators, DecodesAll rankingCompiler rankedManifest.records () evaluators ∧
      Faithful rankedManifest evaluators snapshot := by
  have hnew : newCompiler .insertion rankingDecoders ([⟨7, 2, 9⟩].map withCompilerLimits)
      = .ok rankingCompiler := rfl
  obtain ⟨hiff, hfaithful, -⟩ := compile_exact hnew rankedManifest ()
  obtain ⟨snapshot, hsnapshot⟩ := hiff.mpr ⟨by decide +kernel, by decide +kernel, by decide +kernel,
    by decide +kernel, _, .cons rfl rfl (.cons rfl rfl (.nil ()))⟩
  have hids : (rankingCompiler.compile rankedManifest ()).1.map
      (fun snapshot => snapshot.policies.map PolicyEntry.id) = .ok [str "q", str "p"] := by
    decide +kernel
  rw [hsnapshot] at hids
  exact ⟨snapshot, hnew, hsnapshot, Except.ok.inj hids, hfaithful snapshot hsnapshot⟩

end Authorization.Policy
