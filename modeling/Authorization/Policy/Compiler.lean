import Authorization.Foundation.GoMap
import Authorization.Policy.Codec

/-!
# The compiler

`policy/compiler.go`: a registry of decoders, one for each model, and the loop that
turns the records of a valid manifest into policy definitions.  Sizes are checked
before each decoder is called, so an error is that of the first record that fails.

A decoder is code outside the repository, so it is a function of the document and
the world.  The compiler counts the bytes of the documents it is given, and those of
a manifest that was encoded and decoded are indented: `compile_sameManifest` says
which of its checks may then come out differently.
-/

namespace Authorization.Policy

open Authorization.Foundation Authorization.Core Authorization.Foundation.Json

variable {W : Type}

/-- `Decoder.Decode`; an evaluator of `none` is nil. -/
abbrev Decoder (W : Type) := Bytes → W → Except GoError (Option (Evaluator W)) × W

structure CompilerLimits where
  maxDocumentBytes : Int := 0
  maxPolicies : Int := 0
  maxTotalDocumentBytes : Int := 0

def defaultCompilerLimits : CompilerLimits where
  maxDocumentBytes := 1048576
  maxPolicies := 1000
  maxTotalDocumentBytes := 16777216

structure Compiler (W : Type) where
  decoders : GoMap Model (Decoder W)
  limits : CompilerLimits := defaultCompilerLimits

/-- `WithCompilerLimits`. -/
def withCompilerLimits (override : CompilerLimits) (compiler : Compiler W) : Compiler W :=
  { compiler with limits :=
    { maxDocumentBytes :=
        overrideLimit override.maxDocumentBytes compiler.limits.maxDocumentBytes
      maxPolicies := overrideLimit override.maxPolicies compiler.limits.maxPolicies
      maxTotalDocumentBytes :=
        overrideLimit override.maxTotalDocumentBytes compiler.limits.maxTotalDocumentBytes } }

/-- The loop of `NewCompiler` over the keys of the registry. -/
def copyDecoders (decoders : GoMap Model (Option (Decoder W))) :
    List Model → GoMap Model (Decoder W) → Except GoError (GoMap Model (Decoder W))
  | [], copied => .ok copied
  | model :: rest, copied =>
    match decoders.lookup model with
    | some (some decoder) => copyDecoders decoders rest (copied.insert model decoder)
    | _ => .error (.errorf [.text "model ", .quoted model, .text ": "]
        (.sentinel .policyErrNilDecoder))

/-- `NewCompiler`; a nil decoder is `none`. -/
def newCompiler (range : MapRange Model) (decoders : GoMap Model (Option (Decoder W)))
    (options : List (Compiler W → Compiler W)) : Except GoError (Compiler W) :=
  match copyDecoders decoders (range.order decoders.keys) ∅ with
  | .error err => .error err
  | .ok copied => .ok (options.foldl (fun compiler option => option compiler) { decoders := copied })

/-! ### Compilation -/

/-- The definition of a record; a nil time is the zero time. -/
def Record.definition (record : Record) (evaluator : Evaluator W) : PolicyDefinition W where
  id := record.id
  revision := record.revision
  priority := record.priority.toInt
  activeFrom := record.activeFrom.getD .zero
  activeUntil := record.activeUntil.getD .zero
  metadata := record.metadata
  evaluator := some evaluator

/-- The loop of `Compile`; `total` are the document bytes so far. -/
def compileRecords (compiler : Compiler W) (total : Int) :
    List Record → W → Except GoError (List (PolicyDefinition W)) × W
  | [], w => (.ok [], w)
  | record :: rest, w =>
    let failure := fun err =>
      GoError.errorf [.text "policy ", .quoted record.id, .text " model ", .quoted record.model,
        .text ": "] err
    if (record.document.length : Int) > compiler.limits.maxDocumentBytes then
      (.error (.errorf [.text "policy ", .quoted record.id, .text ": "]
        (.sentinel .policyErrDocumentLimitExceeded)), w)
    else if (record.document.length : Int) > compiler.limits.maxTotalDocumentBytes - total then
      (.error (.sentinel .policyErrTotalDocumentLimitExceeded), w)
    else
      match compiler.decoders.lookup record.model with
      | none => (.error (failure (.sentinel .policyErrMissingDecoder)), w)
      | some decoder =>
        match decoder record.document w with
        | (.error err, w) => (.error (failure err), w)
        | (.ok none, w) => (.error (failure (.sentinel .policyErrNilEvaluator)), w)
        | (.ok (some evaluator), w) =>
          match compileRecords compiler (total + record.document.length) rest w with
          | (.error err, w) => (.error err, w)
          | (.ok definitions, w) => (.ok (record.definition evaluator :: definitions), w)

/-- The map `algorithms` of `Compile`; what it does not hold reads as zero. -/
def combiningAlgorithm (algorithm : Algorithm) : CombiningAlgorithm :=
  if algorithm = algorithmDenyOverrides then .denyOverrides
  else if algorithm = algorithmAllowOverrides then .allowOverrides
  else if algorithm = algorithmFirstApplicable then .firstApplicable
  else if algorithm = algorithmPriorityOrder then .priorityOrder
  else 0

/-- `Compiler.Compile`. -/
def Compiler.compile (compiler : Compiler W) (manifest : Manifest) (w : W) :
    Except GoError (Snapshot W) × W :=
  match manifest.validate with
  | some err => (.error err, w)
  | none =>
    if (manifest.records.length : Int) > compiler.limits.maxPolicies then
      (.error (.sentinel .policyErrPolicyLimitExceeded), w)
    else
      match compileRecords compiler 0 manifest.records w with
      | (.error err, w) => (.error err, w)
      | (.ok definitions, w) =>
        (newSnapshot manifest.revision (combiningAlgorithm manifest.algorithm) definitions, w)

/-- One step of the loop, read both ways. -/
theorem compileRecords_cons_eq_ok {compiler : Compiler W} {total : Int} {record : Record}
    {rest : List Record} {w : W} {definitions : List (PolicyDefinition W)} :
    (compileRecords compiler total (record :: rest) w).1 = .ok definitions ↔
      (record.document.length : Int) ≤ compiler.limits.maxDocumentBytes ∧
      (record.document.length : Int) ≤ compiler.limits.maxTotalDocumentBytes - total ∧
      ∃ decoder evaluator w' definitions',
        compiler.decoders.lookup record.model = some decoder ∧
        decoder record.document w = (.ok (some evaluator), w') ∧
        (compileRecords compiler (total + record.document.length) rest w').1 = .ok definitions' ∧
        definitions = record.definition evaluator :: definitions' := by
  rw [compileRecords]
  dsimp only
  constructor
  · intro h
    split at h
    · cases h
    · rename_i hdocument
      split at h
      · cases h
      · rename_i htotal
        split at h
        · cases h
        · rename_i decoder hdecoder
          split at h
          · cases h
          · cases h
          · rename_i evaluator w' hevaluator
            split at h
            · cases h
            · rename_i definitions' w'' hrest
              cases h
              exact ⟨not_lt.mp hdocument, not_lt.mp htotal, decoder, evaluator, w', definitions',
                hdecoder, hevaluator, by rw [hrest], rfl⟩
  · rintro ⟨hdocument, htotal, decoder, evaluator, w', definitions', hdecoder, hevaluator, hrest,
      rfl⟩
    rw [if_neg (not_lt.mpr hdocument), if_neg (not_lt.mpr htotal), hdecoder]
    dsimp only
    rw [hevaluator]
    dsimp only
    rcases hcompiled : compileRecords compiler (total + record.document.length) rest w'
      with ⟨err | definitions, w''⟩
    · rw [hcompiled] at hrest
      cases hrest
    · rw [hcompiled] at hrest
      cases hrest
      rfl

/-- **What `Compile` accepts and what it builds.** -/
theorem compile_eq_ok {compiler : Compiler W} {manifest : Manifest} {w : W}
    {snapshot : Snapshot W} :
    (compiler.compile manifest w).1 = .ok snapshot ↔ manifest.validate = none ∧
      (manifest.records.length : Int) ≤ compiler.limits.maxPolicies ∧
      ∃ definitions, (compileRecords compiler 0 manifest.records w).1 = .ok definitions ∧
        newSnapshot manifest.revision (combiningAlgorithm manifest.algorithm) definitions
          = .ok snapshot := by
  unfold Compiler.compile
  constructor
  · intro h
    split at h
    · cases h
    · rename_i hvalid
      split at h
      · cases h
      · rename_i hcount
        split at h
        · cases h
        · rename_i definitions w' hdefinitions
          exact ⟨hvalid, not_lt.mp hcount, definitions, by rw [hdefinitions], h⟩
  · rintro ⟨hvalid, hcount, definitions, hdefinitions, h⟩
    rw [hvalid]
    dsimp only
    rw [if_neg (not_lt.mpr hcount)]
    rcases hcompiled : compileRecords compiler 0 manifest.records w with ⟨err | definitions', w'⟩
    · rw [hcompiled] at hdefinitions
      cases hdefinitions
    · rw [hcompiled] at hdefinitions
      cases hdefinitions
      exact h

theorem compile_revision {compiler : Compiler W} {manifest : Manifest} {w : W}
    {snapshot : Snapshot W} (h : (compiler.compile manifest w).1 = .ok snapshot) :
    snapshot.revision = manifest.revision := by
  obtain ⟨-, -, definitions, -, hsnapshot⟩ := compile_eq_ok.mp h
  exact newSnapshot_revision hsnapshot

/-! ### Compiling what was encoded -/

/-- A decoder that refuses documents above its cap and, below it, succeeds or fails
alike on texts of the same JSON value. -/
structure Decoder.ReadsValues (cap : Nat) (decoder : Decoder W) : Prop where
  capped : ∀ {document w evaluator}, (decoder document w).1 = .ok (some evaluator) →
    document.length ≤ cap
  alike : ∀ {document document' w evaluator}, SameValue document document' →
    document.length ≤ cap → document'.length ≤ cap →
    (decoder document w).1 = .ok (some evaluator) →
    ∀ w', ∃ evaluator', (decoder document' w').1 = .ok (some evaluator')

/-- The bytes of all documents. -/
def documentBytes (records : List Record) : Nat :=
  (records.map fun record => record.document.length).sum

/-- The sizes of the documents fit the limits of a compiler and the caps of its
decoders. -/
structure Compiler.Fits (compiler : Compiler W) (cap : Model → Nat) (manifest : Manifest) :
    Prop where
  document : ∀ record ∈ manifest.records,
    (record.document.length : Int) ≤ compiler.limits.maxDocumentBytes
  total : (documentBytes manifest.records : Int) ≤ compiler.limits.maxTotalDocumentBytes
  cap : ∀ record ∈ manifest.records, record.document.length ≤ cap record.model

theorem sameInfo_definition {record record' : Record} (h : SameRecord record record')
    (evaluator evaluator' : Evaluator W) :
    (record.definition evaluator).SameInfo (record'.definition evaluator') := by
  rw [h.fields]
  exact ⟨rfl, rfl⟩

/-- The loop on records with documents of the same values. -/
theorem compileRecords_sameRecord {compiler : Compiler W} {cap : Model → Nat}
    (hdecoders : ∀ model decoder, compiler.decoders.lookup model = some decoder →
      decoder.ReadsValues (cap model)) :
    ∀ {records records' : List Record} {total : Int} (total' : Int) {w : W} (w' : W)
      {definitions : List (PolicyDefinition W)},
      List.Forall₂ SameRecord records records' →
      (∀ record ∈ records', (record.document.length : Int) ≤ compiler.limits.maxDocumentBytes) →
      total' + documentBytes records' ≤ compiler.limits.maxTotalDocumentBytes →
      (∀ record ∈ records', record.document.length ≤ cap record.model) →
      (compileRecords compiler total records w).1 = .ok definitions →
      ∃ definitions', (compileRecords compiler total' records' w').1 = .ok definitions' ∧
        List.Forall₂ PolicyDefinition.SameInfo definitions definitions' := by
  intro records
  induction records with
  | nil =>
    intro records' total total' w w' definitions hsame _ _ _ h
    cases hsame
    cases h
    exact ⟨[], rfl, .nil⟩
  | cons record rest ih =>
    intro records' total total' w w' definitions hsame hdocument htotal hcap h
    cases hsame with
    | @cons _ record' _ rest' hrecord hrest =>
      obtain ⟨-, -, decoder, evaluator, w₁, definitions₁, hlookup, hdecode, hdefinitions, rfl⟩ :=
        compileRecords_cons_eq_ok.mp h
      have hmodel : record'.model = record.model := by rw [hrecord.fields]
      have hreads := hdecoders _ _ hlookup
      have hcap' : record'.document.length ≤ cap record.model := by
        rw [← hmodel]
        exact hcap record' List.mem_cons_self
      have hdecoded : (decoder record.document w).1 = .ok (some evaluator) := by rw [hdecode]
      obtain ⟨evaluator', hdecode'⟩ :=
        hreads.alike hrecord.document (hreads.capped hdecoded) hcap' hdecoded w'
      rw [documentBytes, List.map_cons, List.sum_cons, Int.natCast_add, ← Int.add_assoc] at htotal
      obtain ⟨definitions₁', hdefinitions', hsame'⟩ := ih _
        (decoder record'.document w').2 hrest
        (fun other ho => hdocument other (List.mem_cons_of_mem _ ho))
        htotal
        (fun other ho => hcap other (List.mem_cons_of_mem _ ho)) hdefinitions
      refine ⟨record'.definition evaluator' :: definitions₁', ?_,
        .cons (sameInfo_definition hrecord _ _) hsame'⟩
      exact compileRecords_cons_eq_ok.mpr ⟨hdocument record' List.mem_cons_self, by omega,
        decoder, evaluator', (decoder record'.document w').2, definitions₁',
        by rw [hmodel]; exact hlookup, Prod.ext hdecode' rfl, hdefinitions', rfl⟩

/-- **Compiling a manifest with documents of the same values** succeeds with the
same infos if the new sizes fit. -/
theorem compile_sameManifest {compiler : Compiler W} {cap : Model → Nat}
    (hdecoders : ∀ model decoder, compiler.decoders.lookup model = some decoder →
      decoder.ReadsValues (cap model))
    {manifest manifest' : Manifest} {snapshot : Snapshot W}
    {w : W} (h : (compiler.compile manifest w).1 = .ok snapshot)
    (hsame : SameManifest manifest manifest') (hvalid : manifest'.validate = none)
    (hfits : compiler.Fits cap manifest') (w' : W) :
    ∃ snapshot', (compiler.compile manifest' w').1 = .ok snapshot' ∧
      snapshot'.revision = snapshot.revision ∧ snapshot'.algorithm = snapshot.algorithm ∧
      snapshot'.infos = snapshot.infos := by
  obtain ⟨-, hcount, definitions, hdefinitions, hsnapshot⟩ := compile_eq_ok.mp h
  obtain ⟨definitions', hdefinitions', hinfo⟩ := compileRecords_sameRecord hdecoders 0 w'
    hsame.policies hfits.document (by rw [Int.zero_add]; exact hfits.total) hfits.cap hdefinitions
  obtain ⟨snapshot', hsnapshot', hrest⟩ := newSnapshot_sameInfo hinfo hsnapshot
  refine ⟨snapshot', compile_eq_ok.mpr ⟨hvalid, ?_, definitions', hdefinitions', ?_⟩, hrest⟩
  · rw [← hsame.policies.length_eq]
    exact hcount
  · rw [hsame.revision, hsame.algorithm]
    exact hsnapshot'

/-- **Publishing a manifest.**  What `Encode` writes of a decoded manifest that
compiles is always decoded again, and compiles to the same revision, algorithm and
infos as long as the indented documents fit the compiler's limits and the decoders'
caps. -/
theorem publish_compiles {compiler : Compiler W} {cap : Model → Nat}
    (hdecoders : ∀ model decoder, compiler.decoders.lookup model = some decoder →
      decoder.ReadsValues (cap model))
    {stored encoded : Bytes} {manifest : Manifest} {snapshot : Snapshot W} {w : W}
    (hdecode : decode stored = .ok manifest)
    (hcompile : (compiler.compile manifest w).1 = .ok snapshot)
    (hencode : encode manifest = .ok encoded) (w' : W) :
    ∃ manifest', decode encoded = .ok manifest' ∧ (compiler.Fits cap manifest' →
      ∃ snapshot', (compiler.compile manifest' w').1 = .ok snapshot' ∧
        snapshot'.revision = snapshot.revision ∧ snapshot'.algorithm = snapshot.algorithm ∧
        snapshot'.infos = snapshot.infos) := by
  have hread := read_of_decode hdecode
  obtain ⟨hvalid, t, ht, -⟩ := encode_eq_ok.mp hencode
  refine ⟨manifest.normalize, decode_of_encode hencode (fun record hr => (hread record hr).1)
    (fun record hr => (hread record hr).2), fun hfits => ?_⟩
  exact compile_sameManifest hdecoders hcompile (sameManifest_normalize ht)
    (validate_normalize hvalid ht) hfits w'

/-- A decoder that only looks at the size. -/
def sizeDecoder (cap : Nat) : Decoder W := fun document w =>
  if document.length ≤ cap then (.ok (some fun _ _ w => (.returned {} none, w)), w)
  else (.error (.foreign []), w)

theorem readsValues_sizeDecoder (cap : Nat) :
    (sizeDecoder cap : Decoder W).ReadsValues cap where
  capped := by
    intro document w evaluator h
    unfold sizeDecoder at h
    split at h
    · assumption
    · cases h
  alike := by
    intro document document' w evaluator _ _ h' _ w'
    exact ⟨_, by rw [sizeDecoder, if_pos h']⟩

/-- A compiler for the ACL model with the given limits. -/
def sizeCompiler (cap : Nat) (limits : CompilerLimits) : Compiler W :=
  withCompilerLimits limits
    { decoders := (∅ : GoMap Model (Decoder W)).insert modelACL (sizeDecoder cap) }

theorem readsValues_sizeCompiler (cap : Nat) (limits : CompilerLimits) : ∀ model decoder,
    (sizeCompiler cap limits : Compiler W).decoders.lookup model = some decoder →
      decoder.ReadsValues cap := by
  intro model decoder h
  have hlookup : ((∅ : GoMap Model (Decoder W)).insert modelACL (sizeDecoder cap)).lookup model
      = some decoder := h
  by_cases hmodel : model = modelACL
  · rw [hmodel, AList.lookup_insert] at hlookup
    cases hlookup
    exact readsValues_sizeDecoder cap
  · rw [AList.lookup_insert_ne hmodel, AList.lookup_empty] at hlookup
    cases hlookup

/-- A manifest on one line, with a document of seven bytes. -/
def storedManifest : Bytes :=
  str ("\x7b\"format\":\"authorization.policy/v1\",\"revision\":1,\"algorithm\":\"deny-overrides\"," ++
    "\"policies\":[\x7b\"id\":\"p\",\"revision\":1,\"model\":\"acl\",\"document\":\x7b\"a\":1\x7d\x7d]\x7d")

def smallManifest : Manifest := manifestOf [aclRecord (str "p") (str "\x7b\"a\":1\x7d")]

theorem decode_storedManifest : decode storedManifest = .ok smallManifest := by
  decide +kernel

/-- The bytes `Encode` writes of it. -/
def publishedManifest : Bytes :=
  match encode smallManifest with
  | .ok encoded => encoded
  | .error _ => []

theorem encode_smallManifest : encode smallManifest = .ok publishedManifest := by
  decide +kernel

theorem decode_publishedManifest :
    decode publishedManifest = .ok smallManifest.normalize := by
  decide +kernel

theorem exists_of_isOk {α : Type} {result : Except GoError α} (h : result.isOk = true) :
    ∃ value, result = .ok value := by
  cases result with
  | error err => cases h
  | ok value => exact ⟨value, rfl⟩

theorem publish_compiles_small : ∃ (snapshot : Snapshot Unit) (manifest' : Manifest)
    (snapshot' : Snapshot Unit),
    ((sizeCompiler 1048576 {}).compile smallManifest ()).1 = .ok snapshot ∧
    decode publishedManifest = .ok manifest' ∧
    ((sizeCompiler 1048576 {}).compile manifest' ()).1 = .ok snapshot' ∧
    snapshot'.infos = snapshot.infos := by
  obtain ⟨snapshot, hsnapshot⟩ := exists_of_isOk
    (show ((sizeCompiler 1048576 {} : Compiler Unit).compile smallManifest ()).1.isOk = true by decide +kernel)
  obtain ⟨manifest', hdecode, hcompile⟩ := publish_compiles
    (readsValues_sizeCompiler 1048576 {}) decode_storedManifest hsnapshot encode_smallManifest ()
  have hnormal : manifest' = smallManifest.normalize := by
    rw [decode_publishedManifest] at hdecode
    exact (Except.ok.inj hdecode).symm
  have hfits : (sizeCompiler 1048576 {} : Compiler Unit).Fits (fun _ => 1048576) manifest' := by
    rw [hnormal]
    exact ⟨by decide +kernel, by decide +kernel, by decide +kernel⟩
  obtain ⟨snapshot', hsnapshot', -, -, hinfos⟩ := hcompile hfits
  exact ⟨snapshot, manifest', snapshot', hsnapshot, hdecode, hsnapshot', hinfos⟩

/-- A compiler that accepts the stored manifest and refuses the published one. -/
structure Unpublishable (cap : Nat) (compiler : Compiler Unit) : Prop where
  decoders : ∀ model decoder, compiler.decoders.lookup model = some decoder →
    decoder.ReadsValues cap
  stored : decode storedManifest = .ok smallManifest
  compiles : (compiler.compile smallManifest ()).1.isOk = true
  encoded : encode smallManifest = .ok publishedManifest
  published : decode publishedManifest = .ok smallManifest.normalize
  refused : (compiler.compile smallManifest.normalize ()).1.isOk = false

/-- **Each of the three sizes can be passed by indentation alone**: the limit of a
document, the limit of all documents and the cap of a decoder. -/
theorem publish_uncompilable :
    Unpublishable 1048576 (sizeCompiler 1048576 { maxDocumentBytes := 7 }) ∧
    Unpublishable 1048576 (sizeCompiler 1048576 { maxTotalDocumentBytes := 7 }) ∧
    Unpublishable 7 (sizeCompiler 7 {}) := by
  refine ⟨⟨readsValues_sizeCompiler _ _, decode_storedManifest, by decide +kernel,
    encode_smallManifest, decode_publishedManifest, by decide +kernel⟩,
    ⟨readsValues_sizeCompiler _ _, decode_storedManifest, by decide +kernel,
    encode_smallManifest, decode_publishedManifest, by decide +kernel⟩,
    ⟨readsValues_sizeCompiler _ _, decode_storedManifest, by decide +kernel,
    encode_smallManifest, decode_publishedManifest, by decide +kernel⟩⟩

end Authorization.Policy
