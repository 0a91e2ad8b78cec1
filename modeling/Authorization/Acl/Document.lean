import Authorization.Acl.Acl
import Authorization.Core.Document

/-!
# Documents of access control lists

`acl/document.go`.  The tables list the fields of each struct in order, with their
JSON tags.  A document of valid strings comes back from its encoding as it was, but
for the array behind its entries, which `Build` does not look at; so
`DecodeDocument` returns the evaluator that `Build` does.
-/

namespace Authorization.Acl

open Authorization.Foundation Authorization.Core Authorization.Foundation.Json

def documentErrors : DocumentErrors where
  invalidDocument := .aclErrInvalidDocument
  unsupportedDocumentVersion := .aclErrUnsupportedDocumentVersion
  documentLimitExceeded := .aclErrDocumentLimitExceeded

structure EntryDocument where
  id : EntryID := []
  subjectKind : SubjectKind := []
  subjectID : SubjectID := []
  action : Action := []
  resourceType : ResourceType := []
  resourceID : ResourceID := []
  tenant : TenantID := []
  effect : Bytes := []
deriving DecidableEq

structure Document where
  version : UInt64 := 0
  globalInheritance : Bool := false
  limits : Limits := ⟨0, 0, 0, 0⟩
  entries : Slice EntryDocument := .nil

/-! ### Building -/

/-- The body of the loop of `Build`. -/
def EntryDocument.build (entry : EntryDocument) : Except GoError Entry :=
  (documentErrors.parseEffect entry.effect).map fun effect =>
    { id := entry.id
      subject := ⟨entry.subjectKind, entry.subjectID, [], ∅⟩
      action := entry.action
      resourceType := entry.resourceType
      resourceID := entry.resourceID
      tenant := entry.tenant
      effect := effect }

def Document.options (document : Document) : List AclOption :=
  .withLimits document.limits ::
    if document.globalInheritance then [.withGlobalInheritance] else []

/-- `Build`. -/
def Document.build (document : Document) : Except GoError Evaluator :=
  if document.version ≠ documentVersion then
    .error (.sentinel documentErrors.unsupportedDocumentVersion)
  else
    match buildEach "entry " EntryDocument.build 0 document.entries.toList with
    | .error err => .error err
    | .ok entries => new entries document.options

/-! ### The JSON format -/

def entryFields : List (StructField EntryDocument) :=
  [field (str "id") .string EntryDocument.id fun id entry => { entry with id },
    field (str "subject_kind") .string EntryDocument.subjectKind
      fun subjectKind entry => { entry with subjectKind },
    field (str "subject_id") .string EntryDocument.subjectID
      fun subjectID entry => { entry with subjectID },
    field (str "action") .string EntryDocument.action fun action entry => { entry with action },
    field (str "resource_type") .string EntryDocument.resourceType
      fun resourceType entry => { entry with resourceType },
    omitempty (str "resource_id") .string EntryDocument.resourceID
      fun resourceID entry => { entry with resourceID },
    omitempty (str "tenant") .string EntryDocument.tenant fun tenant entry => { entry with tenant },
    field (str "effect") .string EntryDocument.effect fun effect entry => { entry with effect }]

def limitsFields : List (StructField Limits) :=
  [omitempty (str "max_entries") .int Limits.maxEntries
      fun maxEntries limits => { limits with maxEntries },
    omitempty (str "max_groups") .int Limits.maxGroups
      fun maxGroups limits => { limits with maxGroups },
    omitempty (str "max_matches") .int Limits.maxMatches
      fun maxMatches limits => { limits with maxMatches },
    omitempty (str "max_batch_size") .int Limits.maxBatchSize
      fun maxBatchSize limits => { limits with maxBatchSize }]

def entryCodec : Codec EntryDocument := .struct {} entryFields

def limitsCodec : Codec Limits := .struct ⟨0, 0, 0, 0⟩ limitsFields

def documentFields : List (StructField Document) :=
  [field (str "version") .uint64 Document.version fun version document => { document with version },
    omitempty (str "global_inheritance") .bool Document.globalInheritance
      fun globalInheritance document => { document with globalInheritance },
    omitempty (str "limits") limitsCodec Document.limits
      fun limits document => { document with limits },
    field (str "entries") (.slice entryCodec) Document.entries
      fun entries document => { document with entries }]

def documentCodec : Codec Document := .struct {} documentFields

/-- `EncodeDocument`. -/
def encodeDocument (document : Document) : Except GoError Bytes :=
  Core.encodeDocument documentErrors documentCodec Document.build document

/-- `DecodeDocument`. -/
def decodeDocument (encoded : Bytes) : Except GoError Evaluator :=
  Core.decodeDocument documentErrors documentCodec Document.build encoded

/-! ### The round trip -/

def EntryDocument.strings (entry : EntryDocument) : List Bytes :=
  [entry.id, entry.subjectKind, entry.subjectID, entry.action, entry.resourceType,
    entry.resourceID, entry.tenant, entry.effect]

/-- The strings of a document. -/
def Document.strings (document : Document) : List Bytes :=
  document.entries.toList.flatMap EntryDocument.strings

theorem reads_entry {entry : EntryDocument} (h : ∀ s ∈ entry.strings, Utf8.valid s = true) :
    entryCodec.Reads entry entry := by
  simp only [EntryDocument.strings, List.forall_mem_cons] at h
  obtain ⟨hid, hkind, hsubject, haction, htype, hresource, htenant, heffect, -⟩ := h
  refine Codec.reads_struct rfl ?_
  refine .cons (reads_field (Codec.reads_string hid) rfl) ?_
  refine .cons (reads_field (Codec.reads_string hkind) rfl) ?_
  refine .cons (reads_field (Codec.reads_string hsubject) rfl) ?_
  refine .cons (reads_field (Codec.reads_string haction) rfl) ?_
  refine .cons (reads_field (Codec.reads_string htype) rfl) ?_
  refine .cons (reads_omitempty (Codec.omitted_string hresource) rfl rfl) ?_
  refine .cons (reads_omitempty (Codec.omitted_string htenant) rfl rfl) ?_
  refine .cons (reads_field (Codec.reads_string heffect) rfl) ?_
  exact .nil _

theorem reads_limits (limits : Limits) : limitsCodec.Reads limits limits := by
  refine Codec.reads_struct rfl ?_
  refine .cons (reads_omitempty (Codec.omitted_int _) rfl rfl) ?_
  refine .cons (reads_omitempty (Codec.omitted_int _) rfl rfl) ?_
  refine .cons (reads_omitempty (Codec.omitted_int _) rfl rfl) ?_
  refine .cons (reads_omitempty (Codec.omitted_int _) rfl rfl) ?_
  exact .nil _

/-- A document as it is read back. -/
def Document.readBack (document : Document) : Document :=
  { document with entries := document.entries.map id }

theorem reads_document {document : Document} (h : ∀ s ∈ document.strings, Utf8.valid s = true) :
    documentCodec.Reads document document.readBack := by
  have hentries : ∀ entry ∈ document.entries.toList, entryCodec.Reads entry (id entry) :=
    fun entry he => reads_entry fun s hs => h s (List.mem_flatMap.mpr ⟨entry, he, hs⟩)
  refine Codec.reads_struct rfl ?_
  refine .cons (reads_field (Codec.reads_uint64 _) rfl) ?_
  refine .cons (reads_omitempty (Codec.omitted_bool _) rfl rfl) ?_
  refine .cons (reads_omitempty (Codec.omitted_struct (reads_limits _)) rfl rfl) ?_
  refine .cons (reads_field (Codec.reads_slice hentries) rfl) ?_
  exact .nil _

theorem build_readBack (document : Document) : document.readBack.build = document.build := by
  have hentries : document.readBack.entries.toList = document.entries.toList := by
    rw [Document.readBack, Slice.toList_map, List.map_id]
  unfold Document.build
  rw [hentries]
  rfl

/-- **`DecodeDocument` returns the evaluator of `Build`** on what `EncodeDocument`
wrote. -/
theorem decode_of_encode {document : Document} {encoded : Bytes}
    (hutf8 : ∀ s ∈ document.strings, Utf8.valid s = true)
    (h : encodeDocument document = .ok encoded) : decodeDocument encoded = document.build := by
  rw [decodeDocument, decodeDocument_of_encode (reads_document hutf8) h, build_readBack]

/-- No call tells the evaluators apart, whatever the orders of the ranges. -/
structure Evaluator.Agrees (evaluator evaluator' : Evaluator) : Prop where
  evaluate : ∀ {W : Type} (ctx : Context W) (request : Request) (w : W),
    evaluator'.evaluate ctx request w = evaluator.evaluate ctx request w
  maxBatchSize : evaluator'.limits.maxBatchSize = evaluator.limits.maxBatchSize
  evaluateBatch : ∀ {W : Type} (ctx : Context W) (requests : List Request) (w : W),
    evaluator'.evaluateBatch ctx requests w = evaluator.evaluateBatch ctx requests w
  listResourceIDs : ∀ {W : Type} (order order' : MapRange ResourceID) (ctx : Context W)
    (subject : Subject) (action : Action) (resourceType : ResourceType) (tenant : TenantID) (w : W),
    evaluator'.listResourceIDs order' ctx subject action resourceType tenant w
      = evaluator.listResourceIDs order ctx subject action resourceType tenant w

theorem Evaluator.agrees_self (evaluator : Evaluator) : evaluator.Agrees evaluator where
  evaluate _ _ _ := rfl
  maxBatchSize := rfl
  evaluateBatch _ _ _ := rfl
  listResourceIDs order order' ctx subject action resourceType tenant w :=
    listResourceIDs_congr order' order ctx subject action resourceType tenant (fun _ => rfl) w

/-- What `EncodeDocument` writes, `DecodeDocument` makes an evaluator of that agrees
with the one of `Build`. -/
def Document.RoundTrips (document : Document) : Prop :=
  ∀ encoded, encodeDocument document = .ok encoded →
    ∃ built decoded, document.build = .ok built ∧ decodeDocument encoded = .ok decoded ∧
      built.Agrees decoded

theorem Document.roundTrips {document : Document}
    (hutf8 : ∀ s ∈ document.strings, Utf8.valid s = true) : document.RoundTrips := by
  intro encoded h
  obtain ⟨⟨built, hbuilt⟩, -, -⟩ := encodeDocument_eq_ok.mp h
  exact ⟨built, built, hbuilt, (decode_of_encode hutf8 h).trans hbuilt, built.agrees_self⟩

end Authorization.Acl
