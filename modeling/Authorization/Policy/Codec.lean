import Authorization.Policy.Manifest

/-!
# The manifest codec

What `Decode` makes of the bytes `Encode` wrote.  Everything comes back as it was
but the documents, which come back escaped and indented at the place they have in
the manifest (`normalDocument`).  `decode_of_encode` states this for every
manifest that `Encode` accepted, as long as its strings are valid UTF-8 and its
offsets are whole minutes.  Encoding the result again gives the same bytes
(`encode_normalize`).
-/

namespace Authorization.Policy

open Authorization.Foundation Authorization.Core Authorization.Foundation.Json

/-! ### Documents -/

theorem isSpaceEnd_of_isValueStart {b : UInt8} (h : isValueStart b = true) :
    Utf8.isSpaceEnd b = false := by
  have hall : ∀ piece ∈ Utf8.spaceRunes ++ Utf8.spaceRunes.map List.reverse,
      piece.head?.all (fun c => !isValueStart c) = true := by decide
  rw [Utf8.isSpaceEnd, List.any_eq_false]
  intro piece hp hhead
  have hpiece := hall piece hp
  rw [beq_iff_eq.mp hhead, Option.all_some, h] at hpiece
  cases hpiece

theorem mem_spaceRunes {b : UInt8} (h : isSpace b = true) : [b] ∈ Utf8.spaceRunes := by
  simp only [isSpace, Bool.or_eq_true, beq_iff_eq, or_assoc] at h
  rcases h with rfl | rfl | rfl | rfl <;> decide

theorem isObject_of_validDocument {document : Bytes} {t : Tree}
    (hvalid : validDocument document = true) (hparse : parseText document = some t) :
    t.isObject = true := by
  obtain ⟨-, before, after, rfl⟩ := parseText_eq_some.mp hparse
  obtain ⟨b, tail, he, hb⟩ := exists_print_eq_cons t
  apply Tree.isObject_of_head
  unfold validDocument at hvalid
  dsimp only at hvalid
  split at hvalid
  · cases hvalid
  · rename_i hlen
    split at hvalid
    · cases hvalid
    · rename_i hhead
      rw [he, List.cons_append] at hhead hlen
      have hne : Utf8.trimSpace (before.bytes ++ b :: (tail ++ after.bytes)) ≠ [] := by
        intro hnil
        rw [hnil] at hlen
        exact hlen (by decide)
      have hspace : ∀ c ∈ before.bytes, [c] ∈ Utf8.spaceRunes :=
        fun c hc => mem_spaceRunes (List.all_eq_true.mp before.ok c hc)
      rw [Utf8.head?_trimSpace hspace (isSpaceEnd_of_isValueStart hb) hne] at hhead
      rw [he, List.head?_cons]
      exact not_not.mp hhead

theorem validDocument_print {t : Tree} (hobject : t.isObject = true) (hdepth : t.depth ≤ maxDepth) :
    validDocument t.print = true := by
  have hvalid : Json.valid t.print = true := by
    have hparse : parseText t.print = some t :=
      parseText_eq_some.mpr ⟨hdepth, .nil, .nil, (List.append_nil _).symm⟩
    rw [Json.valid, hparse]
    rfl
  obtain ⟨s, hs⟩ := Tree.exists_print_of_isObject hobject
  have htrim : Utf8.trimSpace t.print = t.print := by
    rw [hs]
    exact Utf8.trimSpace_of_ends (by decide) (by decide) s
  unfold validDocument
  rw [htrim]
  dsimp only
  rw [if_neg (by rw [hs]; simp), if_neg (by rw [hs]; simp), hvalid]

/-- A document as `Decode` finds it in an encoded manifest. -/
def normalDocument (document : Bytes) : Bytes :=
  match embed document with
  | some t => (t.indent 3).print
  | none => document

theorem normalDocument_eq {document : Bytes} {t : Tree} (h : embed document = some t) :
    normalDocument document = (t.indent 3).print := by
  rw [normalDocument, h]

theorem parseText_normalDocument {document : Bytes} {t : Tree} (h : embed document = some t) :
    parseText (normalDocument document) = some (t.indent 3) := by
  obtain ⟨t', hparse, rfl⟩ := Option.map_eq_some_iff.mp h
  obtain ⟨hdepth, -⟩ := parseText_eq_some.mp hparse
  rw [normalDocument_eq h]
  refine parseText_eq_some.mpr ⟨?_, .nil, .nil, (List.append_nil _).symm⟩
  rw [Tree.depth_indent, Tree.depth_escape]
  exact hdepth

/-- A document that was written before is embedded as it is. -/
theorem embed_normalDocument {document : Bytes} {t : Tree} (h : embed document = some t) :
    embed (normalDocument document) = some (t.indent 3) := by
  obtain ⟨t', -, rfl⟩ := Option.map_eq_some_iff.mp h
  rw [embed, parseText_normalDocument h, Option.map_some, Tree.escape_indent, Tree.escape_escape]

theorem validDocument_normalDocument {document : Bytes} {t : Tree}
    (hvalid : validDocument document = true) (h : embed document = some t) :
    validDocument (normalDocument document) = true := by
  obtain ⟨t', hparse, rfl⟩ := Option.map_eq_some_iff.mp h
  have hobject := isObject_of_validDocument hvalid hparse
  obtain ⟨hdepth, -⟩ := parseText_eq_some.mp hparse
  rw [normalDocument_eq h]
  apply validDocument_print
  · rw [Tree.indent, Tree.isObject_rewrite, Tree.escape, Tree.isObject_rewrite, hobject]
  · rw [Tree.depth_indent, Tree.depth_escape]
    exact hdepth

/-- Two texts of the same JSON value. -/
def SameValue (document document' : Bytes) : Prop :=
  ∃ t t', parseText document = some t ∧ parseText document' = some t' ∧ t.value = t'.value

theorem sameValue_normalDocument {document : Bytes} {t : Tree} (h : embed document = some t) :
    SameValue document (normalDocument document) := by
  have hparse' := parseText_normalDocument h
  obtain ⟨t', hparse, rfl⟩ := Option.map_eq_some_iff.mp h
  exact ⟨t', _, hparse, hparse', by rw [Tree.value_indent, Tree.value_escape]⟩

/-! ### Records -/

/-- The strings of a record are valid UTF-8; the model is one of four. -/
structure Record.Utf8Valid (record : Record) : Prop where
  id : Utf8.valid record.id = true
  metadata : ∀ entry ∈ record.metadata.entries,
    Utf8.valid entry.1 = true ∧ Utf8.valid entry.2 = true

instance (record : Record) : Decidable record.Utf8Valid :=
  decidable_of_iff (Utf8.valid record.id = true ∧ ∀ entry ∈ record.metadata.entries,
    Utf8.valid entry.1 = true ∧ Utf8.valid entry.2 = true)
    ⟨fun h => ⟨h.1, h.2⟩, fun h => ⟨h.id, h.metadata⟩⟩

/-- The offsets of a record's times are whole minutes. -/
structure Record.WholeMinutes (record : Record) : Prop where
  activeFrom : ∀ t ∈ record.activeFrom, t.offset % 60 = 0
  activeUntil : ∀ t ∈ record.activeUntil, t.offset % 60 = 0

def Record.normalize (record : Record) : Record :=
  { record with document := normalDocument record.document }

/-- What `Record.tree` consists of. -/
theorem Record.tree_eq_some {record : Record} {t : Tree} (h : record.tree = some t) :
    ∃ activeFrom activeUntil document,
      timeMembers .activeFrom record.activeFrom = some activeFrom ∧
      timeMembers .activeUntil record.activeUntil = some activeUntil ∧
      embed record.document = some document ∧
      t = encodeStruct RecordField.name (record.members activeFrom activeUntil document) := by
  obtain ⟨activeFrom, hfrom, h⟩ := Option.bind_eq_some_iff.mp h
  obtain ⟨activeUntil, huntil, h⟩ := Option.bind_eq_some_iff.mp h
  obtain ⟨document, hdocument, rfl⟩ := Option.map_eq_some_iff.mp h
  exact ⟨activeFrom, activeUntil, document, hfrom, huntil, hdocument, rfl⟩

theorem fieldOf_recordFields (field : RecordField) :
    fieldOf recordFields field.name = some field := by
  cases field <;> decide

theorem fieldOf_manifestFields (field : ManifestField) :
    fieldOf manifestFields field.name = some field := by
  cases field <;> decide

theorem valid_recordField_name (field : RecordField) : Utf8.valid field.name = true := by
  cases field <;> decide

theorem valid_manifestField_name (field : ManifestField) : Utf8.valid field.name = true := by
  cases field <;> decide

theorem valid_of_modelValid {model : Model} (h : modelValid model = true) :
    Utf8.valid model = true := by
  simp only [modelValid, Bool.or_eq_true, beq_iff_eq, or_assoc] at h
  rcases h with rfl | rfl | rfl | rfl <;> decide

theorem valid_of_algorithmValid {algorithm : Algorithm} (h : algorithmValid algorithm = true) :
    Utf8.valid algorithm = true := by
  simp only [algorithmValid, Bool.or_eq_true, beq_iff_eq, or_assoc] at h
  rcases h with rfl | rfl | rfl | rfl <;> decide

theorem decodeFields_time {field : RecordField} {t : Option Time}
    {members : List (RecordField × Tree)} (h : timeMembers field t = some members)
    (hwhole : ∀ u ∈ t, u.offset % 60 = 0) {n : Nat} {record : Record}
    {s : Record → Option Time → Record}
    (hset : ∀ tree record, field.decode tree record = (decodeTime tree).map (s record))
    (hnone : t = none → s record none = record) :
    decodeFields RecordField.decode n members record = some (s record t) := by
  cases t with
  | none =>
    cases h
    rw [hnone rfl]
    rfl
  | some u =>
    obtain ⟨tree, htree, rfl⟩ := Option.map_eq_some_iff.mp h
    rw [decodeFields, hset, decodeTime_encodeTime (hwhole u rfl) htree]
    rfl

theorem decodeFields_priority (priority : Int64) {n : Nat} {record : Record}
    (h : record.priority = 0) :
    decodeFields RecordField.decode n (priorityMembers priority) record
      = some { record with priority := priority } := by
  rw [priorityMembers]
  split
  · rename_i hzero
    rw [hzero, ← h]
    rfl
  · rw [decodeFields, RecordField.decode, decodeInt_ofInt]
    rfl

theorem decodeFields_metadata {metadata : Metadata}
    (hvalid : ∀ entry ∈ metadata.entries,
      Utf8.valid entry.1 = true ∧ Utf8.valid entry.2 = true) {n : Nat} {record : Record}
    (h : record.metadata = ∅) :
    decodeFields RecordField.decode n (metadataMembers metadata) record
      = some { record with metadata := metadata } := by
  rw [metadataMembers]
  split
  · rename_i hempty
    rw [hempty, ← h]
    rfl
  · rw [decodeFields, RecordField.decode, h, decodeMap_encodeMap hvalid]
    rfl

/-- A record whose text is read back. -/
structure Record.Regular (record : Record) : Prop where
  model : modelValid record.model = true
  utf8 : record.Utf8Valid
  wholeMinutes : record.WholeMinutes

/-- **A record is read back from its text**, with its document as it stands
there. -/
theorem decodeRecord_tree {record : Record} {t : Tree} (h : record.tree = some t)
    (hregular : record.Regular) : decodeRecord (t.indent 2) {} = some record.normalize := by
  obtain ⟨activeFrom, activeUntil, document, hfrom, huntil, hdocument, rfl⟩ :=
    Record.tree_eq_some h
  have hmodel := valid_of_modelValid hregular.model
  rw [decodeRecord, decodeStruct_encodeStruct fieldOf_recordFields valid_recordField_name,
    Record.members]
  simp only [List.cons_append, List.nil_append, decodeFields, RecordField.decode,
    decodeString_quoteBody hregular.utf8.id, decodeString_quoteBody hmodel, decodeUint_ofUint,
    Option.map_some, Option.bind_some]
  rw [decodeFields_append, decodeFields_priority _ rfl, Option.bind_some, decodeFields_append,
    decodeFields_time hfrom hregular.wholeMinutes.activeFrom
      (s := fun record t => { record with activeFrom := t }) (fun _ _ => rfl) (fun _ => rfl),
    Option.bind_some, decodeFields_append,
    decodeFields_time huntil hregular.wholeMinutes.activeUntil
      (s := fun record t => { record with activeUntil := t }) (fun _ _ => rfl) (fun _ => rfl),
    Option.bind_some, decodeFields_append, decodeFields_metadata hregular.utf8.metadata rfl,
    Option.bind_some, Record.normalize, normalDocument_eq hdocument]
  rfl

/-! ### Manifests -/

def Manifest.normalize (manifest : Manifest) : Manifest :=
  { manifest with policies := manifest.policies.map (List.map Record.normalize) }

theorem Manifest.records_normalize (manifest : Manifest) :
    manifest.normalize.records = manifest.records.map Record.normalize := by
  unfold Manifest.normalize Manifest.records
  cases manifest.policies <;> rfl

/-- Every record of a manifest that has a text has one. -/
theorem exists_tree_of_mem {manifest : Manifest} {t : Tree} (h : manifest.tree = some t) :
    ∀ record ∈ manifest.records, ∃ t, record.tree = some t := by
  obtain ⟨policies, hpolicies, -⟩ := Option.map_eq_some_iff.mp h
  unfold Manifest.records
  cases hrecords : manifest.policies with
  | none => simp
  | some records =>
    rw [hrecords] at hpolicies
    obtain ⟨trees, htrees, -⟩ := Option.map_eq_some_iff.mp hpolicies
    intro record hr
    exact exists_of_mapM_eq_some htrees record hr

theorem decodeElements_trees : ∀ {records : List Record} {trees : List Tree},
    records.mapM Record.tree = some trees →
    (∀ record ∈ records, record.Regular) →
    decodeElements (trees.map (Tree.indent 2)) [] = some (records.map Record.normalize) := by
  intro records
  induction records with
  | nil => intro trees h _; cases h; rfl
  | cons record records ih =>
    intro trees h hregular
    rw [List.mapM_cons] at h
    obtain ⟨t, ht, h⟩ := Option.bind_eq_some_iff.mp h
    obtain ⟨rest, hrest, h⟩ := Option.bind_eq_some_iff.mp h
    cases h
    rw [List.map_cons, decodeElements, List.headD_nil, decodeRecord_tree ht (hregular record List.mem_cons_self),
      Option.bind_some, List.tail_nil,
      ih hrest fun other ho => hregular other (List.mem_cons_of_mem _ ho)]
    rfl

theorem decodePolicies_eq_elements {t : Tree} {elements : List Tree}
    (h : t.elements? = some elements) (state : Decoding) :
    decodePolicies t state
      = (decodeElements elements (state.manifest.records ++ state.spare)).map fun records =>
        { manifest := { state.manifest with policies := some records }
          spare := if elements = [] then []
            else (state.manifest.records ++ state.spare).drop elements.length } := by
  cases t with
  | empty kind inner => show Option.bind _ _ = _; rw [h, Option.bind_some]
  | node kind items => show Option.bind _ _ = _; rw [h, Option.bind_some]
  | _ => cases h

/-- The member `policies` of a manifest without records so far. -/
theorem decodePolicies_tree {policies : Option (List Record)} {t : Tree}
    (h : policiesTree policies = some t)
    (hregular : ∀ record ∈ policies.getD [], record.Regular)
    {state : Decoding} (hnone : state.manifest.policies = none) (hspare : state.spare = []) :
    decodePolicies (t.indent 1) state = some { manifest :=
      { state.manifest with policies := policies.map (List.map Record.normalize) } } := by
  cases policies with
  | none => cases h; rfl
  | some records =>
    obtain ⟨trees, htrees, rfl⟩ := Option.map_eq_some_iff.mp h
    have hslots : state.manifest.records ++ state.spare = [] := by
      rw [Manifest.records, hnone, hspare]
      rfl
    rw [decodePolicies_eq_elements (elements?_indent_array trees 1), hslots,
      decodeElements_trees htrees hregular]
    simp

theorem decodeManifest_tree {manifest : Manifest} {t : Tree} (h : manifest.tree = some t)
    (hformat : Utf8.valid manifest.format = true)
    (halgorithm : Utf8.valid manifest.algorithm = true)
    (hregular : ∀ record ∈ manifest.records, record.Regular) :
    decodeManifest (t.indent 0) = some manifest.normalize := by
  obtain ⟨policies, hpolicies, rfl⟩ := Option.map_eq_some_iff.mp h
  rw [decodeManifest, decodeStruct_encodeStruct fieldOf_manifestFields valid_manifestField_name]
  simp only [decodeFields, ManifestField.decode, decodeString_quoteBody hformat,
    decodeString_quoteBody halgorithm, decodeUint_ofUint, Option.map_some, Option.bind_some]
  rw [decodePolicies_tree hpolicies hregular rfl rfl]
  rfl

/-! ### Validation of what was decoded -/

theorem checkRecord_eq_none {index : Nat} {policyIDs : List PolicyID} {record : Record} :
    checkRecord index policyIDs record = none ↔
      (record.id ≠ [] ∧ record.revision ≠ 0 ∧ modelValid record.model = true ∧
        validDocument record.document = true) ∧ record.id ∉ policyIDs ∧
        record.windowEmpty = false := by
  unfold checkRecord
  split
  · rename_i h
    simp only [reduceCtorEq, false_iff]
    rintro ⟨⟨h1, h2, h3, h4⟩, -⟩
    rcases h with h | h | h | h
    · exact h1 h
    · exact h2 h
    · rw [h3] at h; cases h
    · rw [h4] at h; cases h
  · rename_i h
    have hfields : record.id ≠ [] ∧ record.revision ≠ 0 ∧ modelValid record.model = true ∧
        validDocument record.document = true := by
      simpa only [not_or, Bool.not_eq_false] using h
    split
    · rename_i hmem
      simp [hmem]
    · rename_i hmem
      split
      · rename_i hwindow
        simp [hwindow]
      · rename_i hwindow
        exact ⟨fun _ => ⟨hfields, hmem, by simpa using hwindow⟩, fun _ => rfl⟩

theorem validate_eq_none {manifest : Manifest} :
    manifest.validate = none ↔ (manifest.format = formatV1 ∧ manifest.revision ≠ 0 ∧
      algorithmValid manifest.algorithm = true) ∧
      checkEach Record.id checkRecord 0 [] manifest.records = none := by
  unfold Manifest.validate
  split
  · rename_i h
    simp only [reduceCtorEq, false_iff]
    rintro ⟨⟨h1, h2, h3⟩, -⟩
    rcases h with h | h | h
    · exact h h1
    · exact h2 h
    · rw [h3] at h; cases h
  · rename_i h
    simp only [not_or, not_not, Bool.not_eq_false] at h
    exact ⟨fun hc => ⟨h, hc⟩, fun hc => hc.2⟩

theorem checkRecord_new (index : Nat) (policyIDs : List PolicyID) (record : Record)
    (h : checkRecord index policyIDs record = none) : record.id ∉ policyIDs :=
  (checkRecord_eq_none.mp h).2.1

/-- What `Validate` checks of each record. -/
theorem checked_of_validate {manifest : Manifest} (h : manifest.validate = none) :
    ∀ record ∈ manifest.records, record.id ≠ [] ∧ record.revision ≠ 0 ∧
      modelValid record.model = true ∧ validDocument record.document = true := by
  intro record hr
  obtain ⟨index, seen, hcheck⟩ :=
    (checkEach_eq_none checkRecord_new (validate_eq_none.mp h).2).2.2 record hr
  exact (checkRecord_eq_none.mp hcheck).1

theorem validate_normalize {manifest : Manifest} {t : Tree} (h : manifest.validate = none)
    (htree : manifest.tree = some t) : manifest.normalize.validate = none := by
  obtain ⟨hfields, hcheck⟩ := validate_eq_none.mp h
  refine validate_eq_none.mpr ⟨hfields, ?_⟩
  rw [Manifest.records_normalize]
  refine checkEach_map_eq_none (fun _ _ => rfl) ?_ hcheck
  intro record hr index seen hrecord
  obtain ⟨t', ht'⟩ := exists_tree_of_mem htree record hr
  obtain ⟨-, -, document, -, -, hdocument, -⟩ := Record.tree_eq_some ht'
  obtain ⟨⟨h1, h2, h3, h4⟩, h5⟩ := checkRecord_eq_none.mp hrecord
  exact checkRecord_eq_none.mpr
    ⟨⟨h1, h2, h3, validDocument_normalDocument h4 hdocument⟩, h5⟩

/-! ### The round trip -/

/-- **What `Encode` accepts and what it writes.** -/
theorem encode_eq_ok {manifest : Manifest} {encoded : Bytes} :
    encode manifest = .ok encoded ↔ manifest.validate = none ∧ ∃ t, manifest.tree = some t ∧
      t.depth ≤ maxDepth ∧ (t.indent 0).print.length + 1 ≤ maxEncodedManifestBytes ∧
      encoded = (t.indent 0).print ++ [0x0A] := by
  unfold encode
  constructor
  · intro h
    split at h
    · cases h
    · rename_i hvalid
      split at h
      · cases h
      · rename_i text hmarshal
        obtain ⟨t, ht, hdepth⟩ := Option.bind_eq_some_iff.mp hmarshal
        split at hdepth
        · rename_i hle
          cases hdepth
          split at h
          · cases h
          · rename_i hsize
            cases h
            exact ⟨hvalid, t, ht, hle, not_lt.mp hsize, rfl⟩
        · cases hdepth
  · rintro ⟨hvalid, t, ht, hdepth, hsize, rfl⟩
    have hmarshal : marshalIndent manifest.tree = some (t.indent 0).print := by
      rw [marshalIndent, ht, Option.bind_some, if_pos hdepth]
    rw [hvalid]
    dsimp only
    rw [hmarshal]
    dsimp only
    rw [if_neg (not_lt.mpr hsize)]

theorem decode_print {t : Tree} {manifest : Manifest} (hdepth : t.depth ≤ maxDepth)
    (hsize : (t.indent 0).print.length + 1 ≤ maxEncodedManifestBytes)
    (hdecode : decodeManifest (t.indent 0) = some manifest) (hvalid : manifest.validate = none) :
    decode ((t.indent 0).print ++ [0x0A]) = .ok manifest := by
  have hskip : skipSpace ((t.indent 0).print ++ [0x0A]) = (t.indent 0).print ++ [0x0A] :=
    skipSpace_append (w := .nil) (notSpace_print _ _)
  have hnum : NotNum [0x0A] := by
    intro b hb
    cases hb
    decide
  have hparse : parseValue maxDepth ((t.indent 0).print ++ [0x0A]) = some (t.indent 0, [0x0A]) :=
    parseValue_print _ (by rw [Tree.depth_indent]; exact hdepth) hnum
  unfold decode
  rw [if_neg (by rw [List.length_append]; exact not_lt.mpr hsize), hskip, hparse]
  dsimp only
  rw [hdecode]
  dsimp only
  rw [if_neg (by decide), hvalid]

/-- **`Decode` reads what `Encode` wrote.** -/
theorem decode_of_encode {manifest : Manifest} {encoded : Bytes}
    (h : encode manifest = .ok encoded) (hutf8 : ∀ record ∈ manifest.records, record.Utf8Valid)
    (hwhole : ∀ record ∈ manifest.records, record.WholeMinutes) :
    decode encoded = .ok manifest.normalize := by
  obtain ⟨hvalid, t, ht, hdepth, hsize, rfl⟩ := encode_eq_ok.mp h
  obtain ⟨⟨hformat, -, halgorithm⟩, -⟩ := validate_eq_none.mp hvalid
  refine decode_print hdepth hsize (decodeManifest_tree ht ?_ ?_ ?_) (validate_normalize hvalid ht)
  · rw [hformat]
    decide
  · exact valid_of_algorithmValid halgorithm
  · intro record hr
    exact ⟨(checked_of_validate hvalid record hr).2.2.1, hutf8 record hr, hwhole record hr⟩

/-- The text of a record read back differs in its layout only. -/
theorem Record.tree_normalize {record : Record} {t : Tree} (h : record.tree = some t) :
    ∃ t', record.normalize.tree = some t' ∧ t'.indent 2 = t.indent 2 := by
  obtain ⟨activeFrom, activeUntil, document, hfrom, huntil, hdocument, rfl⟩ :=
    Record.tree_eq_some h
  refine ⟨encodeStruct RecordField.name
    (record.members activeFrom activeUntil (document.indent 3)), ?_, ?_⟩
  · show (timeMembers .activeFrom record.activeFrom).bind _ = _
    rw [hfrom, Option.bind_some]
    show (timeMembers .activeUntil record.activeUntil).bind _ = _
    rw [huntil, Option.bind_some]
    show (embed (normalDocument record.document)).map _ = _
    rw [embed_normalDocument hdocument, Option.map_some]
    rfl
  · apply indent_object_congr
    simp only [Record.members, List.map_append, List.map_cons, List.map_nil, Tree.indent_indent]

theorem exists_mapM_tree_normalize : ∀ {records : List Record} {trees : List Tree},
    records.mapM Record.tree = some trees →
    ∃ trees', (records.map Record.normalize).mapM Record.tree = some trees' ∧
      trees'.map (Tree.indent 2) = trees.map (Tree.indent 2) := by
  intro records
  induction records with
  | nil => intro trees h; cases h; exact ⟨[], rfl, rfl⟩
  | cons record records ih =>
    intro trees h
    rw [List.mapM_cons] at h
    obtain ⟨t, ht, h⟩ := Option.bind_eq_some_iff.mp h
    obtain ⟨rest, hrest, h⟩ := Option.bind_eq_some_iff.mp h
    cases h
    obtain ⟨t', ht', hindent⟩ := Record.tree_normalize ht
    obtain ⟨rest', hrest', hindents⟩ := ih hrest
    refine ⟨t' :: rest', ?_, by rw [List.map_cons, List.map_cons, hindent, hindents]⟩
    rw [List.map_cons, List.mapM_cons, ht', hrest']
    rfl

theorem Manifest.tree_normalize {manifest : Manifest} {t : Tree} (h : manifest.tree = some t) :
    ∃ t', manifest.normalize.tree = some t' ∧ t'.indent 0 = t.indent 0 := by
  obtain ⟨policies, hpolicies, rfl⟩ := Option.map_eq_some_iff.mp h
  have hpolicies' : ∃ policies', policiesTree manifest.normalize.policies = some policies' ∧
      policies'.indent 1 = policies.indent 1 := by
    unfold Manifest.normalize
    cases hrecords : manifest.policies with
    | none =>
      rw [hrecords] at hpolicies
      exact ⟨policies, hpolicies, rfl⟩
    | some records =>
      rw [hrecords] at hpolicies
      obtain ⟨trees, htrees, rfl⟩ := Option.map_eq_some_iff.mp hpolicies
      obtain ⟨trees', htrees', hindent⟩ := exists_mapM_tree_normalize htrees
      refine ⟨array trees', ?_, indent_array_congr hindent⟩
      show ((records.map Record.normalize).mapM Record.tree).map array = _
      rw [htrees', Option.map_some]
  obtain ⟨policies', htree, hindent⟩ := hpolicies'
  refine ⟨_, by rw [Manifest.tree, htree, Option.map_some], ?_⟩
  apply indent_object_congr
  simp only [List.map_cons, List.map_nil, hindent]
  rfl

/-- **Encoding what was decoded gives the same bytes.** -/
theorem encode_normalize {manifest : Manifest} {encoded : Bytes}
    (h : encode manifest = .ok encoded) : encode manifest.normalize = .ok encoded := by
  obtain ⟨hvalid, t, ht, hdepth, hsize, rfl⟩ := encode_eq_ok.mp h
  obtain ⟨t', ht', hindent⟩ := Manifest.tree_normalize ht
  have hdepth' : t'.depth ≤ maxDepth := by
    rw [← Tree.depth_indent t' 0, hindent, Tree.depth_indent]
    exact hdepth
  exact encode_eq_ok.mpr ⟨validate_normalize hvalid ht, t', ht', hdepth', by rw [hindent]; exact hsize,
    by rw [hindent]⟩

/-! ### What `Decode` returns -/

/-- A record as `Decode` fills it. -/
def Record.Read (record : Record) : Prop := record.Utf8Valid ∧ record.WholeMinutes

theorem read_empty : ({} : Record).Read :=
  ⟨⟨rfl, fun _ h => absurd h (List.not_mem_nil)⟩, ⟨nofun, nofun⟩⟩

theorem read_decode (field : RecordField) (t : Tree) (record record' : Record)
    (h : field.decode t record = some record') (hread : record.Read) : record'.Read := by
  obtain ⟨⟨hid, hmetadata⟩, ⟨hfrom, huntil⟩⟩ := hread
  cases field with
  | id =>
    obtain ⟨value, hvalue, rfl⟩ := Option.map_eq_some_iff.mp h
    exact ⟨⟨valid_decodeString hvalue hid, hmetadata⟩, hfrom, huntil⟩
  | activeFrom =>
    obtain ⟨value, hvalue, rfl⟩ := Option.map_eq_some_iff.mp h
    exact ⟨⟨hid, hmetadata⟩, whole_decodeTime hvalue, huntil⟩
  | activeUntil =>
    obtain ⟨value, hvalue, rfl⟩ := Option.map_eq_some_iff.mp h
    exact ⟨⟨hid, hmetadata⟩, hfrom, whole_decodeTime hvalue⟩
  | metadata =>
    obtain ⟨value, hvalue, rfl⟩ := Option.map_eq_some_iff.mp h
    exact ⟨⟨hid, valid_decodeMap hvalue hmetadata⟩, hfrom, huntil⟩
  | document =>
    cases h
    exact ⟨⟨hid, hmetadata⟩, hfrom, huntil⟩
  | _ =>
    obtain ⟨value, -, rfl⟩ := Option.map_eq_some_iff.mp h
    exact ⟨⟨hid, hmetadata⟩, hfrom, huntil⟩

theorem read_decodeElements : ∀ {elements : List Tree} {slots records : List Record},
    decodeElements elements slots = some records → (∀ record ∈ slots, record.Read) →
    ∀ record ∈ records, record.Read := by
  intro elements
  induction elements with
  | nil => intro slots records h _ record hr; cases h; cases hr
  | cons t rest ih =>
    intro slots records h hslots record hr
    obtain ⟨first, hfirst, h⟩ := Option.bind_eq_some_iff.mp h
    obtain ⟨others, hothers, rfl⟩ := Option.map_eq_some_iff.mp h
    have hhead : (slots.headD {}).Read := by
      cases slots with
      | nil => exact read_empty
      | cons slot slots => exact hslots slot List.mem_cons_self
    rcases List.mem_cons.mp hr with rfl | hr
    · exact decodeStruct_invariant read_decode hfirst hhead
    · exact ih hothers (fun slot hs => hslots slot (List.mem_of_mem_tail hs)) record hr

/-- A manifest as `Decode` fills it, with the records it may come back to. -/
def Decoding.Read (state : Decoding) : Prop :=
  ∀ record ∈ state.manifest.records ++ state.spare, record.Read

theorem read_decodePolicies {t : Tree} {state state' : Decoding}
    (h : decodePolicies t state = some state') (hread : state.Read) : state'.Read := by
  unfold decodePolicies at h
  split at h
  · cases h; intro record hr; cases hr
  · obtain ⟨elements, -, h⟩ := Option.bind_eq_some_iff.mp h
    obtain ⟨records, hrecords, rfl⟩ := Option.map_eq_some_iff.mp h
    intro record hr
    rcases List.mem_append.mp hr with hr | hr
    · exact read_decodeElements hrecords hread record hr
    · dsimp only at hr
      split at hr
      · cases hr
      · exact hread record (List.mem_of_mem_drop hr)

theorem read_decodeField (field : ManifestField) (t : Tree) (state state' : Decoding)
    (h : field.decode t state = some state') (hread : state.Read) : state'.Read := by
  cases field with
  | policies => exact read_decodePolicies h hread
  | _ =>
    obtain ⟨value, -, rfl⟩ := Option.map_eq_some_iff.mp h
    exact hread

theorem decode_eq_ok {encoded : Bytes} {manifest : Manifest} (h : decode encoded = .ok manifest) :
    manifest.validate = none ∧ ∃ t, decodeManifest t = some manifest := by
  unfold decode at h
  split at h
  · cases h
  · split at h
    · cases h
    · rename_i t rest _
      split at h
      · cases h
      · rename_i found hfound
        split at h
        · cases h
        · split at h
          · cases h
          · rename_i hvalid
            cases h
            exact ⟨hvalid, t, hfound⟩

/-- **The strings `Decode` returns are valid and its offsets whole minutes.** -/
theorem read_of_decode {encoded : Bytes} {manifest : Manifest}
    (h : decode encoded = .ok manifest) : ∀ record ∈ manifest.records, record.Read := by
  obtain ⟨-, t, ht⟩ := decode_eq_ok h
  obtain ⟨state, hstate, rfl⟩ := Option.map_eq_some_iff.mp ht
  have hread : state.Read := decodeStruct_invariant read_decodeField hstate (by
    intro record hr
    cases hr)
  exact fun record hr => hread record (List.mem_append_left _ hr)

/-! ### What round trips -/

/-- The times of a record. -/
def Record.times (record : Record) : List Time :=
  record.activeFrom.toList ++ record.activeUntil.toList

/-- The year shown is between 0 and 9999 and the offset is whole minutes. -/
structure Encodable (t : Time) : Prop where
  day : 0 ≤ t.day
  year : yearOfDay t.day.toNat ≤ 9999
  whole : t.offset % 60 = 0

instance (t : Time) : Decidable (Encodable t) :=
  decidable_of_iff (0 ≤ t.day ∧ yearOfDay t.day.toNat ≤ 9999 ∧ t.offset % 60 = 0)
    ⟨fun h => ⟨h.1, h.2.1, h.2.2⟩, fun h => ⟨h.day, h.year, h.whole⟩⟩

/-- The indented text and a newline are at most 16 MiB. -/
def Manifest.fits (manifest : Manifest) : Bool :=
  manifest.tree.all fun t => decide ((t.indent 0).print.length + 1 ≤ maxEncodedManifestBytes)

/-- A valid manifest with encodable times whose text fits. -/
structure Manifest.Admissible (manifest : Manifest) : Prop where
  valid : manifest.validate = none
  times : ∀ record ∈ manifest.records, ∀ t ∈ record.times, Encodable t
  size : manifest.fits = true

structure SameRecord (record record' : Record) : Prop where
  fields : record' = { record with document := record'.document }
  document : SameValue record.document record'.document

structure SameManifest (manifest manifest' : Manifest) : Prop where
  format : manifest'.format = manifest.format
  revision : manifest'.revision = manifest.revision
  algorithm : manifest'.algorithm = manifest.algorithm
  policies : List.Forall₂ SameRecord manifest.records manifest'.records

/-- `Encode` succeeds, `Decode` gives the manifest back, and encoding that gives
the same bytes. -/
def Manifest.RoundTrips (manifest : Manifest) : Prop :=
  ∃ encoded manifest', encode manifest = .ok encoded ∧ decode encoded = .ok manifest' ∧
    SameManifest manifest manifest' ∧ encode manifest' = .ok encoded

/-- The offsets of a record's times are below a day. -/
def Record.OffsetsBelowDay (record : Record) : Prop :=
  ∀ t ∈ record.times, t.offset.natAbs < 86400

instance (record : Record) : Decidable record.OffsetsBelowDay :=
  inferInstanceAs (Decidable (∀ t ∈ record.times, t.offset.natAbs < 86400))

theorem exists_formatTime {t : Time} (h : Encodable t) (hday : t.offset.natAbs < 86400) :
    ∃ s, formatTime t = some s := by
  have hyear : (dateOfDay t.day.toNat).1 ≤ 9999 ∧ t.offset.natAbs / 3600 < 24 :=
    ⟨h.year, by omega⟩
  rw [formatTime, if_neg (not_lt.mpr h.day)]
  dsimp only
  rw [if_pos hyear]
  exact ⟨_, rfl⟩

theorem exists_timeMembers (field : RecordField) {t : Option Time}
    (h : ∀ u ∈ t.toList, Encodable u ∧ u.offset.natAbs < 86400) :
    ∃ members, timeMembers field t = some members := by
  cases t with
  | none => exact ⟨[], rfl⟩
  | some u =>
    obtain ⟨hencodable, hday⟩ := h u (by simp)
    obtain ⟨s, hs⟩ := exists_formatTime hencodable hday
    obtain ⟨tree, htree⟩ := exists_encodeTime hs
    exact ⟨[(field, tree)], by rw [timeMembers, htree, Option.map_some]⟩

theorem Record.exists_tree {record : Record} (hdocument : Json.valid record.document = true)
    (htimes : ∀ t ∈ record.times, Encodable t ∧ t.offset.natAbs < 86400) :
    ∃ t, record.tree = some t := by
  obtain ⟨activeFrom, hfrom⟩ := exists_timeMembers .activeFrom
    fun u hu => htimes u (List.mem_append_left _ hu)
  obtain ⟨activeUntil, huntil⟩ := exists_timeMembers .activeUntil
    fun u hu => htimes u (List.mem_append_right _ hu)
  obtain ⟨document, hparse⟩ := Option.isSome_iff_exists.mp hdocument
  rw [Record.tree, hfrom, Option.bind_some, huntil, Option.bind_some, embed, hparse]
  exact ⟨_, rfl⟩

theorem Manifest.exists_tree {manifest : Manifest}
    (h : ∀ record ∈ manifest.records, ∃ t, record.tree = some t) :
    ∃ t, manifest.tree = some t := by
  unfold Manifest.tree
  unfold Manifest.records at h
  cases hrecords : manifest.policies with
  | none => exact ⟨_, rfl⟩
  | some records =>
    rw [hrecords] at h
    obtain ⟨trees, htrees⟩ : ∃ trees, records.mapM Record.tree = some trees :=
      exists_mapM_eq_some h
    rw [policiesTree, htrees]
    exact ⟨_, rfl⟩

/-- A text that fits is not nested too deep. -/
theorem depth_le_of_size {t : Tree}
    (h : (t.indent 0).print.length + 1 ≤ maxEncodedManifestBytes) : t.depth ≤ maxDepth := by
  by_contra hdeep
  have hdepth : 10001 ≤ t.depth := not_le.mp hdeep
  have hlen := t.depth_le_length 0
  have hsquare : 10000 * 10001 ≤ (t.depth - 1) * (2 * 0 + t.depth) :=
    Nat.mul_le_mul (by omega) (by omega)
  unfold maxEncodedManifestBytes at h
  omega

theorem sameManifest_normalize {manifest : Manifest} {t : Tree} (h : manifest.tree = some t) :
    SameManifest manifest manifest.normalize where
  format := rfl
  revision := rfl
  algorithm := rfl
  policies := by
    rw [Manifest.records_normalize, List.forall₂_map_right_iff, List.forall₂_same]
    intro record hr
    obtain ⟨t', ht'⟩ := exists_tree_of_mem h record hr
    obtain ⟨-, -, document, -, -, hdocument, -⟩ := Record.tree_eq_some ht'
    exact ⟨rfl, sameValue_normalDocument hdocument⟩

/-- **The codec round trip.**  An admissible manifest comes back from its encoding
field by field, with documents of the same value, and is encoded to the same bytes
again, if its strings are valid UTF-8, its documents are JSON texts as they stand
and its offsets are below a day. -/
theorem manifest_round_trip {manifest : Manifest} (h : manifest.Admissible)
    (hutf8 : ∀ record ∈ manifest.records, record.Utf8Valid)
    (hdocuments : ∀ record ∈ manifest.records, Json.valid record.document = true)
    (hoffsets : ∀ record ∈ manifest.records, record.OffsetsBelowDay) : manifest.RoundTrips := by
  obtain ⟨t, ht⟩ := Manifest.exists_tree fun record hr => Record.exists_tree
    (hdocuments record hr) fun u hu => ⟨h.times record hr u hu, hoffsets record hr u hu⟩
  have hsize : (t.indent 0).print.length + 1 ≤ maxEncodedManifestBytes := by
    have hfits := h.size
    rw [Manifest.fits, ht, Option.all_some, decide_eq_true_eq] at hfits
    exact hfits
  have hencode : encode manifest = .ok ((t.indent 0).print ++ [0x0A]) :=
    encode_eq_ok.mpr ⟨h.valid, t, ht, depth_le_of_size hsize, hsize, rfl⟩
  have hwhole : ∀ record ∈ manifest.records, record.WholeMinutes := by
    intro record hr
    refine ⟨fun u hu => ?_, fun u hu => ?_⟩
    · exact (h.times record hr u (List.mem_append_left _ (Option.mem_toList.mpr hu))).whole
    · exact (h.times record hr u (List.mem_append_right _ (Option.mem_toList.mpr hu))).whole
  exact ⟨_, _, hencode, decode_of_encode hencode hutf8 hwhole, sameManifest_normalize ht,
    encode_normalize hencode⟩

/-- A record of revision 1 for the ACL model. -/
def aclRecord (id : PolicyID) (document : Bytes) : Record where
  id := id
  revision := 1
  model := modelACL
  document := document

def manifestOf (records : List Record) : Manifest where
  format := formatV1
  revision := 1
  algorithm := algorithmDenyOverrides
  policies := some records

/-- A manifest with every optional field and a document that is laid out and
escaped differently once it was encoded. -/
def editedManifest : Manifest :=
  manifestOf [{ aclRecord (str "documents/é") (str " \x7b \"a<b\" : [ 1 , \"\\u0041\" ] \x7d") with
    priority := -3
    activeFrom := some ⟨63797910245000000120, 19800⟩
    activeUntil := some ⟨63797910246000000000, 0⟩
    metadata := (∅ : Metadata).insertAll [(str "owner", str "a & b"), (str "", [])] }]

theorem manifest_round_trip_edited : editedManifest.RoundTrips :=
  manifest_round_trip ⟨by decide +kernel, by decide +kernel, by decide +kernel⟩
    (by decide +kernel) (by decide +kernel) (by decide +kernel)

/-- Whether `Decode` accepts what `Encode` writes. -/
def Manifest.reads (manifest : Manifest) : Bool :=
  match encode manifest with
  | .ok encoded => (decode encoded).isOk
  | .error _ => false

theorem Manifest.RoundTrips.reads {manifest : Manifest} (h : manifest.RoundTrips) :
    manifest.reads = true := by
  obtain ⟨encoded, manifest', hencode, hdecode, -⟩ := h
  rw [Manifest.reads, hencode]
  dsimp only
  rw [hdecode]
  rfl

/-- Two identifiers that are different invalid bytes, and so the same replacement
character once encoded. -/
def invalidManifest : Manifest :=
  manifestOf [aclRecord [0xFF] (str "\x7b\x7d"), aclRecord [0xFE] (str "\x7b\x7d")]

/-- A document after a no-break space, which `Validate` trims and JSON does not
know. -/
def paddedManifest : Manifest := manifestOf [aclRecord (str "p") [0xC2, 0xA0, 0x7B, 0x7D]]

/-- A time in a zone a whole day east. -/
def distantManifest : Manifest :=
  manifestOf [{ aclRecord (str "p") (str "\x7b\x7d") with activeFrom := some ⟨0, 86400⟩ }]

/-- **None of the three conditions follows from the others.** -/
theorem manifest_round_trip_lost :
    (invalidManifest.Admissible ∧
      (∀ record ∈ invalidManifest.records, Json.valid record.document = true) ∧
      (∀ record ∈ invalidManifest.records, record.OffsetsBelowDay) ∧
      ¬ invalidManifest.RoundTrips) ∧
    (paddedManifest.Admissible ∧ (∀ record ∈ paddedManifest.records, record.Utf8Valid) ∧
      (∀ record ∈ paddedManifest.records, record.OffsetsBelowDay) ∧
      ¬ paddedManifest.RoundTrips) ∧
    (distantManifest.Admissible ∧ (∀ record ∈ distantManifest.records, record.Utf8Valid) ∧
      (∀ record ∈ distantManifest.records, Json.valid record.document = true) ∧
      ¬ distantManifest.RoundTrips) := by
  have hlost : ∀ {manifest : Manifest}, manifest.reads = false → ¬ manifest.RoundTrips := by
    intro manifest h hround
    rw [hround.reads] at h
    cases h
  refine ⟨⟨?_, ?_, ?_, hlost ?_⟩, ⟨?_, ?_, ?_, hlost ?_⟩, ⟨?_, ?_, ?_, hlost ?_⟩⟩
  · exact ⟨by decide +kernel, by decide +kernel, by decide +kernel⟩
  · decide +kernel
  · decide +kernel
  · decide +kernel
  · exact ⟨by decide +kernel, by decide +kernel, by decide +kernel⟩
  · decide +kernel
  · decide +kernel
  · decide +kernel
  · exact ⟨by decide +kernel, by decide +kernel, by decide +kernel⟩
  · decide +kernel
  · decide +kernel
  · decide +kernel

end Authorization.Policy
