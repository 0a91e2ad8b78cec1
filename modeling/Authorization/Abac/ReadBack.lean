import Authorization.Abac.Document

/-!
# Reading documents of conditions back

What the JSON format brings back of a document (`readBack`), and what `Build` makes
of it.  Everything about a condition document is said in terms of its children, so
the statements about trees go by `ConditionDocument.rule`, and those about the codec
by the nesting it allows.
-/

namespace Authorization.Abac

open Authorization.Foundation Authorization.Core Authorization.Foundation.Json

/-! ### Induction over condition documents -/

mutual

theorem ConditionDocument.rule {P : ConditionDocument → Prop}
    (step : ∀ document : ConditionDocument, (∀ child ∈ document.conditions.toList, P child) →
      (∀ child ∈ document.condition.toList, P child) → P document) :
    ∀ document, P document
  | ⟨_, _, _, _, _, conditions, condition, _, _⟩ =>
    step _ (ConditionDocument.ruleSlice step conditions)
      (ConditionDocument.rulePointer step condition)

theorem ConditionDocument.ruleSlice {P : ConditionDocument → Prop}
    (step : ∀ document : ConditionDocument, (∀ child ∈ document.conditions.toList, P child) →
      (∀ child ∈ document.condition.toList, P child) → P document) :
    ∀ conditions : Slice ConditionDocument, ∀ child ∈ conditions.toList, P child
  | .nil => fun _ h => absurd h List.not_mem_nil
  | .of elems _ => ConditionDocument.ruleList step elems

theorem ConditionDocument.ruleList {P : ConditionDocument → Prop}
    (step : ∀ document : ConditionDocument, (∀ child ∈ document.conditions.toList, P child) →
      (∀ child ∈ document.condition.toList, P child) → P document) :
    ∀ conditions : List ConditionDocument, ∀ child ∈ conditions, P child
  | [] => fun _ h => absurd h List.not_mem_nil
  | document :: rest => List.forall_mem_cons.mpr
      ⟨ConditionDocument.rule step document, ConditionDocument.ruleList step rest⟩

theorem ConditionDocument.rulePointer {P : ConditionDocument → Prop}
    (step : ∀ document : ConditionDocument, (∀ child ∈ document.conditions.toList, P child) →
      (∀ child ∈ document.condition.toList, P child) → P document) :
    ∀ condition : Option ConditionDocument, ∀ child ∈ condition.toList, P child
  | none => fun _ h => absurd h List.not_mem_nil
  | some document => List.forall_mem_cons.mpr
      ⟨ConditionDocument.rule step document, fun _ h => absurd h List.not_mem_nil⟩

end

/-! ### Building and counting, by children -/

section Build

variable (literals : Literals)

theorem buildConditions_eq : ∀ conditions : List ConditionDocument,
    buildConditions literals conditions
      = buildList (ConditionDocument.build literals) conditions := by
  intro conditions
  induction conditions with
  | nil => rfl
  | cons document rest ih =>
    rw [buildConditions, buildList, ih]
    cases document.build literals <;> rfl

theorem buildSlice_eq (conditions : Slice ConditionDocument) :
    buildSlice literals conditions
      = buildList (ConditionDocument.build literals) conditions.toList := by
  cases conditions with
  | nil => rfl
  | of elems spare => exact buildConditions_eq literals elems

theorem ConditionDocument.build_eq (document : ConditionDocument) :
    document.build literals =
      if document.operator = operatorAll ∨ document.operator = operatorAny then
        (buildList (ConditionDocument.build literals) document.conditions.toList).map
          fun conditions =>
            if document.operator = operatorAll then .allCondition conditions
            else .anyCondition conditions
      else if document.operator = operatorNot then
        (buildPointer literals document.condition).map .notCondition
      else
        match document.reference with
        | .error err => .error err
        | .ok reference => document.buildLeaf literals reference := by
  obtain ⟨operator, source, attributeName, value, values, conditions, condition, text, ipPrefix⟩ :=
    document
  rewrite [ConditionDocument.build, buildSlice_eq]
  rfl

end Build

theorem nodesOfList_eq : ∀ documents : List ConditionDocument,
    nodesOfList documents = (documents.map ConditionDocument.nodes).sum := by
  intro documents
  induction documents with
  | nil => rfl
  | cons document rest ih => rw [nodesOfList, List.map_cons, List.sum_cons, ih]

theorem ConditionDocument.nodes_eq (document : ConditionDocument) :
    document.nodes = 1 + ((document.conditions.toList.map ConditionDocument.nodes).sum +
      (document.condition.toList.map ConditionDocument.nodes).sum) := by
  obtain ⟨operator, source, attributeName, value, values, conditions, condition, text, ipPrefix⟩ :=
    document
  have hslice : nodesOfSlice conditions
      = (conditions.toList.map ConditionDocument.nodes).sum := by
    cases conditions with
    | nil => rfl
    | of elems spare => exact nodesOfList_eq elems
  have hpointer : nodesOfPointer condition
      = (condition.toList.map ConditionDocument.nodes).sum := by
    cases condition with
    | none => rfl
    | some child => exact (Nat.add_zero _).symm
  rw [ConditionDocument.nodes, hslice, hpointer]

/-! ### What comes back -/

def ValueDocument.readBack (document : ValueDocument) : ValueDocument :=
  { document with
    float := unsignZero document.float
    stringSet := .ofList document.stringSet.toList }

mutual

/-- A condition as it is read back. -/
def ConditionDocument.readBack : ConditionDocument → ConditionDocument
  | ⟨operator, source, attributeName, value, values, conditions, condition, text, ipPrefix⟩ =>
    ⟨operator, source, attributeName, value.map ValueDocument.readBack,
      .ofList (values.toList.map ValueDocument.readBack), .ofList (readBackSlice conditions),
      readBackPointer condition, text, ipPrefix⟩

def readBackSlice : Slice ConditionDocument → List ConditionDocument
  | .nil => []
  | .of elems _ => readBackList elems

def readBackList : List ConditionDocument → List ConditionDocument
  | [] => []
  | document :: rest => document.readBack :: readBackList rest

def readBackPointer : Option ConditionDocument → Option ConditionDocument
  | none => none
  | some document => some document.readBack

end

theorem readBackList_eq : ∀ documents : List ConditionDocument,
    readBackList documents = documents.map ConditionDocument.readBack := by
  intro documents
  induction documents with
  | nil => rfl
  | cons document rest ih => rw [readBackList, List.map_cons, ih]

theorem ConditionDocument.readBack_eq (document : ConditionDocument) :
    document.readBack = { document with
      value := document.value.map ValueDocument.readBack
      values := .ofList (document.values.toList.map ValueDocument.readBack)
      conditions := .ofList (document.conditions.toList.map ConditionDocument.readBack)
      condition := document.condition.map ConditionDocument.readBack } := by
  obtain ⟨operator, source, attributeName, value, values, conditions, condition, text, ipPrefix⟩ :=
    document
  have hslice : readBackSlice conditions
      = conditions.toList.map ConditionDocument.readBack := by
    cases conditions with
    | nil => rfl
    | of elems spare => exact readBackList_eq elems
  have hpointer : readBackPointer condition = condition.map ConditionDocument.readBack := by
    cases condition <;> rfl
  rw [ConditionDocument.readBack, hslice, hpointer]

def RuleDocument.readBack (rule : RuleDocument) : RuleDocument :=
  { rule with condition := rule.condition.map ConditionDocument.readBack }

def NamedConditionDocument.readBack (definition : NamedConditionDocument) :
    NamedConditionDocument :=
  { definition with condition := definition.condition.readBack }

def Document.readBack (document : Document) : Document :=
  { document with
    rules := document.rules.map RuleDocument.readBack
    namedConditions := document.namedConditions.map NamedConditionDocument.readBack }

/-! ### The strings of a document -/

def ValueDocument.strings (document : ValueDocument) : List Bytes :=
  document.kind :: document.string :: document.time :: document.ip :: document.stringSet.toList

mutual

def ConditionDocument.strings : ConditionDocument → List Bytes
  | ⟨operator, source, attributeName, value, values, conditions, condition, text, ipPrefix⟩ =>
    operator :: source :: attributeName :: text :: ipPrefix ::
      (value.toList.flatMap ValueDocument.strings ++
        (values.toList.flatMap ValueDocument.strings ++
          (stringsOfSlice conditions ++ stringsOfPointer condition)))

def stringsOfSlice : Slice ConditionDocument → List Bytes
  | .nil => []
  | .of elems _ => stringsOfList elems

def stringsOfList : List ConditionDocument → List Bytes
  | [] => []
  | document :: rest => document.strings ++ stringsOfList rest

def stringsOfPointer : Option ConditionDocument → List Bytes
  | none => []
  | some document => document.strings

end

def RuleDocument.strings (rule : RuleDocument) : List Bytes :=
  rule.id :: rule.tenant :: rule.action :: rule.resourceType :: rule.resourceID :: rule.effect ::
    rule.conditionName :: rule.condition.toList.flatMap ConditionDocument.strings

def NamedConditionDocument.strings (definition : NamedConditionDocument) : List Bytes :=
  definition.name :: definition.condition.strings

/-- The strings of a document, used or not. -/
def Document.strings (document : Document) : List Bytes :=
  document.rules.toList.flatMap RuleDocument.strings ++
    document.namedConditions.toList.flatMap NamedConditionDocument.strings

theorem stringsOfList_eq : ∀ documents : List ConditionDocument,
    stringsOfList documents = documents.flatMap ConditionDocument.strings := by
  intro documents
  induction documents with
  | nil => rfl
  | cons document rest ih => rw [stringsOfList, List.flatMap_cons, ih]

theorem ConditionDocument.strings_eq (document : ConditionDocument) :
    document.strings = document.operator :: document.source :: document.attributeName ::
      document.text :: document.ipPrefix ::
        (document.value.toList.flatMap ValueDocument.strings ++
          (document.values.toList.flatMap ValueDocument.strings ++
            (document.conditions.toList.flatMap ConditionDocument.strings ++
              document.condition.toList.flatMap ConditionDocument.strings))) := by
  obtain ⟨operator, source, attributeName, value, values, conditions, condition, text, ipPrefix⟩ :=
    document
  have hslice : stringsOfSlice conditions
      = conditions.toList.flatMap ConditionDocument.strings := by
    cases conditions with
    | nil => rfl
    | of elems spare => exact stringsOfList_eq elems
  have hpointer : stringsOfPointer condition
      = condition.toList.flatMap ConditionDocument.strings := by
    cases condition with
    | none => rfl
    | some child => exact (List.append_nil _).symm
  rw [ConditionDocument.strings, hslice, hpointer]

/-! ### The codecs read documents back -/

section Codecs

variable (floats : FloatText floatFinite)

theorem reads_value {document : ValueDocument}
    (h : ∀ s ∈ document.strings, Utf8.valid s = true) :
    (valueCodec floats).Reads document document.readBack := by
  simp only [ValueDocument.strings, List.forall_mem_cons] at h
  obtain ⟨hkind, hstring, htime, hip, hset⟩ := h
  refine Codec.reads_struct rfl ?_
  refine .cons (reads_field (Codec.reads_string hkind) rfl) ?_
  refine .cons (reads_omitempty (Codec.omitted_string hstring) rfl rfl) ?_
  refine .cons (reads_omitempty (Codec.omitted_bool _) rfl rfl) ?_
  refine .cons (reads_omitempty (Codec.omitted_int64 _) rfl rfl) ?_
  refine .cons (reads_omitempty (Codec.omitted_float64 floats _) rfl rfl) ?_
  refine .cons (reads_omitempty (Codec.omitted_string htime) rfl rfl) ?_
  refine .cons (reads_omitempty (Codec.omitted_string hip) rfl rfl) ?_
  refine .cons (reads_omitempty
    (Codec.omitted_slice_self fun s hs => Codec.reads_string (hset s hs)) rfl rfl) ?_
  exact .nil _

/-- A pointer comes back with what its target comes back as. -/
theorem omitted_pointer {α : Type} {c : Codec α} (hnull : c.NeverNull) {f : α → α} {p : Option α}
    (h : ∀ a ∈ p.toList, c.Reads a (f a)) : (Codec.pointer c).ReadsOmitted p (p.map f) := by
  cases p with
  | none => exact Codec.omitted_pointer_none c
  | some a => exact Codec.omitted_pointer_some hnull (h a (List.mem_singleton.mpr rfl))

theorem neverNull_nestedCodec (n : Nat) : (nestedCodec floats n).NeverNull := by
  cases n with
  | zero => intro document t ht; cases ht
  | succ n => exact Codec.neverNull_struct _ _

/-- **A condition of valid strings is read back**, however deep it is nested. -/
theorem reads_nested : ∀ (n : Nat) (document : ConditionDocument),
    (∀ s ∈ document.strings, Utf8.valid s = true) →
    (nestedCodec floats n).Reads document document.readBack := by
  intro n
  induction n with
  | zero => intro document _; exact Codec.reads_never _ _ _
  | succ n ih =>
    intro document h
    rw [ConditionDocument.strings_eq] at h
    simp only [List.forall_mem_cons, List.forall_mem_append, List.mem_flatMap,
      forall_exists_index, and_imp] at h
    obtain ⟨hoperator, hsource, hname, htext, hprefix, hvalue, hvalues, hconditions, hcondition⟩ := h
    rw [ConditionDocument.readBack_eq]
    refine Codec.reads_struct rfl ?_
    refine .cons (reads_field (Codec.reads_string hoperator) rfl) ?_
    refine .cons (reads_omitempty (Codec.omitted_string hsource) rfl rfl) ?_
    refine .cons (reads_omitempty (Codec.omitted_string hname) rfl rfl) ?_
    refine .cons (reads_omitempty (omitted_pointer (Codec.neverNull_struct _ _)
      fun value hv => reads_value floats fun s hs => hvalue s value hv hs) rfl rfl) ?_
    refine .cons (reads_omitempty (Codec.omitted_slice
      fun value hv => reads_value floats fun s hs => hvalues s value hv hs) rfl rfl) ?_
    refine .cons (reads_omitempty (Codec.omitted_slice
      fun child hc => ih child fun s hs => hconditions s child hc hs) rfl rfl) ?_
    refine .cons (reads_omitempty (omitted_pointer (neverNull_nestedCodec floats n)
      fun child hc => ih child fun s hs => hcondition s child hc hs) rfl rfl) ?_
    refine .cons (reads_omitempty (Codec.omitted_string htext) rfl rfl) ?_
    refine .cons (reads_omitempty (Codec.omitted_string hprefix) rfl rfl) ?_
    exact .nil _

theorem reads_rule {rule : RuleDocument} (h : ∀ s ∈ rule.strings, Utf8.valid s = true) :
    (ruleCodec floats).Reads rule rule.readBack := by
  simp only [RuleDocument.strings, List.forall_mem_cons, List.mem_flatMap, forall_exists_index,
    and_imp] at h
  obtain ⟨hid, htenant, haction, htype, hresource, heffect, hname, hcondition⟩ := h
  refine Codec.reads_struct rfl ?_
  refine .cons (reads_field (Codec.reads_string hid) rfl) ?_
  refine .cons (reads_omitempty (Codec.omitted_int _) rfl rfl) ?_
  refine .cons (reads_omitempty (Codec.omitted_string htenant) rfl rfl) ?_
  refine .cons (reads_field (Codec.reads_string haction) rfl) ?_
  refine .cons (reads_field (Codec.reads_string htype) rfl) ?_
  refine .cons (reads_omitempty (Codec.omitted_string hresource) rfl rfl) ?_
  refine .cons (reads_field (Codec.reads_string heffect) rfl) ?_
  refine .cons (reads_omitempty (omitted_pointer (neverNull_nestedCodec floats _)
    fun condition hc => reads_nested floats _ condition fun s hs => hcondition s condition hc hs)
    rfl rfl) ?_
  refine .cons (reads_omitempty (Codec.omitted_string hname) rfl rfl) ?_
  refine .cons (reads_omitempty (Codec.omitted_uint64 _) rfl rfl) ?_
  exact .nil _

theorem reads_namedCondition {definition : NamedConditionDocument}
    (h : ∀ s ∈ definition.strings, Utf8.valid s = true) :
    (namedConditionCodec floats).Reads definition definition.readBack := by
  simp only [NamedConditionDocument.strings, List.forall_mem_cons] at h
  obtain ⟨hname, hcondition⟩ := h
  refine Codec.reads_struct rfl ?_
  refine .cons (reads_field (Codec.reads_string hname) rfl) ?_
  refine .cons (reads_field (Codec.reads_uint64 _) rfl) ?_
  refine .cons (reads_field (reads_nested floats _ _ hcondition) ?_) ?_
  · rfl
  exact .nil _

theorem reads_limits (limits : Limits) : limitsCodec.Reads limits limits := by
  refine Codec.reads_struct rfl ?_
  refine .cons (reads_omitempty (Codec.omitted_int _) rfl rfl) ?_
  refine .cons (reads_omitempty (Codec.omitted_int _) rfl rfl) ?_
  refine .cons (reads_omitempty (Codec.omitted_int _) rfl rfl) ?_
  refine .cons (reads_omitempty (Codec.omitted_int _) rfl rfl) ?_
  refine .cons (reads_omitempty (Codec.omitted_int _) rfl rfl) ?_
  refine .cons (reads_omitempty (Codec.omitted_int _) rfl rfl) ?_
  refine .cons (reads_omitempty (Codec.omitted_int _) rfl rfl) ?_
  exact .nil _

theorem reads_document {document : Document} (h : ∀ s ∈ document.strings, Utf8.valid s = true) :
    (documentCodec floats).Reads document document.readBack := by
  simp only [Document.strings, List.forall_mem_append, List.mem_flatMap, forall_exists_index,
    and_imp] at h
  obtain ⟨hrules, hnamed⟩ := h
  refine Codec.reads_struct rfl ?_
  refine .cons (reads_field (Codec.reads_uint64 _) rfl) ?_
  refine .cons (reads_omitempty (Codec.omitted_struct (reads_limits _)) rfl rfl) ?_
  refine .cons (reads_field (Codec.reads_slice
    fun rule hr => reads_rule floats fun s hs => hrules s rule hr hs) rfl) ?_
  refine .cons (reads_field (Codec.reads_slice fun definition hd =>
    reads_namedCondition floats fun s hs => hnamed s definition hd hs) rfl) ?_
  exact .nil _

end Codecs

/-! ### What is built of it -/

theorem floatValue_unsignZero (bits : UInt64) :
    floatValue (unsignZero bits) = (floatValue bits).map Value.unsignZero := by
  unfold floatValue
  by_cases hfinite : floatFinite bits = true
  · rw [dif_pos hfinite, dif_pos (floatFinite_unsignZero hfinite)]
    rfl
  · have hsign : bits ≠ negativeZero := by
      rintro rfl
      exact hfinite (by decide)
    rw [unsignZero, if_neg hsign, dif_neg hfinite]
    rfl

section Built

variable (literals : Literals)

theorem ValueDocument.build_readBack (document : ValueDocument) :
    document.readBack.build literals = (document.build literals).map Value.unsignZero := by
  have hset : document.readBack.stringSet.toList = document.stringSet.toList :=
    Slice.toList_ofList _
  unfold ValueDocument.build
  rw [hset]
  unfold ValueDocument.readBack
  dsimp only
  split
  · rfl
  split
  · rfl
  split
  · rfl
  split
  · rfl
  split
  · exact floatValue_unsignZero document.float
  split
  · cases parsed (literals.parseTime document.time) <;> rfl
  split
  · cases parsed (literals.parseAddr document.ip) <;> rfl
  split
  · rfl
  · rfl

theorem ConditionDocument.buildLeaf_readBack (document : ConditionDocument)
    (reference : Reference) :
    document.readBack.buildLeaf literals reference
      = (document.buildLeaf literals reference).map (Condition.mapValues Value.unsignZero) := by
  have hvalues : buildList (ValueDocument.build literals) document.readBack.values.toList
      = (buildList (ValueDocument.build literals) document.values.toList).map
        (List.map Value.unsignZero) := by
    rw [ConditionDocument.readBack_eq, Slice.toList_ofList]
    exact buildList_map fun value _ => value.build_readBack literals
  have hvalue : document.readBack.value = document.value.map ValueDocument.readBack := by
    rw [ConditionDocument.readBack_eq]
  unfold ConditionDocument.buildLeaf
  rw [hvalues, hvalue, ConditionDocument.readBack_eq]
  dsimp only
  split
  · rfl
  split
  · rfl
  split
  · cases document.value with
    | none => rfl
    | some value =>
      rw [Option.map_some]
      dsimp only
      rw [value.build_readBack literals]
      cases value.build literals with
      | error err => rfl
      | ok value =>
        show Except.ok _ = Except.ok _
        split
        · rfl
        split <;> rfl
  split
  · cases buildList (ValueDocument.build literals) document.values.toList <;> rfl
  split
  · rfl
  split
  · rfl
  split
  · rfl
  split
  · rfl
  split
  · cases parsed (literals.parsePrefix document.ipPrefix) <;> rfl
  · rfl

/-- **A condition read back is built into the same condition**, up to the sign of
zero. -/
theorem ConditionDocument.build_readBack (document : ConditionDocument) :
    document.readBack.build literals
      = (document.build literals).map (Condition.mapValues Value.unsignZero) := by
  induction document using ConditionDocument.rule with
  | step document ihslice ihpointer =>
    have hslice : buildList (ConditionDocument.build literals) document.readBack.conditions.toList
        = (buildList (ConditionDocument.build literals) document.conditions.toList).map
          (List.map (Condition.mapValues Value.unsignZero)) := by
      rw [ConditionDocument.readBack_eq, Slice.toList_ofList]
      exact buildList_map ihslice
    have hpointer : buildPointer literals document.readBack.condition
        = (buildPointer literals document.condition).map
          (Condition.mapValues Value.unsignZero) := by
      rw [ConditionDocument.readBack_eq]
      cases hchild : document.condition with
      | none => rfl
      | some child => exact ihpointer child (by rw [hchild]; exact List.mem_singleton.mpr rfl)
    have hoperator : document.readBack.operator = document.operator := by
      rw [ConditionDocument.readBack_eq]
    have hreference : document.readBack.reference = document.reference := by
      rw [ConditionDocument.readBack_eq]
      rfl
    rw [ConditionDocument.build_eq, ConditionDocument.build_eq, hslice, hpointer, hoperator,
      hreference]
    split
    · cases buildList (ConditionDocument.build literals) document.conditions.toList with
      | error err => rfl
      | ok conditions =>
        show Except.ok _ = Except.ok _
        rw [← mapValuesIn_eq_map]
        split <;> rfl
    split
    · cases buildPointer literals document.condition <;> rfl
    · cases document.reference with
      | error err => rfl
      | ok reference => exact document.buildLeaf_readBack literals reference

end Built

/-! ### The depth check of it -/

theorem ConditionDocument.nodes_readBack (document : ConditionDocument) :
    document.readBack.nodes = document.nodes := by
  induction document using ConditionDocument.rule with
  | step document ihslice ihpointer =>
    have hsum : ∀ documents : List ConditionDocument,
        (∀ child ∈ documents, child.readBack.nodes = child.nodes) →
        (documents.map ConditionDocument.readBack).map ConditionDocument.nodes
          = documents.map ConditionDocument.nodes := by
      intro documents h
      rw [List.map_map]
      exact List.map_congr_left h
    rw [ConditionDocument.nodes_eq, ConditionDocument.nodes_eq, ConditionDocument.readBack_eq]
    dsimp only
    rw [Slice.toList_ofList, hsum _ ihslice, Option.toList_map, hsum _ ihpointer]

theorem ConditionDocument.children_readBack (document : ConditionDocument) :
    document.readBack.children = document.children.map ConditionDocument.readBack := by
  unfold ConditionDocument.children
  rw [ConditionDocument.readBack_eq]
  dsimp only
  split
  · exact Slice.toList_ofList _
  split
  · exact Option.toList_map
  · rfl

theorem validateDocumentStack_readBack (maxDepth : Int) : ∀ (fuel : Nat)
    (stack : List (ConditionDocument × Int)),
      validateDocumentStack maxDepth fuel (stack.map fun frame => (frame.1.readBack, frame.2))
        = validateDocumentStack maxDepth fuel stack := by
  intro fuel
  induction fuel with
  | zero => intro stack; rfl
  | succ fuel ih =>
    intro stack
    cases stack with
    | nil => rfl
    | cons frame stack =>
      obtain ⟨document, depth⟩ := frame
      have hstack : document.readBack.children.map (fun child => (child, depth + 1)) ++
            stack.map (fun frame => (frame.1.readBack, frame.2))
          = (document.children.map (fun child => (child, depth + 1)) ++ stack).map
            fun frame => (frame.1.readBack, frame.2) := by
        rw [ConditionDocument.children_readBack, List.map_append, List.map_map, List.map_map]
        rfl
      rw [List.map_cons, validateDocumentStack, validateDocumentStack, hstack, ih]

theorem validateConditionDocumentLimits_readBack (limits : Limits)
    (document : ConditionDocument) :
    validateConditionDocumentLimits limits document.readBack
      = validateConditionDocumentLimits limits document := by
  unfold validateConditionDocumentLimits
  rw [ConditionDocument.nodes_readBack]
  exact validateDocumentStack_readBack limits.maxDepth _ [(document, 1)]

/-! ### Rules and documents -/

theorem RuleDocument.validateLimits_readBack (limits : Limits) (rule : RuleDocument) :
    rule.readBack.validateLimits limits = rule.validateLimits limits := by
  unfold RuleDocument.validateLimits RuleDocument.readBack
  cases rule.condition with
  | none => rfl
  | some condition => exact validateConditionDocumentLimits_readBack limits condition

section Built

variable (literals : Literals)

theorem NamedConditionDocument.build_readBack (definition : NamedConditionDocument) :
    definition.readBack.build literals
      = (definition.build literals).map (NamedCondition.mapValues Value.unsignZero) := by
  unfold NamedConditionDocument.build
  show ((definition.condition.readBack.build literals).map _ : Except GoError NamedCondition) = _
  rw [definition.condition.build_readBack literals]
  cases definition.condition.build literals <;> rfl

theorem RuleDocument.build_readBack (rule : RuleDocument) :
    rule.readBack.build literals = (rule.build literals).map (Rule.mapValues Value.unsignZero) := by
  have hcondition : rule.readBack.buildCondition literals
      = (rule.buildCondition literals).map (Condition.mapValues Value.unsignZero) := by
    unfold RuleDocument.buildCondition RuleDocument.readBack
    cases rule.condition with
    | none => rfl
    | some condition => exact condition.build_readBack literals
  unfold RuleDocument.build
  have heffect : rule.readBack.effect = rule.effect := rfl
  rw [hcondition, heffect]
  cases documentErrors.parseEffect rule.effect with
  | error err => rfl
  | ok effect => cases rule.buildCondition literals <;> rfl

/-- **A document that can be built can be so after it was read back**, into the same
rules up to the sign of zero. -/
theorem Document.build_readBack {document : Document} {evaluator : Evaluator}
    (h : document.build literals = .ok evaluator) :
    document.readBack.build literals = .ok (evaluator.mapValues Value.unsignZero) := by
  have hnamed : document.readBack.namedConditions.toList
      = document.namedConditions.toList.map NamedConditionDocument.readBack :=
    Slice.toList_map _ _
  have hrules : document.readBack.rules.toList
      = document.rules.toList.map RuleDocument.readBack := Slice.toList_map _ _
  obtain ⟨hversion, hnamedDepths, hruleDepths, named, rules, hnamedBuilt, hrulesBuilt, hnew⟩ :=
    (Document.build_eq_ok_iff literals).mp h
  refine (Document.build_eq_ok_iff literals).mpr ⟨hversion, ?_, ?_,
    named.map (NamedCondition.mapValues Value.unsignZero),
    rules.map (Rule.mapValues Value.unsignZero), ?_, ?_,
    new_mapValues comparesAlike_unsignZero hnew⟩
  · rw [hnamed]
    intro changed hchanged
    obtain ⟨definition, hd, rfl⟩ := List.mem_map.mp hchanged
    exact (validateConditionDocumentLimits_readBack _ _).trans (hnamedDepths definition hd)
  · rw [hrules]
    intro changed hchanged
    obtain ⟨rule, hr, rfl⟩ := List.mem_map.mp hchanged
    exact (rule.validateLimits_readBack _).trans (hruleDepths rule hr)
  · rw [hnamed, List.forall₂_map_left_iff, List.forall₂_map_right_iff]
    refine hnamedBuilt.imp fun definition built hbuilt => ?_
    rw [definition.build_readBack literals, hbuilt]
    rfl
  · rw [hrules, List.forall₂_map_left_iff, List.forall₂_map_right_iff]
    refine hrulesBuilt.imp fun rule built hbuilt => ?_
    rw [rule.build_readBack literals, hbuilt]
    rfl

end Built

/-! ### The round trip -/

/-- No call tells the evaluators apart. -/
structure Evaluator.Agrees (evaluator evaluator' : Evaluator) : Prop where
  evaluate : ∀ {W : Type} (ctx : Context W) (request : Request) (w : W),
    evaluator'.evaluate ctx request w = evaluator.evaluate ctx request w
  maxBatchSize : evaluator'.limits.maxBatchSize = evaluator.limits.maxBatchSize
  evaluateBatch : ∀ {W : Type} (ctx : Context W) (requests : List Request) (w : W),
    evaluator'.evaluateBatch ctx requests w = evaluator.evaluateBatch ctx requests w

theorem Evaluator.agrees_mapValues {f : Core.Value → Core.Value} (hf : ComparesAlike f)
    (evaluator : Evaluator) : evaluator.Agrees (evaluator.mapValues f) where
  evaluate ctx request w := evaluator_mapValues hf evaluator ctx request w
  maxBatchSize := rfl
  evaluateBatch ctx requests w := evaluateBatch_mapValues hf evaluator ctx requests w

/-- What `EncodeDocument` writes, `DecodeDocument` makes an evaluator of that agrees
with the one of `Build`. -/
def Document.RoundTrips (floats : FloatText floatFinite) (literals : Literals)
    (document : Document) : Prop :=
  ∀ encoded, encodeDocument floats literals document = .ok encoded →
    ∃ built decoded, document.build literals = .ok built ∧
      decodeDocument floats literals encoded = .ok decoded ∧ built.Agrees decoded

theorem Document.roundTrips (floats : FloatText floatFinite) (literals : Literals)
    {document : Document} (hutf8 : ∀ s ∈ document.strings, Utf8.valid s = true) :
    document.RoundTrips floats literals := by
  intro encoded h
  obtain ⟨⟨built, hbuilt⟩, -, -⟩ := encodeDocument_eq_ok.mp h
  have hdecode : decodeDocument floats literals encoded = document.readBack.build literals :=
    decodeDocument_of_encode (reads_document floats hutf8) h
  exact ⟨built, _, hbuilt, hdecode.trans (Document.build_readBack literals hbuilt),
    built.agrees_mapValues comparesAlike_unsignZero⟩

end Authorization.Abac
