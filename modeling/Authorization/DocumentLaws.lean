import Authorization.Abac.Document
import Authorization.Acl.Document
import Authorization.Foundation.Json.ByValue
import Authorization.Laws
import Authorization.Policy.Compiler
import Authorization.Rbac.Document

/-!
# The laws of documents

What the text of a document of one of the three models stands for: the law of the
items that it lists.  The text is read by its JSON value (`readText_congr`), so texts
of one value have one law.

The `Decoder` of each package calls its `DecodeDocument`, which returns evaluators that
follow the law of the text (`Decoder.Follows`), and succeeds or fails on texts of one
value alike, up to their sizes (`Decoder.ReadsValues`).  The two together are
`Decoder.Means`.
-/

namespace Authorization

open Authorization.Foundation Authorization.Core Authorization.Foundation.Json

variable {W : Type} {ctx : Context W}

/-! ### Texts -/

namespace Core

/-- Nothing matches and nothing is admitted. -/
def Law.refusing : Law := ⟨fun _ => ∅, 0, fun _ => False⟩

variable {δ ε : Type} {errors : DocumentErrors} {codec : Codec δ} {build : δ → Except GoError ε}

/-- The law of the document that a text holds. -/
def Law.ofText (codec : Codec δ) (law : δ → Law) (text : Bytes) : Law :=
  match codec.readText text with
  | some document => law document
  | none => .refusing

/-- **What `DecodeDocument` accepts and what it builds.** -/
theorem decodeDocument_eq_ok_iff {encoded : Bytes} {evaluator : ε} :
    decodeDocument errors codec build encoded = .ok evaluator ↔
      encoded.length ≤ maxEncodedDocumentBytes ∧
        ∃ document, codec.readText encoded = some document ∧ build document = .ok evaluator := by
  simp only [Codec.readText_eq_some]
  unfold decodeDocument
  constructor
  · intro h
    split at h
    · cases h
    · rename_i hsize
      refine ⟨not_lt.mp hsize, ?_⟩
      split at h
      · cases h
      · rename_i document rest hdecode
        split at h
        · cases h
        · rename_i hrest
          exact ⟨document, ⟨rest, hdecode, Bool.eq_true_of_not_eq_false hrest⟩, h⟩
  · rintro ⟨hsize, document, ⟨rest, hdecode, hrest⟩, hbuild⟩
    rw [if_neg (not_lt.mpr hsize), hdecode]
    dsimp only
    rw [if_neg (by rw [hrest]; decide)]
    exact hbuild

/-- What was built of the items, without the errors. -/
theorem filterMap_eq_of_built {α β : Type} {make : α → Except GoError β} {items : List α}
    {built : List β} (h : List.Forall₂ (fun item result => make item = .ok result) items built) :
    (items.filterMap fun item => (make item).toOption) = built := by
  induction h with
  | nil => rfl
  | cons hitem _ ih =>
    rw [List.filterMap_cons, hitem, ih]
    rfl

end Core

/-! ### Decoders -/

namespace Policy

/-- The evaluators follow the laws of the texts they were made from. -/
def Decoder.Follows (ctx : Context W) (decoder : Decoder W) (law : Bytes → Law) : Prop :=
  ∀ {document w evaluator}, (decoder document w).1 = .ok (some evaluator) →
    evaluator.Follows ctx (law document)

/-- **The decoder gives texts their meaning**, which depends on their values only. -/
structure Decoder.Means (ctx : Context W) (cap : Nat) (law : Bytes → Law) (decoder : Decoder W) :
    Prop where
  follows : decoder.Follows ctx law
  reads : decoder.ReadsValues cap
  byValue : ∀ {document document'}, SameValue document document' → law document = law document'

/-- A decoder made of `DecodeDocument`: `policy` is the evaluator as a policy, and each
call may take other orders of the ranges. -/
def documentDecoder {δ ε : Type} (errors : DocumentErrors) (codec : Codec δ)
    (build : W → δ → Except GoError ε) (policy : ε → Evaluator W) : Decoder W :=
  fun document w =>
    ((decodeDocument errors codec (build w) document).map fun evaluator => some (policy evaluator),
      w)

theorem documentDecoder_eq_ok {δ ε : Type} {errors : DocumentErrors} {codec : Codec δ}
    {build : W → δ → Except GoError ε} {policy : ε → Evaluator W} {document : Bytes} {w : W}
    {evaluator : Evaluator W} :
    (documentDecoder errors codec build policy document w).1 = .ok (some evaluator) ↔
      document.length ≤ maxEncodedDocumentBytes ∧ ∃ read built,
        codec.readText document = some read ∧ build w read = .ok built ∧
          policy built = evaluator := by
  show (decodeDocument errors codec (build w) document).map _ = _ ↔ _
  constructor
  · intro h
    cases hdecode : decodeDocument errors codec (build w) document with
    | error err =>
      rw [hdecode] at h
      cases h
    | ok built =>
      rw [hdecode] at h
      cases h
      obtain ⟨hsize, read, hread, hbuild⟩ := decodeDocument_eq_ok_iff.mp hdecode
      exact ⟨hsize, read, built, hread, hbuild, rfl⟩
  · rintro ⟨hsize, read, built, hread, hbuild, rfl⟩
    rw [decodeDocument_eq_ok_iff.mpr ⟨hsize, read, hread, hbuild⟩]
    rfl

/-- **A decoder made of `DecodeDocument` gives texts their meaning** if its codec reads
by value, `Build` succeeds whatever the orders of its ranges and what is built follows
the law of the document. -/
theorem means_documentDecoder {δ ε : Type} {errors : DocumentErrors} {codec : Codec δ}
    {build : W → δ → Except GoError ε} {policy : ε → Evaluator W} {law : δ → Law}
    (hcodec : codec.ByValue)
    (horder : ∀ {read w built}, build w read = .ok built → ∀ w', build w' read = .ok built)
    (hlaw : ∀ {read w built}, build w read = .ok built → (policy built).Follows ctx (law read)) :
    (documentDecoder errors codec build policy).Means ctx maxEncodedDocumentBytes
      (Law.ofText codec law) where
  follows := by
    intro document w evaluator h
    obtain ⟨-, read, built, hread, hbuild, rfl⟩ := documentDecoder_eq_ok.mp h
    rw [Law.ofText, hread]
    exact hlaw hbuild
  reads :=
    { capped := fun h => (documentDecoder_eq_ok.mp h).1
      alike := by
        rintro document document' w evaluator ⟨t, t', ht, ht', hvalue⟩ _ hsize h w'
        obtain ⟨-, read, built, hread, hbuild, rfl⟩ := documentDecoder_eq_ok.mp h
        rw [Codec.readText_congr hcodec ht ht' hvalue] at hread
        exact ⟨policy built, documentDecoder_eq_ok.mpr
          ⟨hsize, read, built, hread, horder hbuild w', rfl⟩⟩ }
  byValue := by
    rintro document document' ⟨t, t', ht, ht', hvalue⟩
    rw [Law.ofText, Law.ofText, Codec.readText_congr hcodec ht ht' hvalue]

end Policy

/-! ### Access lists -/

namespace Acl

/-- The law of the entries. -/
def Document.law (document : Document) : Law :=
  Acl.law (document.entries.toList.filterMap fun entry => entry.build.toOption) document.options

theorem Document.follows_law {document : Document} {evaluator : Evaluator} (hctx : ctx.Quiet)
    (h : document.build = .ok evaluator) :
    Core.Evaluator.Follows ctx evaluator.policy document.law := by
  unfold Document.build at h
  split at h
  · cases h
  · split at h
    · cases h
    · rename_i entries hentries
      rw [Document.law, filterMap_eq_of_built (buildEach_eq_ok_iff.mp hentries)]
      exact Acl.follows_law h hctx

theorem byValue_documentCodec : documentCodec.ByValue := by
  have hentry : entryCodec.ByValue := Codec.byValue_struct (by simp [entryFields])
  have hlimits : limitsCodec.ByValue := Codec.byValue_struct (by simp [limitsFields])
  exact Codec.byValue_struct (by simp [documentFields, hentry, hlimits])

/-- `Decoder.Decode`. -/
def decoder : Policy.Decoder W :=
  Policy.documentDecoder documentErrors documentCodec (fun _ => Document.build) Evaluator.policy

/-- The law of a text. -/
def textLaw : Bytes → Law := Law.ofText documentCodec Document.law

theorem means_decoder (hctx : ctx.Quiet) :
    Policy.Decoder.Means ctx maxEncodedDocumentBytes textLaw decoder :=
  Policy.means_documentDecoder byValue_documentCodec (fun h _ => h) (Document.follows_law hctx)

end Acl

/-! ### Roles -/

namespace Rbac

/-- The roles, permissions and assignments that a document lists. -/
def Document.input (document : Document) : Input where
  roles := document.roles.toList.map RoleDocument.toRole
  permissions := document.permissions.toList.filterMap fun permission => permission.build.toOption
  assignments := document.assignments.toList.map AssignmentDocument.toAssignment

/-- The law of what it lists. -/
def Document.law (document : Document) : Law := Rbac.law document.input document.options

theorem Document.follows_law {ranges : RoleRanges} {document : Document} {evaluator : Evaluator}
    (order : W → MapRange RoleID) (hctx : ctx.Quiet) (h : document.build ranges = .ok evaluator) :
    Core.Evaluator.Follows ctx (evaluator.policy order) document.law := by
  unfold Document.build at h
  split at h
  · cases h
  · split at h
    · cases h
    · rename_i permissions hpermissions
      have hinput : document.input = ⟨document.roles.toList.map RoleDocument.toRole, permissions,
          document.assignments.toList.map AssignmentDocument.toAssignment⟩ := by
        rw [Document.input, filterMap_eq_of_built (buildEach_eq_ok_iff.mp hpermissions)]
      rw [Document.law, hinput]
      exact Rbac.follows_law h order hctx

theorem byValue_documentCodec : documentCodec.ByValue := by
  have hrole : roleCodec.ByValue := Codec.byValue_struct (by simp [roleFields])
  have hpermission : permissionCodec.ByValue := Codec.byValue_struct (by simp [permissionFields])
  have hassignment : assignmentCodec.ByValue := Codec.byValue_struct (by simp [assignmentFields])
  have hlimits : limitsCodec.ByValue := Codec.byValue_struct (by simp [limitsFields])
  exact Codec.byValue_struct (by simp [documentFields, hrole, hpermission, hassignment, hlimits])

/-- `Decoder.Decode`; the orders of the ranges are the world's. -/
def decoder (ranges : W → RoleRanges) (order : W → MapRange RoleID) : Policy.Decoder W :=
  Policy.documentDecoder documentErrors documentCodec (fun w => Document.build (ranges w))
    fun evaluator => evaluator.policy order

/-- The law of a text. -/
def textLaw : Bytes → Law := Law.ofText documentCodec Document.law

theorem means_decoder (ranges : W → RoleRanges) (order : W → MapRange RoleID) (hctx : ctx.Quiet) :
    Policy.Decoder.Means ctx maxEncodedDocumentBytes textLaw (decoder ranges order) := by
  refine Policy.means_documentDecoder byValue_documentCodec (fun h w' => ?_)
    (Document.follows_law order hctx)
  obtain ⟨-, -, -, hbuild⟩ := build_eq_ok h
  exact hbuild (ranges w')

end Rbac

/-! ### Rules -/

namespace Abac

variable (floats : FloatText floatFinite) (literals : Literals)

/-- The law of the rules and the conditions they name. -/
def Document.law (document : Document) : Law :=
  Abac.law (document.rules.toList.filterMap fun rule => (rule.build literals).toOption)
    (document.namedConditions.toList.filterMap fun definition =>
      (definition.build literals).toOption)
    [document.limits]

variable {literals} in
theorem Document.follows_law {document : Document} {evaluator : Evaluator} (hctx : ctx.Quiet)
    (h : document.build literals = .ok evaluator) :
    Core.Evaluator.Follows ctx evaluator.policy (document.law literals) := by
  obtain ⟨-, -, -, named, rules, hnamed, hrules, hnew⟩ := (Document.build_eq_ok_iff literals).mp h
  rw [Document.law, filterMap_eq_of_built hrules, filterMap_eq_of_built hnamed]
  exact Abac.follows_law hnew hctx

theorem byValue_valueCodec : (valueCodec floats).ByValue :=
  Codec.byValue_struct (by simp [valueFields])

/-- Conditions at every depth are read by value. -/
theorem byValue_nestedCodec : ∀ n, (nestedCodec floats n).ByValue := by
  have hvalue := byValue_valueCodec floats
  intro n
  induction n with
  | zero => exact Codec.byValue_never _
  | succ n ih => exact Codec.byValue_struct (by simp [conditionFields, hvalue, ih])

theorem byValue_documentCodec : (documentCodec floats).ByValue := by
  have hcondition : (conditionCodec floats).ByValue := byValue_nestedCodec floats maxDepth
  have hrule : (ruleCodec floats).ByValue :=
    Codec.byValue_struct (by simp [ruleFields, hcondition])
  have hnamed : (namedConditionCodec floats).ByValue :=
    Codec.byValue_struct (by simp [namedConditionFields, hcondition])
  have hlimits : limitsCodec.ByValue := Codec.byValue_struct (by simp [limitsFields])
  exact Codec.byValue_struct (by simp [documentFields, hrule, hnamed, hlimits])

/-- `Decoder.Decode`. -/
def decoder : Policy.Decoder W :=
  Policy.documentDecoder documentErrors (documentCodec floats) (fun _ => Document.build literals)
    Evaluator.policy

/-- The law of a text. -/
def textLaw : Bytes → Law := Law.ofText (documentCodec floats) (Document.law literals)

theorem means_decoder (hctx : ctx.Quiet) :
    Policy.Decoder.Means ctx maxEncodedDocumentBytes (textLaw floats literals)
      (decoder floats literals) :=
  Policy.means_documentDecoder (byValue_documentCodec floats) (fun h _ => h)
    (Document.follows_law hctx)

end Abac

end Authorization
