import Authorization.Core.Decision
import Authorization.Foundation.Json.Codec

/-!
# Model documents

`document.go` of the three policy models, as far as they agree.  A document is
built into an evaluator; it is encoded only if it can be built, and what is decoded
is built at once.  Both directions refuse more than one mebibyte.

The documents themselves, their codecs and their `Build` are each package's own.
Where a document's codec reads it back, `decodeDocument_of_encode` says what
`DecodeDocument` makes of the bytes `EncodeDocument` wrote: it builds the document
read back.
-/

namespace Authorization.Core

open Authorization.Foundation Authorization.Foundation.Json

def documentVersion : UInt64 := 1

def maxEncodedDocumentBytes : Nat := 1048576

def effectAllow : Bytes := str "allow"
def effectDeny : Bytes := str "deny"

/-- The errors of one package. -/
structure DocumentErrors where
  invalidDocument : Sentinel
  unsupportedDocumentVersion : Sentinel
  documentLimitExceeded : Sentinel

/-- `parseEffect` and `parseDocumentEffect`. -/
def DocumentErrors.parseEffect (errors : DocumentErrors) (effect : Bytes) :
    Except GoError Outcome :=
  if effect = effectAllow then .ok .allow
  else if effect = effectDeny then .ok .deny
  else .error (.sentinel errors.invalidDocument)

/-! ### The loops of `Build` -/

section BuildEach

variable {α β : Type}

/-- The items in turn; `what` names the item with its position in an error. -/
def buildEach (what : String) (build : α → Except GoError β) :
    Nat → List α → Except GoError (List β)
  | _, [] => .ok []
  | index, item :: rest =>
    match build item with
    | .error err => .error (.errorf [.text what, .num index, .text ": "] err)
    | .ok built => (buildEach what build (index + 1) rest).map fun others => built :: others

/-- **The items are built** exactly when each one is. -/
theorem buildEach_eq_ok_iff {what : String} {build : α → Except GoError β} :
    ∀ {items : List α} {built : List β} {index : Nat},
      buildEach what build index items = .ok built ↔
        List.Forall₂ (fun item result => build item = .ok result) items built := by
  intro items
  induction items with
  | nil =>
    intro built index
    rw [List.forall₂_nil_left_iff, buildEach]
    exact ⟨fun h => (Except.ok.inj h).symm, fun h => congrArg _ h.symm⟩
  | cons item rest ih =>
    intro built index
    rw [List.forall₂_cons_left_iff, buildEach]
    cases hitem : build item with
    | error err =>
      refine ⟨fun h => (by cases h), ?_⟩
      rintro ⟨result, others, h, -, -⟩
      cases h
    | ok first =>
      dsimp only
      constructor
      · intro h
        cases hrest : buildEach what build (index + 1) rest with
        | error err => rw [hrest] at h; cases h
        | ok others =>
          rw [hrest] at h
          cases h
          exact ⟨first, others, rfl, ih.mp hrest, rfl⟩
      · rintro ⟨result, others, hresult, hothers, rfl⟩
        cases hresult
        rw [ih.mpr hothers]
        rfl

/-- What is built comes from an item. -/
theorem exists_item_of_built {build : α → Except GoError β} {items : List α} {built : List β}
    (h : List.Forall₂ (fun item result => build item = .ok result) items built) :
    ∀ result ∈ built, ∃ item ∈ items, build item = .ok result := by
  induction h with
  | nil => exact fun result hresult => absurd hresult List.not_mem_nil
  | @cons item first rest others hfirst _ ih =>
    refine List.forall_mem_cons.mpr ⟨⟨item, List.mem_cons_self, hfirst⟩, fun result hresult => ?_⟩
    obtain ⟨other, hother, hbuild⟩ := ih result hresult
    exact ⟨other, List.mem_cons_of_mem _ hother, hbuild⟩

/-- Checks, which return nothing, in turn. -/
theorem exists_buildEach_iff {what : String} {check : α → Except GoError Unit} {items : List α}
    {index : Nat} :
    (∃ checked, buildEach what check index items = .ok checked) ↔
      ∀ item ∈ items, check item = .ok () := by
  simp only [buildEach_eq_ok_iff]
  constructor
  · rintro ⟨checked, h⟩
    induction h with
    | nil => exact fun item hi => absurd hi List.not_mem_nil
    | cons hitem _ ih => exact List.forall_mem_cons.mpr ⟨hitem, ih⟩
  · intro h
    refine ⟨items.map fun _ => (), ?_⟩
    rw [List.forall₂_map_right_iff, List.forall₂_same]
    exact h

/-- An item that is not built names its position. -/
theorem buildEach_eq_error {what : String} {build : α → Except GoError β} {err : GoError} :
    ∀ {items : List α} {index : Nat}, buildEach what build index items = .error err →
      ∃ item ∈ items, ∃ parts failure, build item = .error failure ∧
        err = .errorf parts failure := by
  intro items
  induction items with
  | nil => intro index h; cases h
  | cons item rest ih =>
    intro index h
    rw [buildEach] at h
    cases hitem : build item with
    | error failure =>
      rw [hitem] at h
      cases h
      exact ⟨item, List.mem_cons_self, _, failure, hitem, rfl⟩
    | ok built =>
      rw [hitem] at h
      obtain ⟨other, hother, hfails⟩ := ih (map_eq_error.mp h)
      exact ⟨other, List.mem_cons_of_mem _ hother, hfails⟩

/-- The items in turn; an error is returned as it is. -/
def buildList (build : α → Except GoError β) : List α → Except GoError (List β)
  | [] => .ok []
  | item :: rest =>
    match build item with
    | .error err => .error err
    | .ok built => (buildList build rest).map fun others => built :: others

theorem buildList_eq_ok {build : α → Except GoError β} :
    ∀ {items : List α} {built : List β}, buildList build items = .ok built →
      List.Forall₂ (fun item result => build item = .ok result) items built := by
  intro items
  induction items with
  | nil =>
    intro built h
    cases h
    exact .nil
  | cons item rest ih =>
    intro built h
    rw [buildList] at h
    cases hitem : build item with
    | error err => rw [hitem] at h; cases h
    | ok first =>
      rw [hitem] at h
      cases hrest : buildList build rest with
      | error err => rw [hrest] at h; cases h
      | ok others =>
        rw [hrest] at h
        cases h
        exact .cons hitem (ih hrest)

theorem buildList_eq_error {build : α → Except GoError β} {err : GoError} :
    ∀ {items : List α}, buildList build items = .error err →
      ∃ item ∈ items, build item = .error err := by
  intro items
  induction items with
  | nil => intro h; cases h
  | cons item rest ih =>
    intro h
    rw [buildList] at h
    cases hitem : build item with
    | error failure =>
      rw [hitem] at h
      cases h
      exact ⟨item, List.mem_cons_self, hitem⟩
    | ok built =>
      rw [hitem] at h
      obtain ⟨other, hother, hfails⟩ := ih (map_eq_error.mp h)
      exact ⟨other, List.mem_cons_of_mem _ hother, hfails⟩

theorem buildList_map {build : α → Except GoError β} {f : α → α} {g : β → β} :
    ∀ {items : List α}, (∀ item ∈ items, build (f item) = (build item).map g) →
      buildList build (items.map f) = (buildList build items).map (List.map g) := by
  intro items
  induction items with
  | nil => intro _; rfl
  | cons item rest ih =>
    intro h
    rw [List.map_cons, buildList, buildList, h item List.mem_cons_self]
    cases build item with
    | error err => rfl
    | ok built =>
      show (buildList build (rest.map f)).map _ = _
      rw [ih fun other ho => h other (List.mem_cons_of_mem _ ho)]
      cases buildList build rest with
      | error err => rfl
      | ok others => rfl

end BuildEach

/-! ### Encoding and decoding -/

section Document

variable {δ ε : Type} (errors : DocumentErrors) (codec : Codec δ) (build : δ → Except GoError ε)

/-- `EncodeDocument`. -/
def encodeDocument (document : δ) : Except GoError Bytes :=
  match build document with
  | .error err => .error err
  | .ok _ =>
    match codec.marshalIndent document with
    | none => .error (.foreign [])
    | some encoded =>
      if encoded.length > maxEncodedDocumentBytes then
        .error (.sentinel errors.documentLimitExceeded)
      else .ok encoded

/-- `DecodeDocument`; the text of the decoder's error is left out. -/
def decodeDocument (encoded : Bytes) : Except GoError ε :=
  if encoded.length > maxEncodedDocumentBytes then .error (.sentinel errors.documentLimitExceeded)
  else
    match codec.decode encoded with
    | none => .error (.errorf [] (.sentinel errors.invalidDocument))
    | some (document, rest) =>
      if rest.all isSpace = false then .error (.sentinel errors.invalidDocument)
      else build document

variable {errors codec build}

/-- **What `EncodeDocument` accepts and what it writes.** -/
theorem encodeDocument_eq_ok {document : δ} {encoded : Bytes} :
    encodeDocument errors codec build document = .ok encoded ↔
      (∃ evaluator, build document = .ok evaluator) ∧
        codec.marshalIndent document = some encoded ∧
        encoded.length ≤ maxEncodedDocumentBytes := by
  unfold encodeDocument
  constructor
  · intro h
    split at h
    · cases h
    · rename_i evaluator hbuild
      split at h
      · cases h
      · rename_i text hmarshal
        split at h
        · cases h
        · rename_i hsize
          cases h
          exact ⟨⟨evaluator, hbuild⟩, hmarshal, not_lt.mp hsize⟩
  · rintro ⟨⟨evaluator, hbuild⟩, hmarshal, hsize⟩
    rw [hbuild]
    dsimp only
    rw [hmarshal]
    dsimp only
    rw [if_neg (not_lt.mpr hsize)]

/-- **`DecodeDocument` builds what is read back of an encoded document.** -/
theorem decodeDocument_of_encode {ε' : Type} {build' : δ → Except GoError ε'}
    {document document' : δ} {encoded : Bytes} (hreads : codec.Reads document document')
    (h : encodeDocument errors codec build document = .ok encoded) :
    decodeDocument errors codec build' encoded = build' document' := by
  obtain ⟨-, hmarshal, hsize⟩ := encodeDocument_eq_ok.mp h
  unfold decodeDocument
  rw [if_neg (not_lt.mpr hsize), Codec.decode_marshalIndent hreads hmarshal]
  dsimp only
  rw [if_neg (by decide)]

end Document

end Authorization.Core
