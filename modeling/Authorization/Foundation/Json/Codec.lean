import Authorization.Foundation.Json.Struct

/-!
# Codecs

How `encoding/json` writes and reads a Go type.  A codec is the zero value of the
type, its writer, its reader and the test of `omitempty`; a struct is the table of
its fields.  Values are read into what is there already: a struct keeps the fields
that have no member, a pointer its target, and a slice the elements its array held
before.

`Codec.Reads a b` says that what is written of `a` is read back as `b`.  There is
one rule for each kind of type, and for a struct one for each field.  Mostly `b` is
`a`; a slice comes back in an array of its own, and a negative zero is omitted.
-/

namespace Authorization.Foundation

/-! ### Slices -/

/-- A Go slice: nil, or its elements and what its array holds behind them. -/
inductive Slice (α : Type)
  | nil
  | of (elems spare : List α)
deriving DecidableEq

namespace Slice

variable {α β : Type}

def toList : Slice α → List α
  | .nil => []
  | .of elems _ => elems

/-- The elements of the array. -/
def cells : Slice α → List α
  | .nil => []
  | .of elems spare => elems ++ spare

/-- The elements changed, in an array of their own. -/
def map (f : α → β) : Slice α → Slice β
  | .nil => .nil
  | .of elems _ => .of (elems.map f) []

/-- A slice of these elements, nil if there are none. -/
def ofList : List α → Slice α
  | [] => .nil
  | a :: rest => .of (a :: rest) []

@[simp] theorem toList_ofList (l : List α) : (ofList l).toList = l := by
  cases l <;> rfl

@[simp] theorem toList_map (f : α → β) (s : Slice α) : (s.map f).toList = s.toList.map f := by
  cases s <;> rfl

theorem map_eq_ofList {f : α → β} {s : Slice α} (h : s.toList ≠ []) :
    s.map f = ofList (s.toList.map f) := by
  cases s with
  | nil => exact absurd rfl h
  | of elems spare =>
    cases elems with
    | nil => exact absurd rfl h
    | cons a rest => rfl

end Slice

namespace Json

/-! ### Codecs of single values -/

structure Codec (α : Type) where
  zero : α
  write : α → Option Tree
  read : Tree → α → Option α
  /-- Left out under `omitempty`. -/
  empty : α → Bool

def decodeBool (t : Tree) (current : Bool) : Option Bool :=
  match t with
  | .bool value => some value
  | .null => some current
  | _ => none

/-- How finite floats are written and read, given by their bits. -/
structure FloatText (finite : UInt64 → Bool) where
  format : UInt64 → Num
  parse : Num → Option UInt64
  parse_format : ∀ bits, finite bits = true → parse (format bits) = some bits

def negativeZero : UInt64 := 0x8000000000000000

/-- Both zeros are the positive one. -/
def unsignZero (bits : UInt64) : UInt64 := if bits = negativeZero then 0 else bits

namespace Codec

def string : Codec Bytes where
  zero := []
  write s := some (.str (quoteBody s))
  read := decodeString
  empty s := s = []

def bool : Codec Bool where
  zero := false
  write value := some (.bool value)
  read := decodeBool
  empty value := !value

def uint64 : Codec UInt64 where
  zero := 0
  write n := some (.num (.ofUint n))
  read := decodeUint
  empty n := n = 0

def int64 : Codec Int64 where
  zero := 0
  write n := some (.num (.ofInt n))
  read := decodeInt
  empty n := n = 0

/-- An `int` of 64 bits; a number out of their range has no text. -/
def int : Codec Int where
  zero := 0
  write n := if (Int64.ofInt n).toInt = n then some (.num (.ofInt (.ofInt n))) else none
  read t current := (decodeInt t (.ofInt current)).map Int64.toInt
  empty n := n = 0

/-- A `float64`; infinities and `NaN` cannot be written. -/
def float64 {finite : UInt64 → Bool} (floats : FloatText finite) : Codec UInt64 where
  zero := 0
  write bits := if finite bits then some (.num (floats.format bits)) else none
  read t current :=
    match t with
    | .num text => floats.parse text
    | .null => some current
    | _ => none
  empty bits := unsignZero bits = 0

/-! ### Codecs of pointers, slices and structs -/

variable {α σ : Type}

/-- A pointer; a value is read into its target if it has one. -/
def pointer (c : Codec α) : Codec (Option α) where
  zero := none
  write
    | none => some .null
    | some a => c.write a
  read t current :=
    match t with
    | .null => some none
    | t => (c.read t (current.getD c.zero)).map some
  empty a := a.isNone

/-- The elements of an array, each into the cell at its place. -/
def readElements (c : Codec α) : List Tree → List α → Option (List α)
  | [], _ => some []
  | t :: rest, cells =>
    (c.read t (cells.headD c.zero)).bind fun a =>
    (readElements c rest cells.tail).map fun elems => a :: elems

/-- A slice; an empty array is read into a new one. -/
def slice (c : Codec α) : Codec (Slice α) where
  zero := .nil
  write
    | .nil => some .null
    | .of elems _ => (elems.mapM c.write).map array
  read t current :=
    match t with
    | .null => some .nil
    | t => t.elements?.bind fun elements =>
        (readElements c elements current.cells).map fun elems =>
          .of elems (if elements = [] then [] else current.cells.drop elements.length)
  empty s := s.toList.isEmpty

end Codec

/-- A field of a struct: what is written of it, nothing if it is left out, and how
its member is read. -/
structure StructField (σ : Type) where
  name : Bytes
  write : σ → Option (List Tree)
  read : Tree → σ → Option σ

section Fields

variable {α σ : Type}

def field (name : Bytes) (c : Codec α) (get : σ → α) (set : α → σ → σ) : StructField σ where
  name := name
  write s := (c.write (get s)).map fun t => [t]
  read t s := (c.read t (get s)).map fun a => set a s

/-- A field under `omitempty`. -/
def omitempty (name : Bytes) (c : Codec α) (get : σ → α) (set : α → σ → σ) : StructField σ where
  name := name
  write s := if c.empty (get s) then some [] else (c.write (get s)).map fun t => [t]
  read t s := (c.read t (get s)).map fun a => set a s

def writeFields (s : σ) : List (StructField σ) → Option (List (StructField σ × Tree))
  | [] => some []
  | f :: rest =>
    (f.write s).bind fun trees =>
    (writeFields s rest).map fun members => trees.map (fun t => (f, t)) ++ members

/-- A struct, which `omitempty` never leaves out. -/
def Codec.struct (zero : σ) (fields : List (StructField σ)) : Codec σ where
  zero := zero
  write s := (writeFields s fields).map (encodeStruct StructField.name)
  read := decodeStruct (fields.map fun f => (f.name, f)) StructField.read
  empty _ := false

/-- A type of which nothing is written or read. -/
def Codec.never (zero : α) : Codec α where
  zero := zero
  write _ := none
  read _ _ := none
  empty _ := false

end Fields

/-! ### Reading single values back -/

namespace Codec

variable {α σ : Type}

/-- What is written of `a` is read back as `b`, wherever it stands. -/
def Reads (c : Codec α) (a b : α) : Prop :=
  ∀ t, c.write a = some t → ∀ n, c.read (t.indent n) c.zero = some b

/-- The same under `omitempty`, where `a` is possibly not written at all. -/
def ReadsOmitted (c : Codec α) (a b : α) : Prop :=
  (c.empty a = true ∧ b = c.zero) ∨ (c.empty a = false ∧ c.Reads a b)

theorem Reads.omitted {c : Codec α} {a b : α} (h : c.Reads a b)
    (hempty : c.empty a = true → b = c.zero) : c.ReadsOmitted a b := by
  cases he : c.empty a with
  | true => exact Or.inl ⟨he, hempty he⟩
  | false => exact Or.inr ⟨he, h⟩

theorem reads_string {s : Bytes} (h : Utf8.valid s = true) : string.Reads s s := by
  intro t ht n
  cases ht
  exact decodeString_quoteBody h n []

theorem reads_bool (value : Bool) : bool.Reads value value := by
  intro t ht n
  cases ht
  rfl

theorem reads_uint64 (n : UInt64) : uint64.Reads n n := by
  intro t ht level
  cases ht
  exact decodeUint_ofUint n level 0

theorem reads_int64 (n : Int64) : int64.Reads n n := by
  intro t ht level
  cases ht
  exact decodeInt_ofInt n level 0

theorem reads_int (n : Int) : int.Reads n n := by
  intro t ht level
  simp only [int] at ht ⊢
  split at ht
  · rename_i hrange
    cases ht
    rw [decodeInt_ofInt, Option.map_some, hrange]
  · cases ht

theorem omitted_string {s : Bytes} (h : Utf8.valid s = true) : string.ReadsOmitted s s :=
  (reads_string h).omitted fun he => of_decide_eq_true he

theorem omitted_bool (value : Bool) : bool.ReadsOmitted value value :=
  (reads_bool value).omitted fun he => by simpa [bool] using he

theorem omitted_uint64 (n : UInt64) : uint64.ReadsOmitted n n :=
  (reads_uint64 n).omitted fun he => of_decide_eq_true he

theorem omitted_int64 (n : Int64) : int64.ReadsOmitted n n :=
  (reads_int64 n).omitted fun he => of_decide_eq_true he

theorem omitted_int (n : Int) : int.ReadsOmitted n n :=
  (reads_int n).omitted fun he => of_decide_eq_true he

/-- **A float under `omitempty` comes back up to the sign of zero.** -/
theorem omitted_float64 {finite : UInt64 → Bool} (floats : FloatText finite) (bits : UInt64) :
    (float64 floats).ReadsOmitted bits (unsignZero bits) := by
  cases hempty : (float64 floats).empty bits with
  | true => exact Or.inl ⟨hempty, of_decide_eq_true hempty⟩
  | false =>
    refine Or.inr ⟨hempty, ?_⟩
    intro t ht n
    have hsame : unsignZero bits = bits := by
      have hne : unsignZero bits ≠ 0 := of_decide_eq_false hempty
      unfold unsignZero at hne ⊢
      split at hne
      · exact absurd rfl hne
      · rename_i hsign
        rw [if_neg hsign]
    simp only [float64] at ht ⊢
    split at ht
    · rename_i hfinite
      cases ht
      rw [hsame]
      exact floats.parse_format bits hfinite
    · cases ht

/-! ### Reading pointers and slices back -/

def NeverNull (c : Codec α) : Prop := ∀ a t, c.write a = some t → t ≠ .null

theorem indent_ne_null {t : Tree} (h : t ≠ .null) (n : Nat) : t.indent n ≠ .null := by
  cases t with
  | null => exact absurd rfl h
  | _ => intro hnull; cases hnull

theorem read_pointer {c : Codec α} {t : Tree} (h : t ≠ .null) (current : Option α) :
    (pointer c).read t current = (c.read t (current.getD c.zero)).map some := by
  cases t with
  | null => exact absurd rfl h
  | _ => rfl

theorem omitted_pointer_none (c : Codec α) : (pointer c).ReadsOmitted none none :=
  Or.inl ⟨rfl, rfl⟩

theorem omitted_pointer_some {c : Codec α} (hnull : c.NeverNull) {a b : α} (h : c.Reads a b) :
    (pointer c).ReadsOmitted (some a) (some b) := by
  refine Or.inr ⟨rfl, ?_⟩
  intro t ht n
  have hread : c.read (t.indent n) c.zero = some b := h t ht n
  rw [read_pointer (indent_ne_null (hnull a t ht) n)]
  show (c.read (t.indent n) c.zero).map some = _
  rw [hread, Option.map_some]

/-- **Elements are read back one by one** into an array without cells. -/
theorem readElements_indent {c : Codec α} {f : α → α} {n : Nat} :
    ∀ {elems : List α} {trees : List Tree}, elems.mapM c.write = some trees →
      (∀ a ∈ elems, c.Reads a (f a)) →
      readElements c (trees.map (Tree.indent n)) [] = some (elems.map f) := by
  intro elems
  induction elems with
  | nil => intro trees h _; cases h; rfl
  | cons a elems ih =>
    intro trees h hreads
    rw [List.mapM_cons] at h
    obtain ⟨t, ht, h⟩ := Option.bind_eq_some_iff.mp h
    obtain ⟨rest, hrest, h⟩ := Option.bind_eq_some_iff.mp h
    cases h
    have hfirst : c.read (t.indent n) c.zero = some (f a) := hreads a List.mem_cons_self t ht n
    have hothers := ih hrest fun b hb => hreads b (List.mem_cons_of_mem _ hb)
    rw [List.map_cons, readElements, List.headD_nil, hfirst, Option.bind_some, List.tail_nil,
      hothers]
    rfl

theorem read_slice {c : Codec α} {t : Tree} {elements : List Tree}
    (h : t.elements? = some elements) (current : Slice α) :
    (slice c).read t current = (readElements c elements current.cells).map fun elems =>
      .of elems (if elements = [] then [] else current.cells.drop elements.length) := by
  cases t with
  | empty kind inner => show Option.bind _ _ = _; rw [h, Option.bind_some]
  | node kind items => show Option.bind _ _ = _; rw [h, Option.bind_some]
  | _ => cases h

theorem reads_slice {c : Codec α} {f : α → α} {s : Slice α}
    (h : ∀ a ∈ s.toList, c.Reads a (f a)) : (slice c).Reads s (s.map f) := by
  intro t ht n
  cases s with
  | nil =>
    cases ht
    rfl
  | of elems spare =>
    obtain ⟨trees, htrees, rfl⟩ := Option.map_eq_some_iff.mp ht
    rw [read_slice (elements?_indent_array trees n)]
    show (readElements c (trees.map (Tree.indent (n + 1))) []).map _ = _
    rw [readElements_indent htrees h]
    show some (Slice.of _ _) = some (Slice.of _ _)
    simp [slice, Slice.cells]

theorem omitted_slice {c : Codec α} {f : α → α} {s : Slice α}
    (h : ∀ a ∈ s.toList, c.Reads a (f a)) :
    (slice c).ReadsOmitted s (.ofList (s.toList.map f)) := by
  by_cases hnil : s.toList = []
  · refine Or.inl ⟨?_, ?_⟩
    · show s.toList.isEmpty = true
      rw [hnil]
      rfl
    · rw [hnil]
      rfl
  · refine Or.inr ⟨?_, ?_⟩
    · show s.toList.isEmpty = false
      rw [List.isEmpty_eq_false_iff]
      exact hnil
    · rw [← Slice.map_eq_ofList hnil]
      exact reads_slice h

theorem omitted_slice_self {c : Codec α} {s : Slice α} (h : ∀ a ∈ s.toList, c.Reads a a) :
    (slice c).ReadsOmitted s (.ofList s.toList) := by
  have hmap := omitted_slice (f := id) h
  rwa [List.map_id] at hmap

end Codec

/-! ### Reading structs back -/

section Structs

variable {α σ : Type}

/-- The members of a field take a struct being read from `before` to `after`. -/
def StructField.Reads (f : StructField σ) (s before after : σ) : Prop :=
  ∀ trees, f.write s = some trees → ∀ n,
    decodeFields StructField.read n (trees.map fun t => (f, t)) before = some after

theorem decodeFields_single (f : StructField σ) (t : Tree) (n : Nat) (before : σ) :
    decodeFields StructField.read n [(f, t)] before = f.read (t.indent n) before := by
  show (f.read (t.indent n) before).bind some = _
  rw [Option.bind_fun_some]

theorem reads_field {name : Bytes} {c : Codec α} {get : σ → α} {set : α → σ → σ}
    {s before : σ} {b : α} (h : c.Reads (get s) b) (hzero : get before = c.zero) :
    (field name c get set).Reads s before (set b before) := by
  intro trees htrees n
  obtain ⟨t, ht, rfl⟩ := Option.map_eq_some_iff.mp htrees
  have hread : c.read (t.indent n) c.zero = some b := h t ht n
  rw [List.map_cons, List.map_nil, decodeFields_single]
  show (c.read (t.indent n) (get before)).map _ = _
  rw [hzero, hread, Option.map_some]

theorem reads_omitempty {name : Bytes} {c : Codec α} {get : σ → α} {set : α → σ → σ}
    {s before : σ} {b : α} (h : c.ReadsOmitted (get s) b) (hzero : get before = c.zero)
    (hset : set (get before) before = before) :
    (omitempty name c get set).Reads s before (set b before) := by
  intro trees htrees n
  rcases h with ⟨hempty, rfl⟩ | ⟨hempty, h⟩
  · simp only [omitempty, hempty, if_true] at htrees
    cases htrees
    rw [← hzero, hset]
    rfl
  · simp only [omitempty, hempty] at htrees
    obtain ⟨t, ht, rfl⟩ := Option.map_eq_some_iff.mp htrees
    have hread : c.read (t.indent n) c.zero = some b := h t ht n
    rw [List.map_cons, List.map_nil, decodeFields_single]
    show (c.read (t.indent n) (get before)).map _ = _
    rw [hzero, hread, Option.map_some]

/-- The members of all fields, one after the other. -/
inductive ReadsFields (s : σ) : List (StructField σ) → σ → σ → Prop
  | nil (current : σ) : ReadsFields s [] current current
  | cons {f : StructField σ} {rest : List (StructField σ)} {before middle after : σ} :
      f.Reads s before middle → ReadsFields s rest middle after →
      ReadsFields s (f :: rest) before after

theorem decodeFields_writeFields {s before after : σ} {fields : List (StructField σ)}
    (h : ReadsFields s fields before after) : ∀ {members : List (StructField σ × Tree)},
      writeFields s fields = some members → ∀ n,
        decodeFields StructField.read n members before = some after := by
  induction h with
  | nil current => intro members hw n; cases hw; rfl
  | cons hfield _ ih =>
    intro members hw n
    obtain ⟨trees, htrees, hw⟩ := Option.bind_eq_some_iff.mp hw
    obtain ⟨rest, hrest, rfl⟩ := Option.map_eq_some_iff.mp hw
    rw [decodeFields_append, hfield trees htrees n, Option.bind_some]
    exact ih hrest n

theorem mem_of_writeFields {s : σ} : ∀ {fields : List (StructField σ)}
    {members : List (StructField σ × Tree)}, writeFields s fields = some members →
      ∀ member ∈ members, member.1 ∈ fields := by
  intro fields
  induction fields with
  | nil => intro members hw member hm; cases hw; cases hm
  | cons f rest ih =>
    intro members hw member hm
    obtain ⟨trees, -, hw⟩ := Option.bind_eq_some_iff.mp hw
    obtain ⟨others, hothers, rfl⟩ := Option.map_eq_some_iff.mp hw
    rcases List.mem_append.mp hm with hm | hm
    · obtain ⟨t, -, rfl⟩ := List.mem_map.mp hm
      exact List.mem_cons_self
    · exact List.mem_cons_of_mem _ (ih hothers member hm)

/-- A field is found under its name if no other field has it. -/
theorem fieldOf_of_nodup : ∀ {fields : List (StructField σ)}, (fields.map StructField.name).Nodup →
    ∀ f ∈ fields, fieldOf (fields.map fun f => (f.name, f)) f.name = some f := by
  intro fields hnodup f hf
  have hfind : (fields.map fun f => (f.name, f)).find? (fun entry => entry.1 = f.name)
      = some (f.name, f) := by
    induction fields with
    | nil => cases hf
    | cons g rest ih =>
      obtain ⟨hg, hrest⟩ := List.nodup_cons.mp hnodup
      rw [List.map_cons]
      rcases List.mem_cons.mp hf with rfl | hf
      · rw [List.find?_cons_of_pos (by simp)]
      · have hne : g.name ≠ f.name := fun he => hg (he ▸ List.mem_map_of_mem hf)
        rw [List.find?_cons_of_neg (by simpa using hne)]
        exact ih hrest hf
  rw [fieldOf, hfind]

/-- The names of the fields are distinct and valid. -/
def wellNamed (fields : List (StructField σ)) : Bool :=
  (fields.map StructField.name).Nodup && (fields.map StructField.name).all Utf8.valid

/-- **A struct is read back from the object of its fields.** -/
theorem Codec.reads_struct {zero s after : σ} {fields : List (StructField σ)}
    (hnames : wellNamed fields = true) (h : ReadsFields s fields zero after) :
    (Codec.struct zero fields).Reads s after := by
  intro t ht n
  obtain ⟨members, hmembers, rfl⟩ := Option.map_eq_some_iff.mp ht
  have hmem := mem_of_writeFields hmembers
  rw [wellNamed, Bool.and_eq_true, decide_eq_true_eq, List.all_eq_true] at hnames
  obtain ⟨hnodup, hvalid⟩ := hnames
  show decodeStruct _ StructField.read _ zero = _
  rw [decodeStruct_encodeStruct_of_mem
    (fun member hm => fieldOf_of_nodup hnodup member.1 (hmem member hm))
    (fun member hm => hvalid member.1.name (List.mem_map_of_mem (hmem member hm)))]
  exact decodeFields_writeFields h hmembers (n + 1)

theorem Codec.neverNull_struct (zero : σ) (fields : List (StructField σ)) :
    (Codec.struct zero fields).NeverNull := by
  intro s t ht
  obtain ⟨members, -, rfl⟩ := Option.map_eq_some_iff.mp ht
  cases members with
  | nil => intro hnull; cases hnull
  | cons member rest => intro hnull; cases hnull

theorem Codec.omitted_struct {zero s after : σ} {fields : List (StructField σ)}
    (h : (Codec.struct zero fields).Reads s after) :
    (Codec.struct zero fields).ReadsOmitted s after :=
  h.omitted fun he => Bool.noConfusion he

theorem Codec.reads_never (zero a b : α) : (Codec.never zero).Reads a b := by
  intro t ht
  cases ht

end Structs

/-! ### Texts -/

namespace Codec

variable {α : Type}

/-- `json.MarshalIndent`, two spaces a level. -/
def marshalIndent (c : Codec α) (a : α) : Option Bytes :=
  (c.write a).bind fun t => if t.depth ≤ maxDepth then some (t.indent 0).print else none

/-- `Decode` of a decoder that refuses unknown fields: the first value of a text,
and what stands behind it. -/
def decode (c : Codec α) (text : Bytes) : Option (α × Bytes) :=
  (parseValue maxDepth (skipSpace text)).bind fun parsed =>
    (c.read parsed.1 c.zero).map fun a => (a, parsed.2)

/-- **What was marshalled is decoded.** -/
theorem decode_marshalIndent {c : Codec α} {a b : α} {text : Bytes} (h : c.Reads a b)
    (htext : c.marshalIndent a = some text) : c.decode text = some (b, []) := by
  obtain ⟨t, ht, htext⟩ := Option.bind_eq_some_iff.mp htext
  split at htext
  · rename_i hdepth
    cases htext
    have hskip : skipSpace ((t.indent 0).print ++ []) = (t.indent 0).print ++ [] :=
      skipSpace_append (w := .nil) (notSpace_print _ _)
    have hparse : parseValue maxDepth ((t.indent 0).print ++ []) = some (t.indent 0, []) :=
      parseValue_print _ (by rw [Tree.depth_indent]; exact hdepth) (by intro b hb; cases hb)
    rw [List.append_nil] at hskip hparse
    rw [decode, hskip, hparse, Option.bind_some]
    show (c.read (t.indent 0) c.zero).map _ = _
    rw [h t ht 0, Option.map_some]
  · cases htext

end Codec

end Json

end Authorization.Foundation
