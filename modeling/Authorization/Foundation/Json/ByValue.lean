import Authorization.Foundation.Json.Codec

/-!
# Reading by value

Texts of one JSON value differ in white space and in the escapes of their strings.
Two trees of one value have the same shape (`Tree.Alike`), and a codec reads the same
from both (`Codec.ByValue`): there is one rule for each kind of type.  So a whole text
is read by its value alone (`Codec.readText_congr`).
-/

namespace Authorization.Foundation.Json

/-! ### Trees of one value -/

/-- Trees that differ in white space and in the spelling of strings. -/
inductive Tree.Alike : Tree → Tree → Prop
  | null : Tree.Alike .null .null
  | bool (value : Bool) : Tree.Alike (.bool value) (.bool value)
  | num (text : Num) : Tree.Alike (.num text) (.num text)
  | str {body body' : Body} (same : unquote body.bytes = unquote body'.bytes) :
      Tree.Alike (.str body) (.str body')
  | empty (kind : Kind) (inner inner' : Ws) : Tree.Alike (.empty kind inner) (.empty kind inner')
  | node {kind : Kind} {items items' : Items kind} (same : items.entries = items'.entries) :
      Tree.Alike (.node kind items) (.node kind items')

theorem Num.eq_of_bytes {text text' : Num} (h : text.bytes = text'.bytes) : text = text' := by
  cases text
  cases text'
  cases h
  rfl

theorem Items.entries_eq : ∀ {kind : Kind} (items : Items kind),
    items.entries = items.toList.map fun item => (item.1.key, item.2.value)
  | _, .last _ _ _ => rfl
  | _, .cons _ _ _ rest => by
    rw [Items.entries, Items.entries_eq rest]
    rfl

theorem Items.entries_ne_nil {kind : Kind} (items : Items kind) : items.entries ≠ [] := by
  cases items with
  | last => exact List.cons_ne_nil _ _
  | cons => exact List.cons_ne_nil _ _

theorem Tree.alike_of_value_eq {t t' : Tree} (h : t.value = t'.value) : Tree.Alike t t' := by
  cases t with
  | null => cases t' <;> first | exact .null | cases h
  | bool value =>
    cases t' with
    | bool value' => cases h; exact .bool value
    | _ => cases h
  | num text =>
    cases t' with
    | num text' =>
      have hbytes : text.bytes = text'.bytes := by injection h
      rw [Num.eq_of_bytes hbytes]
      exact .num text'
    | _ => cases h
  | str body =>
    cases t' with
    | str body' => exact .str (by injection h)
    | _ => cases h
  | empty kind inner =>
    cases t' with
    | empty kind' inner' => cases h; exact .empty kind inner inner'
    | node kind' items' =>
      injection h with _ hentries
      exact absurd hentries.symm items'.entries_ne_nil
    | _ => cases h
  | node kind items =>
    cases t' with
    | empty kind' inner' =>
      injection h with _ hentries
      exact absurd hentries items.entries_ne_nil
    | node kind' items' =>
      injection h with hkind hentries
      subst hkind
      exact .node hentries
    | _ => cases h

/-- The items of containers with the same entries. -/
theorem Items.forall₂_toList {kind : Kind} {items items' : Items kind}
    (h : items.entries = items'.entries) :
    List.Forall₂ (fun item item' => item.1.key = item'.1.key ∧ item.2.value = item'.2.value)
      items.toList items'.toList := by
  rw [Items.entries_eq, Items.entries_eq, ← List.forall₂_eq_eq_eq, List.forall₂_map_left_iff,
    List.forall₂_map_right_iff] at h
  exact h.imp fun item item' heq => Prod.mk.inj heq

theorem Label.name_eq_of_key {label label' : Label .obj} (h : label.key = label'.key) :
    label.name = label'.name := by
  cases label
  cases label'
  exact Option.some.inj h

/-! ### Codecs -/

namespace Codec

variable {α σ : Type}

/-- The reader looks at the value only. -/
def ByValue (c : Codec α) : Prop :=
  ∀ t t' : Tree, t.value = t'.value → ∀ current, c.read t current = c.read t' current

@[simp] theorem byValue_string : string.ByValue := by
  intro t t' h current
  cases Tree.alike_of_value_eq h with
  | str same => exact congrArg some same
  | _ => rfl

@[simp] theorem byValue_bool : bool.ByValue := by
  intro t t' h current
  cases Tree.alike_of_value_eq h <;> rfl

@[simp] theorem byValue_uint64 : uint64.ByValue := by
  intro t t' h current
  cases Tree.alike_of_value_eq h <;> rfl

@[simp] theorem byValue_int64 : int64.ByValue := by
  intro t t' h current
  cases Tree.alike_of_value_eq h <;> rfl

@[simp] theorem byValue_int : int.ByValue := by
  intro t t' h current
  cases Tree.alike_of_value_eq h <;> rfl

@[simp] theorem byValue_float64 {finite : UInt64 → Bool} (floats : FloatText finite) :
    (float64 floats).ByValue := by
  intro t t' h current
  cases Tree.alike_of_value_eq h <;> rfl

@[simp] theorem byValue_never (zero : α) : (never zero).ByValue := by
  intro t t' _ current
  rfl

@[simp] theorem byValue_pointer {c : Codec α} (h : c.ByValue) : (pointer c).ByValue := by
  intro t t' hvalue current
  have hread := h _ _ hvalue (current.getD c.zero)
  cases Tree.alike_of_value_eq hvalue with
  | null => rfl
  | _ => exact congrArg (Option.map some) hread

theorem readElements_congr {c : Codec α} (h : c.ByValue) {elements elements' : List Tree}
    (hsame : List.Forall₂ (fun t t' : Tree => t.value = t'.value) elements elements') :
    ∀ cells, readElements c elements cells = readElements c elements' cells := by
  induction hsame with
  | nil => exact fun _ => rfl
  | cons hvalue _ ih =>
    intro cells
    rw [readElements, readElements, h _ _ hvalue]
    simp only [ih]

/-- What `slice` reads from an array. -/
theorem read_slice_node {c : Codec α} (items : Items .arr) (current : Slice α) :
    (slice c).read (.node .arr items) current
      = (readElements c (items.toList.map Prod.snd) current.cells).map fun elems =>
          .of elems (if items.toList.map Prod.snd = [] then []
            else current.cells.drop (items.toList.map Prod.snd).length) := rfl

@[simp] theorem byValue_slice {c : Codec α} (h : c.ByValue) : (slice c).ByValue := by
  intro t t' hvalue current
  cases Tree.alike_of_value_eq hvalue with
  | @node kind items items' same =>
    cases kind with
    | obj => rfl
    | arr =>
      have hitems := Items.forall₂_toList same
      have hlength : (items.toList.map Prod.snd).length = (items'.toList.map Prod.snd).length := by
        rw [List.length_map, List.length_map, hitems.length_eq]
      have hnil : items.toList.map Prod.snd = [] ↔ items'.toList.map Prod.snd = [] := by
        rw [← List.length_eq_zero_iff, hlength, List.length_eq_zero_iff]
      have helements : List.Forall₂ (fun t t' : Tree => t.value = t'.value)
          (items.toList.map Prod.snd) (items'.toList.map Prod.snd) := by
        rw [List.forall₂_map_left_iff, List.forall₂_map_right_iff]
        exact hitems.imp fun _ _ hitem => hitem.2
      rw [read_slice_node, read_slice_node, readElements_congr h helements, hlength]
      simp only [hnil]
  | empty kind => cases kind <;> rfl
  | _ => rfl

end Codec

/-! ### Structs -/

section Fields

variable {α σ : Type}

/-- The reader of a field looks at the value only. -/
def StructField.ByValue (f : StructField σ) : Prop :=
  ∀ t t' : Tree, t.value = t'.value → ∀ s, f.read t s = f.read t' s

@[simp] theorem byValue_field {name : Bytes} {c : Codec α} {get : σ → α} {set : α → σ → σ}
    (h : c.ByValue) : (field name c get set).ByValue := by
  intro t t' hvalue s
  show (c.read t (get s)).map _ = (c.read t' (get s)).map _
  rw [h _ _ hvalue]

@[simp] theorem byValue_omitempty {name : Bytes} {c : Codec α} {get : σ → α} {set : α → σ → σ}
    (h : c.ByValue) : (omitempty name c get set).ByValue := by
  intro t t' hvalue s
  show (c.read t (get s)).map _ = (c.read t' (get s)).map _
  rw [h _ _ hvalue]

theorem exists_of_fieldOf {φ : Type} {fields : List (Bytes × φ)} {key : Bytes} {f : φ}
    (h : fieldOf fields key = some f) : ∃ name, (name, f) ∈ fields := by
  unfold fieldOf at h
  split at h
  · rename_i found hfound
    cases h
    exact ⟨found.1, List.mem_of_find?_eq_some hfound⟩
  · obtain ⟨found, hfound, rfl⟩ := Option.map_eq_some_iff.mp h
    exact ⟨found.1, List.mem_of_find?_eq_some hfound⟩

theorem decodeMembers_congr {fields : List (StructField σ)} (h : ∀ f ∈ fields, f.ByValue)
    {members members' : List (Bytes × Tree)}
    (hsame : List.Forall₂ (fun m m' => m.1 = m'.1 ∧ m.2.value = m'.2.value) members members') :
    ∀ current,
      decodeMembers (fields.map fun f => (f.name, f)) StructField.read members current
        = decodeMembers (fields.map fun f => (f.name, f)) StructField.read members' current := by
  induction hsame with
  | nil => exact fun _ => rfl
  | @cons m m' rest rest' hm _ ih =>
    intro current
    rw [decodeMembers, decodeMembers, hm.1]
    cases hfield : fieldOf (fields.map fun f => (f.name, f)) m'.1 with
    | none => rfl
    | some f =>
      obtain ⟨name, hmem⟩ := exists_of_fieldOf hfield
      obtain ⟨f', hf', heq⟩ := List.mem_map.mp hmem
      cases heq
      rw [Option.bind_some, Option.bind_some, h _ hf' _ _ hm.2]
      simp only [ih]

/-- **A struct is read by value** if its fields are. -/
@[simp] theorem Codec.byValue_struct {zero : σ} {fields : List (StructField σ)}
    (h : ∀ f ∈ fields, f.ByValue) : (Codec.struct zero fields).ByValue := by
  intro t t' hvalue current
  cases Tree.alike_of_value_eq hvalue with
  | @node kind items items' same =>
    cases kind with
    | arr => rfl
    | obj =>
      refine decodeMembers_congr h ?_ current
      rw [List.forall₂_map_left_iff, List.forall₂_map_right_iff]
      exact (Items.forall₂_toList same).imp fun _ _ hitem =>
        ⟨Label.name_eq_of_key hitem.1, hitem.2⟩
  | empty kind => cases kind <;> rfl
  | _ => rfl

end Fields

/-! ### Whole texts -/

namespace Codec

variable {α : Type}

/-- A text of one value with white space around it, read into the zero value. -/
def readText (c : Codec α) (text : Bytes) : Option α :=
  (parseText text).bind fun t => c.read t c.zero

/-- `Decode` and nothing but white space behind the value. -/
theorem readText_eq_some {c : Codec α} {text : Bytes} {a : α} :
    c.readText text = some a ↔
      ∃ rest, c.decode text = some (a, rest) ∧ rest.all isSpace = true := by
  rw [readText, parseText, decode]
  cases parseValue maxDepth (skipSpace text) with
  | none =>
    refine ⟨fun h => absurd h (Option.some_ne_none a).symm, ?_⟩
    rintro ⟨rest, h, -⟩
    exact absurd h (Option.some_ne_none _).symm
  | some parsed =>
    obtain ⟨t, rest⟩ := parsed
    dsimp only
    rw [Option.bind_some]
    constructor
    · intro h
      split at h
      · rename_i hrest
        rw [Option.bind_some] at h
        exact ⟨rest, by rw [h]; rfl, hrest⟩
      · exact absurd h (Option.some_ne_none a).symm
    · rintro ⟨rest', hread, hrest⟩
      obtain ⟨b, hb, heq⟩ := Option.map_eq_some_iff.mp hread
      cases heq
      rw [if_pos hrest, Option.bind_some]
      exact hb

/-- **Texts of one value are read alike.** -/
theorem readText_congr {c : Codec α} (h : c.ByValue) {text text' : Bytes} {t t' : Tree}
    (ht : parseText text = some t) (ht' : parseText text' = some t') (hvalue : t.value = t'.value) :
    c.readText text = c.readText text' := by
  rw [readText, readText, ht, ht', Option.bind_some, Option.bind_some, h _ _ hvalue]

end Codec

end Authorization.Foundation.Json
