import Authorization.Foundation.Json.Layout
import Authorization.Foundation.Rfc3339
import Authorization.Foundation.SortedMap

/-!
# Go values as JSON texts

How `encoding/json` writes and reads the values of a program: numbers, strings,
times, maps of strings, and structs as objects.  What a value writes by itself
(`embed`: a `Marshaler`, a `RawMessage`) is parsed, escaped and put in place.

A struct is read member by member into the value it already has
(`decodeMembers`).  A member is matched by its exact name, then by its name with
letter case ignored, and an unknown one is an error.  `null` leaves a string or a
number as it is.

Each writer comes with the theorem that its reader gets the value back, also
after indentation.
-/

namespace Authorization.Foundation.Json

/-! ### Numbers -/

theorem numAccepts_int : ∀ {l : Bytes}, (∀ b ∈ l, isDigit b = true) → numAccepts .int l = true := by
  intro l
  induction l with
  | nil => intro _; rfl
  | cons b l ih =>
    intro h
    have hb : numNext .int b = some .int := by
      simp [numNext, h b List.mem_cons_self]
    rw [numAccepts, hb]
    exact ih fun c hc => h c (List.mem_cons_of_mem _ hc)

theorem isDigit19_digit {n : Nat} (h : 0 < n) (h' : n < 10) : isDigit19 (digit n) = true := by
  rw [isDigit19, Bool.and_eq_true, decide_eq_true_eq, decide_eq_true_eq, UInt8.le_iff_toNat_le,
    UInt8.le_iff_toNat_le, toNat_digit]
  simp only [UInt8.reduceToNat]
  omega

/-- A positive number does not start with a zero. -/
theorem exists_padded_digitCountAux : ∀ {fuel n : Nat}, 0 < n → n < 10 ^ (fuel + 1) →
    ∃ b rest, padded (digitCountAux fuel n) n = b :: rest ∧ isDigit19 b = true ∧
      ∀ c ∈ rest, isDigit c = true := by
  intro fuel
  induction fuel with
  | zero => intro n h h'; exact ⟨digit n, [], rfl, isDigit19_digit h h', by simp⟩
  | succ fuel ih =>
    intro n h h'
    rw [digitCountAux]
    split
    · rename_i hlt
      exact ⟨digit n, [], rfl, isDigit19_digit h hlt, by simp⟩
    · have hdiv : n / 10 < 10 ^ (fuel + 1) := by
        rw [Nat.pow_succ] at h'
        omega
      obtain ⟨b, rest, hb, h19, hrest⟩ := ih (n := n / 10) (by omega) hdiv
      refine ⟨b, rest ++ [digit n], by rw [padded, hb]; rfl, h19, ?_⟩
      intro c hc
      rcases List.mem_append.mp hc with hc | hc
      · exact hrest c hc
      · rw [List.mem_singleton.mp hc]
        exact isDigit_digit n

/-- A number is accepted at the start and after a minus sign. -/
theorem numAccepts_formatNat {st : NumState} (hst : st = .start ∨ st = .minus) (n : Nat) :
    numAccepts st (formatNat n) = true := by
  rcases Nat.eq_zero_or_pos n with rfl | hpos
  · rcases hst with rfl | rfl <;> decide
  · obtain ⟨b, rest, hb, h19, hrest⟩ := exists_padded_digitCountAux hpos (lt_pow_log2 n)
    have hne : b ≠ 0x2D ∧ b ≠ 0x30 := by
      constructor <;> (rintro rfl; exact absurd h19 (by decide))
    have hnext : numNext st b = some .int := by
      rcases hst with rfl | rfl <;> simp [numNext, hne, h19]
    rw [formatNat, digitCount, hb, numAccepts, hnext]
    exact numAccepts_int hrest

def Num.ofUint (n : UInt64) : Num := ⟨formatUint n, numAccepts_formatNat (Or.inl rfl) _⟩

def Num.ofInt (n : Int64) : Num where
  bytes := formatInt n
  ok := by
    rw [formatInt]
    split
    · exact numAccepts_formatNat (Or.inr rfl) _
    · exact numAccepts_formatNat (Or.inl rfl) _

/-! ### Embedded texts -/

/-- What is made of the text a value writes by itself. -/
def embed (out : Bytes) : Option Tree := (parseText out).map Tree.escape

/-- Bytes that stand for themselves in a string. -/
def isPlain (b : UInt8) : Bool :=
  0x20 ≤ b && b < 0x80 && b != 0x22 && b != 0x5C && b != 0x3C && b != 0x3E && b != 0x26

theorem strRun_plain : ∀ {s : Bytes}, (∀ b ∈ s, isPlain b = true) →
    strRun .plain s = some .plain := by
  intro s
  induction s with
  | nil => intro _; rfl
  | cons b s ih =>
    intro h
    have hb := h b List.mem_cons_self
    simp only [isPlain, Bool.and_eq_true, decide_eq_true_eq, bne_iff_ne, ne_eq] at hb
    have hnext : strNext .plain b = some .plain := by
      simp [strNext, hb.1.1.1.1.1.1, hb.1.1.1.1.2, hb.1.1.1.2]
    rw [strRun, hnext, Option.bind_some]
    exact ih fun c hc => h c (List.mem_cons_of_mem _ hc)

theorem escape_plain {s : Bytes} (h : ∀ b ∈ s, isPlain b = true) : escape s = s := by
  have hspecial : ∀ b ∈ s, b ∉ specialHeads := by
    intro b hb hmem
    have hplain := h b hb
    simp only [specialHeads, List.mem_cons, List.not_mem_nil, or_false] at hmem
    rcases hmem with rfl | rfl | rfl | rfl <;> exact absurd hplain (by decide)
  have happend := escape_append hspecial []
  rwa [List.append_nil, show escape [] = [] from rfl, List.append_nil] at happend

theorem unquote_plain {s : Bytes} (h : ∀ b ∈ s, isPlain b = true) : unquote s = s := by
  refine unquote_ascii fun b hb => ?_
  have hplain := h b hb
  simp only [isPlain, Bool.and_eq_true, decide_eq_true_eq, bne_iff_ne, ne_eq] at hplain
  exact ⟨hplain.1.1.1.1.1.2, hplain.1.1.1.2⟩

theorem embed_plain {s : Bytes} (h : ∀ b ∈ s, isPlain b = true) :
    embed (0x22 :: (s ++ [0x22])) = some (.str ⟨s, strRun_plain h⟩) := by
  have hparse : parseText (0x22 :: (s ++ [0x22])) = some (.str ⟨s, strRun_plain h⟩) := by
    refine parseText_eq_some.mpr ⟨Nat.zero_le _, .nil, .nil, ?_⟩
    show _ = [] ++ ((0x22 :: (s ++ [0x22])) ++ [])
    rw [List.nil_append, List.append_nil]
  rw [embed, hparse, Option.map_some]
  show some (Tree.str (Body.escape _)) = _
  simp only [Body.escape, escape_plain h]

/-- A time, in quotes. -/
def encodeTime (t : Time) : Option Tree :=
  (formatTime t).bind fun s => embed (0x22 :: (s ++ [0x22]))

theorem isPlain_of_isTimeByte {b : UInt8} (h : isTimeByte b = true) : isPlain b = true := by
  rw [isTimeByte, Bool.or_eq_true, isDigit_iff] at h
  rcases h with h | h
  · have hne : ∀ c : UInt8, (c.toNat < 0x30 ∨ 0x39 < c.toNat) → b ≠ c := by
      rintro c hc rfl
      omega
    simp only [isPlain, Bool.and_eq_true, decide_eq_true_eq, bne_iff_ne,
      UInt8.le_iff_toNat_le, UInt8.lt_iff_toNat_lt, UInt8.reduceToNat]
    exact ⟨⟨⟨⟨⟨⟨by omega, by omega⟩, hne _ (by decide)⟩, hne _ (by decide)⟩, hne _ (by decide)⟩,
      hne _ (by decide)⟩, hne _ (by decide)⟩
  · simp only [List.contains_eq_mem, List.mem_cons, List.not_mem_nil, or_false,
      decide_eq_true_eq] at h
    rcases h with rfl | rfl | rfl | rfl | rfl | rfl <;> decide

theorem encodeTime_eq_some {t : Time} {tree : Tree} (h : encodeTime t = some tree) :
    ∃ body : Body, tree = .str body ∧ formatTime t = some body.bytes := by
  obtain ⟨s, hs, he⟩ := Option.bind_eq_some_iff.mp h
  have hplain : ∀ b ∈ s, isPlain b = true :=
    fun b hb => isPlain_of_isTimeByte (isTimeByte_formatTime hs b hb)
  rw [embed_plain hplain] at he
  exact ⟨⟨s, strRun_plain hplain⟩, (Option.some.inj he).symm, hs⟩

theorem exists_encodeTime {t : Time} {s : Bytes} (h : formatTime t = some s) :
    ∃ tree, encodeTime t = some tree := by
  rw [encodeTime, h, Option.bind_some,
    embed_plain fun b hb => isPlain_of_isTimeByte (isTimeByte_formatTime h b hb)]
  exact ⟨_, rfl⟩

/-! ### Reading single values -/

def decodeString (t : Tree) (current : Bytes) : Option Bytes :=
  match t with
  | .str body => some (unquote body.bytes)
  | .null => some current
  | _ => none

def decodeUint (t : Tree) (current : UInt64) : Option UInt64 :=
  match t with
  | .num text => parseUint text.bytes
  | .null => some current
  | _ => none

def decodeInt (t : Tree) (current : Int64) : Option Int64 :=
  match t with
  | .num text => parseInt text.bytes
  | .null => some current
  | _ => none

/-- A pointer to a time; `null` makes it nil. -/
def decodeTime : Tree → Option (Option Time)
  | .str body => (parseTime (unquote body.bytes)).map some
  | .null => some none
  | _ => none

/-- A map of strings, into the map there is; `null` makes it nil, and a `null`
value is the empty string. -/
def decodeMap (t : Tree) (current : SortedMap Bytes Bytes) : Option (SortedMap Bytes Bytes) :=
  match t with
  | .null => some ∅
  | t => t.members?.bind fun members =>
      (members.mapM fun member => (decodeString member.2 []).map fun value => (member.1, value)).map
        current.insertAll

@[simp] theorem decodeString_quoteBody {s : Bytes} (h : Utf8.valid s = true) (n : Nat)
    (current : Bytes) : decodeString (Tree.indent n (.str (quoteBody s))) current = some s := by
  show some (unquote (quote s)) = some s
  rw [unquote_quote h]

@[simp] theorem decodeUint_ofUint (m : UInt64) (n : Nat) (current : UInt64) :
    decodeUint (Tree.indent n (.num (.ofUint m))) current = some m :=
  parseUint_formatUint m

@[simp] theorem decodeInt_ofInt (m : Int64) (n : Nat) (current : Int64) :
    decodeInt (Tree.indent n (.num (.ofInt m))) current = some m :=
  parseInt_formatInt m

theorem decodeTime_encodeTime {t : Time} {tree : Tree} (hwhole : t.offset % 60 = 0)
    (h : encodeTime t = some tree) (n : Nat) : decodeTime (tree.indent n) = some (some t) := by
  obtain ⟨body, rfl, hformat⟩ := encodeTime_eq_some h
  have hread : unquote body.bytes = body.bytes := unquote_plain fun b hb =>
    isPlain_of_isTimeByte (isTimeByte_formatTime hformat b hb)
  show (parseTime (unquote body.bytes)).map some = _
  rw [hread, parseTime_formatTime hwhole hformat, Option.map_some]

/-- A map is written with its keys in order. -/
def encodeMap (m : SortedMap Bytes Bytes) : Tree :=
  object (m.entries.map fun entry => (entry.1, .str (quoteBody entry.2)))

theorem mapM_eq_some_map {α β γ : Type} {f : α → Option β} {g : γ → α} {k : γ → β} :
    ∀ {l : List γ}, (∀ x ∈ l, f (g x) = some (k x)) → (l.map g).mapM f = some (l.map k) := by
  intro l
  induction l with
  | nil => intro _; rfl
  | cons x l ih =>
    intro h
    rw [List.map_cons, List.mapM_cons, h x List.mem_cons_self,
      ih fun y hy => h y (List.mem_cons_of_mem _ hy)]
    rfl

theorem exists_of_mapM_eq_some {α β : Type} {f : α → Option β} : ∀ {l : List α} {l' : List β},
    l.mapM f = some l' → ∀ x ∈ l, ∃ y, f x = some y := by
  intro l
  induction l with
  | nil => intro l' _ x hx; cases hx
  | cons a l ih =>
    intro l' h x hx
    rw [List.mapM_cons] at h
    obtain ⟨b, hb, h⟩ := Option.bind_eq_some_iff.mp h
    obtain ⟨rest, hrest, -⟩ := Option.bind_eq_some_iff.mp h
    rcases List.mem_cons.mp hx with rfl | hx
    · exact ⟨b, hb⟩
    · exact ih hrest x hx

theorem exists_of_mem_mapM {α β : Type} {f : α → Option β} : ∀ {l : List α} {l' : List β},
    l.mapM f = some l' → ∀ y ∈ l', ∃ x ∈ l, f x = some y := by
  intro l
  induction l with
  | nil => intro l' h y hy; cases h; cases hy
  | cons a l ih =>
    intro l' h y hy
    rw [List.mapM_cons] at h
    obtain ⟨b, hb, h⟩ := Option.bind_eq_some_iff.mp h
    obtain ⟨rest, hrest, h⟩ := Option.bind_eq_some_iff.mp h
    cases h
    rcases List.mem_cons.mp hy with rfl | hy
    · exact ⟨a, List.mem_cons_self, hb⟩
    · obtain ⟨x, hx, hf⟩ := ih hrest y hy
      exact ⟨x, List.mem_cons_of_mem _ hx, hf⟩

theorem exists_mapM_eq_some {α β : Type} {f : α → Option β} : ∀ {l : List α},
    (∀ x ∈ l, ∃ y, f x = some y) → ∃ l', l.mapM f = some l' := by
  intro l
  induction l with
  | nil => intro _; exact ⟨[], rfl⟩
  | cons a l ih =>
    intro h
    obtain ⟨b, hb⟩ := h a List.mem_cons_self
    obtain ⟨rest, hrest⟩ := ih fun x hx => h x (List.mem_cons_of_mem _ hx)
    exact ⟨b :: rest, by rw [List.mapM_cons, hb, hrest]; rfl⟩

theorem decodeMap_eq_members {t : Tree} {members : List (Bytes × Tree)}
    (h : t.members? = some members) (current : SortedMap Bytes Bytes) :
    decodeMap t current = (members.mapM fun member =>
      (decodeString member.2 []).map fun value => (member.1, value)).map current.insertAll := by
  cases t with
  | empty kind inner => show Option.bind _ _ = _; rw [h, Option.bind_some]
  | node kind items => show Option.bind _ _ = _; rw [h, Option.bind_some]
  | _ => cases h

/-- **A map of valid strings is read back from its text.** -/
theorem decodeMap_encodeMap {m : SortedMap Bytes Bytes}
    (h : ∀ entry ∈ m.entries, Utf8.valid entry.1 = true ∧ Utf8.valid entry.2 = true) (n : Nat) :
    decodeMap ((encodeMap m).indent n) ∅ = some m := by
  have hmembers := members?_indent_object
    (m.entries.map fun entry => (entry.1, Tree.str (quoteBody entry.2))) (by
      intro member hm
      obtain ⟨entry, he, rfl⟩ := List.mem_map.mp hm
      exact (h entry he).1) n
  rw [List.map_map] at hmembers
  have hread : ∀ entry ∈ m.entries,
      (decodeString (Tree.indent (n + 1) (.str (quoteBody entry.2))) []).map
        (fun value => (entry.1, value)) = some (id entry) := by
    intro entry he
    rw [decodeString_quoteBody (h entry he).2]
    rfl
  rw [encodeMap, decodeMap_eq_members hmembers]
  have hall := mapM_eq_some_map
    (f := fun member : Bytes × Tree => (decodeString member.2 []).map fun value => (member.1, value))
    (g := fun entry : Bytes × Bytes => (entry.1, Tree.indent (n + 1) (.str (quoteBody entry.2))))
    (k := id) hread
  show Option.map _ (List.mapM _ (List.map _ _)) = _
  rw [show (List.map ((fun member : Bytes × Tree => (member.1, Tree.indent (n + 1) member.2)) ∘
      fun entry : Bytes × Bytes => (entry.1, Tree.str (quoteBody entry.2))) m.entries)
      = m.entries.map fun entry => (entry.1, Tree.indent (n + 1) (.str (quoteBody entry.2)))
      from rfl, hall, Option.map_some, List.map_id, SortedMap.insertAll_entries]

/-! ### Strings that were read are valid -/

theorem valid_decodeString {t : Tree} {current value : Bytes}
    (h : decodeString t current = some value) (hcurrent : Utf8.valid current = true) :
    Utf8.valid value = true := by
  unfold decodeString at h
  split at h
  · cases h; exact valid_unquote _
  · cases h; exact hcurrent
  · cases h

theorem valid_of_mem_members {t : Tree} {members : List (Bytes × Tree)}
    (h : t.members? = some members) : ∀ member ∈ members, Utf8.valid member.1 = true := by
  unfold Tree.members? at h
  split at h
  · cases h; simp
  · cases h
    intro member hm
    obtain ⟨⟨label, value⟩, -, rfl⟩ := List.mem_map.mp hm
    cases label with
    | member before key colon after => exact valid_unquote _
  · cases h

theorem valid_decodeMap {t : Tree} {current m : SortedMap Bytes Bytes}
    (h : decodeMap t current = some m)
    (hcurrent : ∀ entry ∈ current.entries,
      Utf8.valid entry.1 = true ∧ Utf8.valid entry.2 = true) :
    ∀ entry ∈ m.entries, Utf8.valid entry.1 = true ∧ Utf8.valid entry.2 = true := by
  unfold decodeMap at h
  split at h
  · cases h
    intro entry he
    cases he
  · obtain ⟨members, hmembers, h⟩ := Option.bind_eq_some_iff.mp h
    obtain ⟨entries, hentries, rfl⟩ := Option.map_eq_some_iff.mp h
    intro entry he
    rcases SortedMap.mem_entries_insertAll he with he | he
    · exact hcurrent entry he
    · obtain ⟨member, hm, hread⟩ := exists_of_mem_mapM hentries entry he
      obtain ⟨value, hvalue, rfl⟩ := Option.map_eq_some_iff.mp hread
      exact ⟨valid_of_mem_members hmembers member hm, valid_decodeString hvalue rfl⟩

theorem whole_decodeTime {t : Tree} {value : Option Time} (h : decodeTime t = some value) :
    ∀ u ∈ value, u.offset % 60 = 0 := by
  unfold decodeTime at h
  split at h
  · obtain ⟨u, hu, rfl⟩ := Option.map_eq_some_iff.mp h
    intro u' hu'
    cases hu'
    exact parseTime_whole hu
  · cases h; nofun
  · cases h

/-! ### Structs -/

/-- The bytes of one rune in the fold of a name: letters in upper case, the long s
as `S` and the Kelvin sign as `K`. -/
def foldAt : Bytes → Bytes × Nat
  | [] => ([], 1)
  | 0xC5 :: 0xBF :: _ => ([0x53], 2)
  | 0xE2 :: 0x84 :: 0xAA :: _ => ([0x4B], 3)
  | b :: _ => ([if 0x61 ≤ b && b ≤ 0x7A then b - 0x20 else b], 1)

def foldName (name : Bytes) : Bytes := walk foldAt name

/-- The field a member belongs to. -/
def fieldOf {φ : Type} (fields : List (Bytes × φ)) (key : Bytes) : Option φ :=
  match fields.find? fun field => field.1 = key with
  | some field => some field.2
  | none => (fields.find? fun field => foldName field.1 = foldName key).map Prod.snd

section Members

variable {φ σ : Type} (fields : List (Bytes × φ)) (decode : φ → Tree → σ → Option σ)

/-- The members of an object, one after the other. -/
def decodeMembers : List (Bytes × Tree) → σ → Option σ
  | [], current => some current
  | member :: rest, current =>
    (fieldOf fields member.1).bind fun field =>
    (decode field member.2 current).bind fun current => decodeMembers rest current

/-- A struct; `null` leaves it as it is. -/
def decodeStruct (t : Tree) (current : σ) : Option σ :=
  match t with
  | .null => some current
  | t => t.members?.bind fun members => decodeMembers fields decode members current

variable {fields decode}

theorem decodeStruct_eq_members {t : Tree} {members : List (Bytes × Tree)}
    (h : t.members? = some members) (current : σ) :
    decodeStruct fields decode t current = decodeMembers fields decode members current := by
  cases t with
  | empty kind inner => show Option.bind _ _ = _; rw [h, Option.bind_some]
  | node kind items => show Option.bind _ _ = _; rw [h, Option.bind_some]
  | _ => cases h

/-- A struct as an object, its fields under their names. -/
def encodeStruct (name : φ → Bytes) (members : List (φ × Tree)) : Tree :=
  object (members.map fun member => (name member.1, member.2))

variable (decode) in
/-- Fields read one after the other, each at the given level. -/
def decodeFields (level : Nat) : List (φ × Tree) → σ → Option σ
  | [], current => some current
  | member :: rest, current =>
    (decode member.1 (member.2.indent level) current).bind (decodeFields level rest)

theorem decodeFields_append (level : Nat) : ∀ (members members' : List (φ × Tree)) (current : σ),
    decodeFields decode level (members ++ members') current
      = (decodeFields decode level members current).bind (decodeFields decode level members') := by
  intro members members'
  induction members with
  | nil => intro current; rfl
  | cons member rest ih =>
    intro current
    rw [List.cons_append, decodeFields, decodeFields]
    cases decode member.1 (member.2.indent level) current with
    | none => rfl
    | some current => exact ih current

/-- **An indented struct is read field by field**, if its members have names that
are found. -/
theorem decodeStruct_encodeStruct_of_mem {name : φ → Bytes} {members : List (φ × Tree)}
    (hfield : ∀ member ∈ members, fieldOf fields (name member.1) = some member.1)
    (hvalid : ∀ member ∈ members, Utf8.valid (name member.1) = true) (n : Nat) (current : σ) :
    decodeStruct fields decode ((encodeStruct name members).indent n) current
      = decodeFields decode (n + 1) members current := by
  have hnames : ∀ member ∈ members.map fun member => (name member.1, member.2),
      Utf8.valid member.1 = true := by
    intro entry he
    obtain ⟨member, hm, rfl⟩ := List.mem_map.mp he
    exact hvalid member hm
  rw [encodeStruct, decodeStruct_eq_members (members?_indent_object _ hnames n), List.map_map]
  clear hvalid hnames
  induction members generalizing current with
  | nil => rfl
  | cons member rest ih =>
    rw [List.map_cons, decodeMembers, decodeFields]
    show (fieldOf fields (name member.1)).bind _ = _
    rw [hfield member List.mem_cons_self, Option.bind_some]
    show (decode member.1 (member.2.indent (n + 1)) current).bind _ = _
    cases decode member.1 (member.2.indent (n + 1)) current with
    | none => rfl
    | some current => exact ih (fun other ho => hfield other (List.mem_cons_of_mem _ ho)) current

theorem decodeStruct_encodeStruct {name : φ → Bytes}
    (hfield : ∀ field, fieldOf fields (name field) = some field)
    (hvalid : ∀ field, Utf8.valid (name field) = true) (members : List (φ × Tree)) (n : Nat)
    (current : σ) :
    decodeStruct fields decode ((encodeStruct name members).indent n) current
      = decodeFields decode (n + 1) members current :=
  decodeStruct_encodeStruct_of_mem (fun _ _ => hfield _) (fun _ _ => hvalid _) n current

/-- **What holds of a struct and is kept by reading each field holds afterwards.** -/
theorem decodeMembers_invariant {P : σ → Prop}
    (hstep : ∀ field t current next, decode field t current = some next → P current → P next) :
    ∀ {members : List (Bytes × Tree)} {current next : σ},
      decodeMembers fields decode members current = some next → P current → P next := by
  intro members
  induction members with
  | nil => intro current next h hP; cases h; exact hP
  | cons member rest ih =>
    intro current next h hP
    obtain ⟨field, -, h⟩ := Option.bind_eq_some_iff.mp h
    obtain ⟨middle, hmiddle, h⟩ := Option.bind_eq_some_iff.mp h
    exact ih h (hstep field _ _ _ hmiddle hP)

theorem decodeStruct_invariant {P : σ → Prop}
    (hstep : ∀ field t current next, decode field t current = some next → P current → P next)
    {t : Tree} {current next : σ} (h : decodeStruct fields decode t current = some next)
    (hP : P current) : P next := by
  unfold decodeStruct at h
  split at h
  · cases h; exact hP
  · obtain ⟨members, -, h⟩ := Option.bind_eq_some_iff.mp h
    exact decodeMembers_invariant hstep h hP

end Members

end Authorization.Foundation.Json
