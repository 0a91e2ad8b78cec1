import Authorization.Foundation.Json.Syntax
import Authorization.Foundation.Utf8

/-!
# JSON strings

`quote` is the body an encoder writes for a string, `unquote` the string a
decoder reads from a body, and `escape` what compaction does to a body it finds:
it replaces `<`, `>`, `&` and the two Unicode line separators by escapes.

A body is read in two steps.  `pieces` cuts it into runes, invalid bytes and
escapes; `render` writes the pieces out, and is where two escapes may join into
one rune as a surrogate pair.

* `unquote_quote`: a valid string is read back as it was written;
* `unquote_escape`: escaping does not change what is read;
* `escape_escape`: escaping once is enough;
* `valid_unquote`: what is read is valid UTF-8.
-/

namespace Authorization.Foundation.Json

open Utf8

/-! ### Escapes -/

/-- The hexadecimal digit of `n % 16`, in lower case. -/
def hexDigit (n : Nat) : UInt8 :=
  if n % 16 < 10 then UInt8.ofNat (0x30 + n % 16) else UInt8.ofNat (0x57 + n % 16)

/-- A backslash, `u` and four hexadecimal digits. -/
def unicodeEscape (n : Nat) : Bytes :=
  [0x5C, 0x75, hexDigit (n / 4096), hexDigit (n / 256), hexDigit (n / 16), hexDigit n]

def hexVal (b : UInt8) : Option Nat :=
  if 0x30 ≤ b && b ≤ 0x39 then some (b.toNat - 0x30)
  else if 0x61 ≤ b && b ≤ 0x66 then some (b.toNat - 0x57)
  else if 0x41 ≤ b && b ≤ 0x46 then some (b.toNat - 0x37)
  else none

/-- The value of four hexadecimal digits. -/
def hex4 : Bytes → Option Nat
  | a :: b :: c :: d :: _ => do
    return (← hexVal a) * 4096 + (← hexVal b) * 256 + (← hexVal c) * 16 + (← hexVal d)
  | _ => none

/-- The two-byte escapes. -/
def shortEscape (c : UInt8) : Bytes :=
  if c = 0x62 then [0x08] else if c = 0x66 then [0x0C] else if c = 0x6E then [0x0A]
  else if c = 0x72 then [0x0D] else if c = 0x74 then [0x09]
  else if c = 0x22 ∨ c = 0x5C ∨ c = 0x2F then [c] else []

/-- The bytes of the replacement rune U+FFFD. -/
def replacement : Bytes := [0xEF, 0xBF, 0xBD]

/-- `utf8.EncodeRune`, for a rune in range. -/
def encodeRune (n : Nat) : Bytes :=
  if n < 0x80 then [UInt8.ofNat n]
  else if n < 0x800 then [UInt8.ofNat (0xC0 + n / 64), UInt8.ofNat (0x80 + n % 64)]
  else if n < 0x10000 then
    [UInt8.ofNat (0xE0 + n / 4096), UInt8.ofNat (0x80 + n / 64 % 64), UInt8.ofNat (0x80 + n % 64)]
  else
    [UInt8.ofNat (0xF0 + n / 262144), UInt8.ofNat (0x80 + n / 4096 % 64),
      UInt8.ofNat (0x80 + n / 64 % 64), UInt8.ofNat (0x80 + n % 64)]

def isHigh (n : Nat) : Bool := 0xD800 ≤ n && n < 0xDC00

def isLow (n : Nat) : Bool := 0xDC00 ≤ n && n < 0xE000

/-- The rune of an escape that stands alone. -/
def encodeCode (n : Nat) : Bytes := if isHigh n || isLow n then replacement else encodeRune n

/-! ### Reading -/

/-- One piece of a body. -/
inductive Piece
  | bytes (out : Bytes)
  /-- The value of a `u` escape. -/
  | code (n : Nat)
deriving DecidableEq

/-- The piece at the head and how many bytes it takes. -/
def pieceAt : Bytes → List Piece × Nat
  | [] => ([], 1)
  | b :: rest =>
    if b = 0x5C then
      match rest with
      | [] => ([], 1)
      | c :: more =>
        if c = 0x75 then
          match hex4 more with
          | some n => ([.code n], 6)
          | none => ([], 1)
        else ([.bytes (shortEscape c)], 2)
    else if runeLen (b :: rest) = 0 then ([.bytes replacement], 1)
    else ([.bytes ((b :: rest).take (runeLen (b :: rest)))], runeLen (b :: rest))

def pieces (s : Bytes) : List Piece := walk pieceAt s

def render : List Piece → Bytes
  | [] => []
  | .bytes out :: rest => out ++ render rest
  | .code n :: .code m :: rest =>
    if isHigh n && isLow m then
      encodeRune ((n - 0xD800) * 0x400 + (m - 0xDC00) + 0x10000) ++ render rest
    else encodeCode n ++ render (.code m :: rest)
  | .code n :: rest => encodeCode n ++ render rest

/-- `unquoteBytes`, on the bytes between the quotes. -/
def unquote (s : Bytes) : Bytes := render (pieces s)

/-! ### Writing -/

def quoteByte (b : UInt8) : Bytes :=
  if b = 0x22 ∨ b = 0x5C then [0x5C, b]
  else if b = 0x08 then [0x5C, 0x62]
  else if b = 0x0C then [0x5C, 0x66]
  else if b = 0x0A then [0x5C, 0x6E]
  else if b = 0x0D then [0x5C, 0x72]
  else if b = 0x09 then [0x5C, 0x74]
  else if b < 0x20 ∨ b = 0x3C ∨ b = 0x3E ∨ b = 0x26 then unicodeEscape b.toNat
  else if b < 0x80 then [b]
  else replacement

/-- A rune or an invalid byte. -/
def quoteRune (r : Bytes) : Bytes :=
  if r = [0xE2, 0x80, 0xA8] then unicodeEscape 0x2028
  else if r = [0xE2, 0x80, 0xA9] then unicodeEscape 0x2029
  else
    match r with
    | [b] => quoteByte b
    | _ => r

/-- `appendString`, between the quotes. -/
def quote (s : Bytes) : Bytes := (runes s).flatMap quoteRune

/-! ### Compaction -/

/-- What compaction writes for the head, and how many bytes that takes. -/
def escapeAt : Bytes → Bytes × Nat
  | [] => ([], 1)
  | b :: rest =>
    if b = 0x3C ∨ b = 0x3E ∨ b = 0x26 then (unicodeEscape b.toNat, 1)
    else if b = 0xE2 ∧ rest.take 2 = [0x80, 0xA8] then (unicodeEscape 0x2028, 3)
    else if b = 0xE2 ∧ rest.take 2 = [0x80, 0xA9] then (unicodeEscape 0x2029, 3)
    else ([b], 1)

/-- The escapes of `appendCompact`, on the bytes between the quotes. -/
def escape (s : Bytes) : Bytes := walk escapeAt s

/-! ### Hexadecimal digits -/

theorem hexVal_hexDigit (n : Nat) : hexVal (hexDigit n) = some (n % 16) := by
  have hall : ∀ d : Fin 16, hexVal (hexDigit d) = some d.val := by decide
  have hmod : hexDigit n = hexDigit (n % 16) := by simp [hexDigit]
  rw [hmod]
  exact hall ⟨n % 16, Nat.mod_lt _ (by omega)⟩

theorem isHex_hexDigit (n : Nat) : isHex (hexDigit n) = true := by
  have hall : ∀ d : Fin 16, isHex (hexDigit d) = true := by decide
  have hmod : hexDigit n = hexDigit (n % 16) := by simp [hexDigit]
  rw [hmod]
  exact hall ⟨n % 16, Nat.mod_lt _ (by omega)⟩

theorem pieceAt_unicodeEscape {n : Nat} (h : n < 65536) (rest : Bytes) :
    pieceAt (unicodeEscape n ++ rest) = ([.code n], 6) := by
  have hn : n / 4096 % 16 * 4096 + n / 256 % 16 * 256 + n / 16 % 16 * 16 + n % 16 = n := by omega
  simp only [unicodeEscape, List.cons_append, List.nil_append, pieceAt, if_true, hex4,
    hexVal_hexDigit, Option.bind_eq_bind, Option.bind_some, Option.pure_def, hn]

theorem strRun_unicodeEscape (n : Nat) : strRun .plain (unicodeEscape n) = some .plain := by
  have hesc : strNext .plain 0x5C = some .esc := by decide
  have hu : strNext .esc 0x75 = some (.hex 3) := by decide
  have hlast : ∀ m, strNext (.hex 0) (hexDigit m) = some .plain := fun m => by
    rw [strNext, isHex_hexDigit, if_pos rfl]
  have hmore : ∀ k m, strNext (.hex (k + 1)) (hexDigit m) = some (.hex k) := fun k m => by
    rw [strNext, isHex_hexDigit, if_pos rfl]
  simp only [unicodeEscape, strRun, hesc, hu, hlast, hmore 0, hmore 1, hmore 2, Option.bind_some]

/-! ### Rendering -/

theorem render_code {n : Nat} (hh : isHigh n = false) (hl : isLow n = false) (rest : List Piece) :
    render (.code n :: rest) = encodeRune n ++ render rest := by
  have hcode : encodeCode n = encodeRune n := by simp [encodeCode, hh, hl]
  rw [← hcode]
  cases rest with
  | nil => rfl
  | cons p rest =>
    cases p with
    | bytes out => rfl
    | code m => rw [render, hh, Bool.false_and, if_neg (by simp)]

/-- Two pieces that render alike in every context. -/
inductive Piece.Same : Piece → Piece → Prop
  | refl (p : Piece) : Same p p
  | code (n : Nat) (hh : isHigh n = false) (hl : isLow n = false) :
      Same (.bytes (encodeRune n)) (.code n)

theorem render_code_bytes (n : Nat) (out : Bytes) (rest : List Piece) :
    render (.code n :: .bytes out :: rest) = encodeCode n ++ render (.bytes out :: rest) := rfl

theorem render_same : ∀ (k : Nat) {l l' : List Piece}, l.length ≤ k →
    List.Forall₂ Piece.Same l l' → render l = render l' := by
  intro k
  induction k with
  | zero =>
    intro l l' hk h
    have hnil : l = [] := List.length_eq_zero_iff.mp (by omega)
    subst hnil
    cases h
    rfl
  | succ k ih =>
    intro l l' hk h
    cases h with
    | nil => rfl
    | @cons p p' rest rest' hp hrest =>
      rw [List.length_cons] at hk
      have hih : render rest = render rest' := ih (by omega) hrest
      cases hp with
      | code n hh hl => rw [render_code hh hl, render, hih]
      | refl =>
        cases p with
        | bytes out => rw [render, render, hih]
        | code n =>
          cases hrest with
          | nil => rfl
          | @cons q q' more more' hq hmore =>
            rw [List.length_cons] at hk
            have hmore' : render more = render more' := ih (by omega) hmore
            cases hq with
            | code m hh hl =>
              rw [render_code_bytes, hih, render, hl, Bool.and_false, if_neg (by simp)]
            | refl =>
              cases q with
              | bytes out => rw [render_code_bytes, render_code_bytes, hih]
              | code m =>
                rw [render, render]
                split
                · rw [hmore']
                · rw [hih]

/-! ### Writing and reading -/

theorem pieceAt_rune {r : Bytes} (h : IsRune r) (hb : r.head? ≠ some 0x5C) (rest : Bytes) :
    pieceAt (r ++ rest) = ([.bytes r], r.length) := by
  obtain ⟨b, t, rfl⟩ := List.exists_cons_of_ne_nil h.1
  have hne : b ≠ 0x5C := by simpa using hb
  have hlen := runeLen_append h rest
  rw [List.cons_append] at hlen ⊢
  unfold pieceAt
  dsimp only
  rw [if_neg hne, hlen, if_neg (by simp), ← List.cons_append, List.take_left]

theorem encodeRune_toNat {b : UInt8} (h : b < 0x80) : encodeRune b.toNat = [b] := by
  have hn : b.toNat < 0x80 := UInt8.lt_iff_toNat_lt.mp h
  rw [encodeRune, if_pos hn, UInt8.ofNat_toNat]

theorem not_surrogate {n : Nat} (h : n < 0xD800) : isHigh n = false ∧ isLow n = false := by
  simp only [isHigh, isLow, Bool.and_eq_false_iff, decide_eq_false_iff_not]
  omega

/-- One rune, written and read. -/
theorem pieceAt_quoteRune {r : Bytes} (h : IsRune r) (rest : Bytes) :
    ∃ p, pieceAt (quoteRune r ++ rest) = ([p], (quoteRune r).length) ∧
      Piece.Same (.bytes r) p ∧ quoteRune r ≠ [] := by
  unfold quoteRune
  split
  · rename_i he
    refine ⟨.code 0x2028, pieceAt_unicodeEscape (by omega) rest, ?_, by simp [unicodeEscape]⟩
    rw [he]
    exact .code 0x2028 (by decide) (by decide)
  split
  · rename_i he
    refine ⟨.code 0x2029, pieceAt_unicodeEscape (by omega) rest, ?_, by simp [unicodeEscape]⟩
    rw [he]
    exact .code 0x2029 (by decide) (by decide)
  obtain ⟨b, t, rfl⟩ := List.exists_cons_of_ne_nil h.1
  rcases h.cases with ⟨hb, rfl⟩ | ⟨hb, ht, -⟩
  · dsimp only
    unfold quoteByte
    split
    · rename_i hc
      refine ⟨.bytes [b], ?_, .refl _, by simp⟩
      rcases hc with rfl | rfl <;> rfl
    split
    · rename_i hc; subst hc; exact ⟨_, rfl, .refl _, by simp⟩
    split
    · rename_i hc; subst hc; exact ⟨_, rfl, .refl _, by simp⟩
    split
    · rename_i hc; subst hc; exact ⟨_, rfl, .refl _, by simp⟩
    split
    · rename_i hc; subst hc; exact ⟨_, rfl, .refl _, by simp⟩
    split
    · rename_i hc; subst hc; exact ⟨_, rfl, .refl _, by simp⟩
    split
    · have hn : b.toNat < 0x80 := UInt8.lt_iff_toNat_lt.mp hb
      obtain ⟨hh, hl⟩ := not_surrogate (n := b.toNat) (by omega)
      refine ⟨.code b.toNat, pieceAt_unicodeEscape (by omega) rest, ?_, by simp [unicodeEscape]⟩
      rw [← encodeRune_toNat hb]
      exact .code _ hh hl
    · rename_i hq _ _ _ _ _ _
      have hne : b ≠ 0x5C := fun e => hq (Or.inr e)
      exact ⟨.bytes [b], pieceAt_rune h (by simpa using hne) rest, .refl _, by simp⟩
  · obtain ⟨c, t, rfl⟩ := List.exists_cons_of_ne_nil ht
    have hne : b ≠ 0x5C := by rintro rfl; exact absurd hb (by decide)
    exact ⟨.bytes _, pieceAt_rune h (by simpa using hne) rest, .refl _, by simp⟩

theorem pieces_quote : ∀ {rs : List Bytes}, (∀ r ∈ rs, IsRune r) →
    List.Forall₂ Piece.Same (rs.map .bytes) (pieces (rs.flatMap quoteRune)) := by
  intro rs
  induction rs with
  | nil => intro _; exact .nil
  | cons r rs ih =>
    intro h
    obtain ⟨p, hp, hsame, hne⟩ := pieceAt_quoteRune (h r (by simp)) (rs.flatMap quoteRune)
    rw [List.map_cons, List.flatMap_cons, pieces, walk_append hne hp]
    exact .cons hsame (ih fun r' hr' => h r' (by simp [hr']))

theorem render_bytes (rs : List Bytes) : render (rs.map .bytes) = rs.flatten := by
  induction rs with
  | nil => rfl
  | cons r rs ih => rw [List.map_cons, render, ih, List.flatten_cons]

/-- A body of single bytes is read as it stands. -/
theorem unquote_ascii {s : Bytes} (h : ∀ b ∈ s, b < 0x80 ∧ b ≠ 0x5C) : unquote s = s := by
  have hpieces : pieces s = (s.map fun b => [b]).map .bytes := by
    induction s with
    | nil => rfl
    | cons b rest ih =>
      obtain ⟨⟨hb, hne⟩, hrest⟩ := List.forall_mem_cons.mp h
      have hrune : IsRune [b] := ⟨by simp, by simp [runeLen, hb]⟩
      have hpiece := pieceAt_rune hrune (by simpa using hne) rest
      rw [pieces, ← List.singleton_append, walk_append (by simp) hpiece, ← pieces, ih hrest]
      rfl
  rw [unquote, hpieces, render_bytes, ← List.flatMap_def]
  exact List.flatMap_singleton' s

/-- **A valid string is read back as it was written.** -/
theorem unquote_quote {s : Bytes} (h : Utf8.valid s = true) : unquote (quote s) = s := by
  obtain ⟨rs, hrs, rfl⟩ := valid_iff.mp h
  rw [unquote, quote, runes_flatten hrs, ← render_same _ le_rfl (pieces_quote hrs), render_bytes]

theorem strNext_high {b : UInt8} (h : 0x80 ≤ b) : strNext .plain b = some .plain := by
  have h1 : ¬ b < 0x20 := by
    rw [UInt8.le_iff_toNat_le] at h
    rw [UInt8.lt_iff_toNat_lt]
    simp only [UInt8.reduceToNat] at h ⊢
    omega
  have h2 : b ≠ 0x22 := by rintro rfl; exact absurd h (by decide)
  have h3 : b ≠ 0x5C := by rintro rfl; exact absurd h (by decide)
  simp [strNext, h1, h2, h3]

theorem strRun_high : ∀ {l : Bytes}, (∀ b ∈ l, 0x80 ≤ b) → strRun .plain l = some .plain := by
  intro l
  induction l with
  | nil => intro _; rfl
  | cons b l ih =>
    intro h
    rw [strRun, strNext_high (h b (by simp)), Option.bind_some]
    exact ih fun c hc => h c (by simp [hc])

theorem high_of_cont {b : UInt8} (h : cont b = true) : 0x80 ≤ b := by
  simp only [cont, Bool.and_eq_true, decide_eq_true_eq] at h
  exact h.1

theorem strRun_quoteByte (b : UInt8) : strRun .plain (quoteByte b) = some .plain := by
  unfold quoteByte
  split
  · rename_i h; rcases h with rfl | rfl <;> decide
  split
  · decide
  split
  · decide
  split
  · decide
  split
  · decide
  split
  · decide
  split
  · exact strRun_unicodeEscape _
  split
  · rename_i hq _ _ _ _ _ hc _
    simp only [not_or] at hq hc
    have hnext : strNext .plain b = some .plain := by simp [strNext, hq, hc]
    rw [strRun, hnext]
    rfl
  · decide

/-- What the encoder writes is the body of a string, whatever the bytes. -/
theorem strRun_quote (s : Bytes) : strRun .plain (quote s) = some .plain := by
  have hall : ∀ rs : List Bytes, (∀ r ∈ rs, IsRune r ∨ ∃ b, r = [b]) →
      strRun .plain (rs.flatMap quoteRune) = some .plain := by
    intro rs
    induction rs with
    | nil => intro _; rfl
    | cons r rs ih =>
      intro h
      have hone : strRun .plain (quoteRune r) = some .plain := by
        unfold quoteRune
        split
        · exact strRun_unicodeEscape _
        split
        · exact strRun_unicodeEscape _
        rcases h r (by simp) with hr | ⟨b, rfl⟩
        · obtain ⟨b, t, rfl⟩ := List.exists_cons_of_ne_nil hr.1
          rcases hr.cases with ⟨_, rfl⟩ | ⟨hb, ht, hcont⟩
          · exact strRun_quoteByte b
          · obtain ⟨c, t, rfl⟩ := List.exists_cons_of_ne_nil ht
            refine strRun_high fun x hx => ?_
            rcases List.mem_cons.mp hx with rfl | hx
            · exact hb
            · exact high_of_cont (hcont x hx)
        · exact strRun_quoteByte b
      rw [List.flatMap_cons, strRun_append, hone, Option.bind_some]
      exact ih fun r' hr' => h r' (by simp [hr'])
  exact hall _ fun r hr => isRune_or_of_mem_runes hr

def quoteBody (s : Bytes) : Body := ⟨quote s, strRun_quote s⟩

/-! ### Escaping -/

/-- The runes compaction replaces. -/
def specials : List Nat := [0x3C, 0x3E, 0x26, 0x2028, 0x2029]

/-- The first bytes of these runes. -/
def specialHeads : Bytes := [0x3C, 0x3E, 0x26, 0xE2]

theorem length_lt_of_special {n : Nat} (hn : n ∈ specials) {b : UInt8} {rest r : Bytes}
    (hs : b :: rest = encodeRune n ++ r) : r.length < (b :: rest).length := by
  have hpos : 0 < (encodeRune n).length := by
    simp only [specials, List.mem_cons, List.not_mem_nil, or_false] at hn
    rcases hn with rfl | rfl | rfl | rfl | rfl <;> decide
  rw [hs, List.length_append]
  omega

theorem escape_cons_of_look {b : UInt8} {rest : Bytes} (h : escapeAt (b :: rest) = ([b], 1)) :
    escape (b :: rest) = b :: escape rest := by
  rw [escape, walk_cons, h]
  rfl

/-- Either a special rune comes off and is replaced, or one byte is kept. -/
theorem escape_cases (b : UInt8) (rest : Bytes) :
    (∃ n ∈ specials, ∃ r, b :: rest = encodeRune n ++ r ∧
      escape (b :: rest) = unicodeEscape n ++ escape r) ∨
    (escapeAt (b :: rest) = ([b], 1) ∧ escape (b :: rest) = b :: escape rest) := by
  have htake : ∀ x y : UInt8, rest.take 2 = [x, y] → rest = x :: y :: rest.drop 2 := by
    intro x y h
    rw [← List.take_append_drop 2 rest, h]
    rfl
  by_cases h1 : b = 0x3C ∨ b = 0x3E ∨ b = 0x26
  · left
    have hlook : escapeAt ([b] ++ rest) = (unicodeEscape b.toNat, [b].length) := if_pos h1
    have hesc := walk_append (by simp) hlook
    rcases h1 with rfl | rfl | rfl
    · exact ⟨0x3C, by decide, rest, rfl, hesc⟩
    · exact ⟨0x3E, by decide, rest, rfl, hesc⟩
    · exact ⟨0x26, by decide, rest, rfl, hesc⟩
  by_cases h2 : b = 0xE2 ∧ rest.take 2 = [0x80, 0xA8]
  · left
    have hlook : escapeAt (b :: rest) = (unicodeEscape 0x2028, 3) :=
      (if_neg h1).trans (if_pos h2)
    obtain ⟨rfl, hr⟩ := h2
    have hrest := htake _ _ hr
    rw [hrest] at hlook ⊢
    have hchunk : escapeAt ([0xE2, 0x80, 0xA8] ++ rest.drop 2) = (unicodeEscape 0x2028, 3) := hlook
    exact ⟨0x2028, by decide, rest.drop 2, rfl, walk_append (by simp) hchunk⟩
  by_cases h3 : b = 0xE2 ∧ rest.take 2 = [0x80, 0xA9]
  · left
    have hlook : escapeAt (b :: rest) = (unicodeEscape 0x2029, 3) :=
      (if_neg h1).trans ((if_neg h2).trans (if_pos h3))
    obtain ⟨rfl, hr⟩ := h3
    have hrest := htake _ _ hr
    rw [hrest] at hlook ⊢
    have hchunk : escapeAt ([0xE2, 0x80, 0xA9] ++ rest.drop 2) = (unicodeEscape 0x2029, 3) := hlook
    exact ⟨0x2029, by decide, rest.drop 2, rfl, walk_append (by simp) hchunk⟩
  · right
    have hlook : escapeAt (b :: rest) = ([b], 1) :=
      (if_neg h1).trans ((if_neg h2).trans (if_neg h3))
    exact ⟨hlook, escape_cons_of_look hlook⟩

theorem escapeAt_of_not_mem {b : UInt8} (h : b ∉ specialHeads) (rest : Bytes) :
    escapeAt (b :: rest) = ([b], 1) := by
  simp only [specialHeads, List.mem_cons, List.not_mem_nil, or_false, not_or] at h
  obtain ⟨h1, h2, h3, h4⟩ := h
  simp [escapeAt, h1, h2, h3, h4]

theorem escape_append : ∀ {l : Bytes}, (∀ b ∈ l, b ∉ specialHeads) → ∀ rest,
    escape (l ++ rest) = l ++ escape rest := by
  intro l
  induction l with
  | nil => intro _ rest; rfl
  | cons b l ih =>
    intro h rest
    rw [List.cons_append, escape_cons_of_look (escapeAt_of_not_mem (h b (by simp)) _),
      ih (fun c hc => h c (by simp [hc])), List.cons_append]

theorem not_special_of_cont {b : UInt8} (h : cont b = true) : b ∉ specialHeads := by
  intro hb
  simp only [specialHeads, List.mem_cons, List.not_mem_nil, or_false] at hb
  rcases hb with rfl | rfl | rfl | rfl <;> exact absurd h (by decide)

theorem not_special_of_isHex {b : UInt8} (h : isHex b = true) : b ∉ specialHeads := by
  intro hb
  simp only [specialHeads, List.mem_cons, List.not_mem_nil, or_false] at hb
  rcases hb with rfl | rfl | rfl | rfl <;> exact absurd h (by decide)

theorem not_special_unicodeEscape (n : Nat) : ∀ b ∈ unicodeEscape n, b ∉ specialHeads := by
  intro b hb
  simp only [unicodeEscape, List.mem_cons, List.not_mem_nil, or_false] at hb
  rcases hb with rfl | rfl | rfl | rfl | rfl | rfl
  · decide
  · decide
  all_goals exact not_special_of_isHex (isHex_hexDigit _)

/-- Continuation bytes in the output were there before. -/
theorem escape_eq_append : ∀ {c : Bytes}, (∀ b ∈ c, cont b = true) → ∀ {s y : Bytes},
    escape s = c ++ y → ∃ r, s = c ++ r ∧ y = escape r := by
  intro c
  induction c with
  | nil => intro _ s y h; exact ⟨s, rfl, h.symm⟩
  | cons x c ih =>
    intro hc s y h
    cases s with
    | nil => cases h
    | cons b rest =>
      rcases escape_cases b rest with ⟨n, _, r, _, he⟩ | ⟨_, he⟩
      · rw [he] at h
        simp only [unicodeEscape, List.cons_append, List.cons.injEq] at h
        have hx := hc x (by simp)
        rw [← h.1] at hx
        exact absurd hx (by decide)
      · rw [he, List.cons_append, List.cons.injEq] at h
        obtain ⟨r, rfl, hy⟩ := ih (fun b' hb' => hc b' (by simp [hb'])) h.2
        exact ⟨r, by rw [h.1]; rfl, hy⟩

/-- **Escaping once is enough.** -/
theorem escape_escape : ∀ (s : Bytes), escape (escape s) = escape s := by
  intro s
  induction hn : s.length using Nat.strong_induction_on generalizing s with
  | _ k ih =>
    cases s with
    | nil => rfl
    | cons b rest =>
      rcases escape_cases b rest with ⟨n, hspecial, r, hs, he⟩ | ⟨hlook, he⟩
      · have hlt := length_lt_of_special hspecial hs
        rw [he, escape_append (not_special_unicodeEscape n), ih r.length (by omega) r rfl]
      · rw [he]
        have hkeep : escapeAt (b :: escape rest) = ([b], 1) := by
          by_cases hb : b = 0xE2
          · subst hb
            have hno : ∀ x : UInt8, cont x = true → (escape rest).take 2 = [0x80, x] →
                rest.take 2 = [0x80, x] := by
              intro x hx h2
              obtain ⟨r, hr, _⟩ := escape_eq_append (c := [0x80, x]) (by simp [hx]; decide)
                (s := rest) (y := (escape rest).drop 2) (by rw [← h2, List.take_append_drop])
              rw [hr]
              rfl
            simp only [escapeAt] at hlook ⊢
            simp only [show (0xE2 : UInt8) ≠ 0x3C by decide, show (0xE2 : UInt8) ≠ 0x3E by decide,
              show (0xE2 : UInt8) ≠ 0x26 by decide, or_self, if_false, true_and] at hlook ⊢
            by_cases h8 : (escape rest).take 2 = [0x80, 0xA8]
            · rw [if_pos (hno _ (by decide) h8)] at hlook
              cases hlook
            · by_cases h9 : (escape rest).take 2 = [0x80, 0xA9]
              · have h8' : ¬ rest.take 2 = [0x80, 0xA8] := by
                  rw [hno _ (by decide) h9]; decide
                rw [if_neg h8', if_pos (hno _ (by decide) h9)] at hlook
                cases hlook
              · rw [if_neg h8, if_neg h9]
          · refine escapeAt_of_not_mem ?_ _
            intro hmem
            simp only [specialHeads, List.mem_cons, List.not_mem_nil, or_false, hb] at hmem
            rw [escapeAt, if_pos hmem] at hlook
            cases hlook
        rw [escape_cons_of_look hkeep, ih rest.length (by rw [← hn]; simp) rest rfl]

/-! ### Bodies stay bodies -/

/-- A special rune stands between characters only. -/
theorem strRun_special {n : Nat} (hn : n ∈ specials) {st st' : StrState} {r : Bytes}
    (h : strRun st (encodeRune n ++ r) = some st') :
    st = .plain ∧ strRun .plain r = some st' := by
  have hhead : ∀ (b : UInt8) (t : Bytes), b ∈ specialHeads →
      strRun st (b :: t) = some st' → st = .plain := by
    intro b t hb hrun
    cases st with
    | plain => rfl
    | esc =>
      have hnone : strNext .esc b = none := by
        simp only [specialHeads, List.mem_cons, List.not_mem_nil, or_false] at hb
        rcases hb with rfl | rfl | rfl | rfl <;> decide
      rw [strRun, hnone] at hrun
      cases hrun
    | hex k =>
      have hhex : isHex b = false := by
        cases hc : isHex b with
        | false => rfl
        | true => exact absurd hb (not_special_of_isHex hc)
      have hnone : strNext (.hex k) b = none := by cases k <;> simp [strNext, hhex]
      rw [strRun, hnone] at hrun
      cases hrun
  have hfirst : ∃ b t, encodeRune n = b :: t ∧ b ∈ specialHeads ∧
      strRun .plain (encodeRune n) = some .plain := by
    simp only [specials, List.mem_cons, List.not_mem_nil, or_false] at hn
    rcases hn with rfl | rfl | rfl | rfl | rfl <;> exact ⟨_, _, rfl, by decide, by decide⟩
  obtain ⟨b, t, he, hb, hrun⟩ := hfirst
  have hst : st = .plain := hhead b (t ++ r) hb (by rw [← List.cons_append, ← he]; exact h)
  subst hst
  rw [strRun_append, hrun, Option.bind_some] at h
  exact ⟨rfl, h⟩

theorem strRun_escape : ∀ {s : Bytes} {st st' : StrState}, strRun st s = some st' →
    strRun st (escape s) = some st' := by
  intro s
  induction hk : s.length using Nat.strong_induction_on generalizing s with
  | _ k ih =>
    intro st st' h
    cases s with
    | nil => exact h
    | cons b rest =>
      rcases escape_cases b rest with ⟨n, hn, r, hs, he⟩ | ⟨_, he⟩
      · have hlt := length_lt_of_special hn hs
        rw [hs] at h
        obtain ⟨rfl, hr⟩ := strRun_special hn h
        rw [he, strRun_append, strRun_unicodeEscape, Option.bind_some]
        exact ih r.length (by omega) rfl hr
      · rw [he]
        rw [strRun, Option.bind_eq_some_iff] at h
        obtain ⟨st₁, hnext, hrest⟩ := h
        rw [strRun, hnext, Option.bind_some]
        exact ih rest.length (by rw [← hk]; simp) rfl hrest

def Body.escape (body : Body) : Body := ⟨Json.escape body.bytes, strRun_escape body.ok⟩

/-! ### Escaping does not change what is read -/

/-- One digit of a Unicode escape. -/
theorem strRun_hex {k : Nat} {l : Bytes} (h : strRun (.hex k) l = some .plain) :
    ∃ x t, l = x :: t ∧ isHex x = true ∧
      strRun (match k with | 0 => .plain | k + 1 => .hex k) t = some .plain := by
  cases l with
  | nil => cases h
  | cons x t =>
    refine ⟨x, t, rfl, ?_⟩
    rw [strRun, Option.bind_eq_some_iff] at h
    obtain ⟨st, hx, ht⟩ := h
    cases k with
    | zero =>
      rw [strNext] at hx
      split at hx
      · rename_i hx'; cases hx; exact ⟨hx', ht⟩
      · cases hx
    | succ k =>
      rw [strNext] at hx
      split at hx
      · rename_i hx'; cases hx; exact ⟨hx', ht⟩
      · cases hx

/-- How a body starts: with an escape, or with a byte that is not a backslash. -/
theorem strRun_plain_cons {b : UInt8} {rest : Bytes}
    (h : strRun .plain (b :: rest) = some .plain) :
    (b ≠ 0x5C ∧ strRun .plain rest = some .plain) ∨
    (b = 0x5C ∧ ∃ c more, rest = c :: more ∧ c ≠ 0x75 ∧ c ∉ specialHeads ∧
      strRun .plain more = some .plain) ∨
    (b = 0x5C ∧ ∃ a₁ a₂ a₃ a₄ more, rest = 0x75 :: a₁ :: a₂ :: a₃ :: a₄ :: more ∧
      (∀ x ∈ [a₁, a₂, a₃, a₄], isHex x = true) ∧ strRun .plain more = some .plain) := by
  rw [strRun, Option.bind_eq_some_iff] at h
  obtain ⟨st, hnext, hrest⟩ := h
  by_cases hb : b = 0x5C
  · subst hb
    right
    cases hnext
    cases rest with
    | nil => cases hrest
    | cons c more =>
      rw [strRun, Option.bind_eq_some_iff] at hrest
      obtain ⟨st, hnext, hrest⟩ := hrest
      rw [strNext] at hnext
      split at hnext
      · rename_i hshort
        cases hnext
        refine Or.inl ⟨rfl, c, more, rfl, ?_, ?_, hrest⟩
        · rintro rfl; exact absurd hshort (by decide)
        · simp only [shortEscapes, List.mem_cons, List.not_mem_nil, or_false] at hshort
          rcases hshort with rfl | rfl | rfl | rfl | rfl | rfl | rfl | rfl <;> decide
      · split at hnext
        · rename_i hu
          cases hnext
          obtain ⟨a₁, t, rfl, h₁, ht⟩ := strRun_hex hrest
          obtain ⟨a₂, t, rfl, h₂, ht⟩ := strRun_hex ht
          obtain ⟨a₃, t, rfl, h₃, ht⟩ := strRun_hex ht
          obtain ⟨a₄, t, rfl, h₄, ht⟩ := strRun_hex ht
          refine Or.inr ⟨rfl, a₁, a₂, a₃, a₄, t, ?_, ?_, ht⟩
          · rw [eq_of_beq hu]
          · intro x hx
            simp only [List.mem_cons, List.not_mem_nil, or_false] at hx
            rcases hx with rfl | rfl | rfl | rfl <;> assumption
        · cases hnext
  · left
    refine ⟨hb, ?_⟩
    rw [strNext] at hnext
    split at hnext
    · cases hnext
    · rw [if_neg (by simpa using hb)] at hnext
      cases hnext
      exact hrest

theorem hexVal_of_isHex {b : UInt8} (h : isHex b = true) : ∃ v, hexVal b = some v := by
  simp only [isHex, Bool.or_eq_true, Bool.and_eq_true, decide_eq_true_eq] at h
  simp only [hexVal, Bool.and_eq_true, decide_eq_true_eq]
  split
  · exact ⟨_, rfl⟩
  · split
    · exact ⟨_, rfl⟩
    · split
      · exact ⟨_, rfl⟩
      · simp_all

theorem hexVal_lt {b : UInt8} {v : Nat} (h : hexVal b = some v) : v < 16 := by
  simp only [hexVal, Bool.and_eq_true, decide_eq_true_eq, UInt8.le_iff_toNat_le,
    UInt8.reduceToNat] at h
  split at h
  · cases h; omega
  · split at h
    · cases h; omega
    · split at h
      · cases h; omega
      · cases h

theorem pieceAt_hex {a₁ a₂ a₃ a₄ : UInt8} (h : ∀ x ∈ [a₁, a₂, a₃, a₄], isHex x = true) :
    ∃ n, ∀ rest, pieceAt ([0x5C, 0x75, a₁, a₂, a₃, a₄] ++ rest) = ([.code n], 6) := by
  obtain ⟨v₁, h₁⟩ := hexVal_of_isHex (h a₁ (by simp))
  obtain ⟨v₂, h₂⟩ := hexVal_of_isHex (h a₂ (by simp))
  obtain ⟨v₃, h₃⟩ := hexVal_of_isHex (h a₃ (by simp))
  obtain ⟨v₄, h₄⟩ := hexVal_of_isHex (h a₄ (by simp))
  refine ⟨v₁ * 4096 + v₂ * 256 + v₃ * 16 + v₄, fun rest => ?_⟩
  simp only [List.cons_append, List.nil_append, pieceAt, if_true, hex4, h₁, h₂, h₃, h₄,
    Option.bind_eq_bind, Option.bind_some, Option.pure_def]

/-- An invalid byte stays one when what follows is escaped. -/
theorem runeLen_escape {b : UInt8} {rest : Bytes} (h : runeLen (b :: rest) = 0) :
    runeLen (b :: escape rest) = 0 := by
  by_contra hne
  have hrune := isRune_take (s := b :: escape rest) (by omega)
  obtain ⟨m, hm⟩ := Nat.exists_eq_succ_of_ne_zero hne
  rw [hm, List.take_succ_cons] at hrune
  have hcont : ∀ x ∈ (escape rest).take m, cont x = true := by
    rcases hrune.cases with ⟨_, ht⟩ | ⟨_, _, hc⟩
    · rw [ht]; simp
    · exact hc
  obtain ⟨r, hr, _⟩ := escape_eq_append hcont (List.take_append_drop m (escape rest)).symm
  have hlen := runeLen_append hrune r
  rw [List.cons_append, ← hr, h] at hlen
  simp at hlen

theorem pieces_escape : ∀ {s : Bytes}, strRun .plain s = some .plain →
    List.Forall₂ Piece.Same (pieces s) (pieces (escape s)) := by
  intro s
  induction hk : s.length using Nat.strong_induction_on generalizing s with
  | _ k ih =>
    intro h
    cases s with
    | nil => exact .nil
    | cons b rest =>
      rw [List.length_cons] at hk
      rcases escape_cases b rest with ⟨n, hn, r, hs, he⟩ | ⟨_, he⟩
      · have hlt := length_lt_of_special hn hs
        rw [List.length_cons] at hlt
        rw [hs] at h
        obtain ⟨-, hr⟩ := strRun_special hn h
        have hrune : IsRune (encodeRune n) ∧ (encodeRune n).head? ≠ some 0x5C ∧ n < 0xD800 := by
          simp only [specials, List.mem_cons, List.not_mem_nil, or_false] at hn
          rcases hn with rfl | rfl | rfl | rfl | rfl <;> decide
        obtain ⟨hh, hl⟩ := not_surrogate hrune.2.2
        have hleft : pieces (b :: rest) = .bytes (encodeRune n) :: pieces r := by
          rw [hs, pieces, walk_append hrune.1.1 (pieceAt_rune hrune.1 hrune.2.1 r)]
          rfl
        have hright : pieces (escape (b :: rest)) = .code n :: pieces (escape r) := by
          have hn' : n < 65536 := by have := hrune.2.2; omega
          rw [he, pieces, walk_append (by simp [unicodeEscape]) (pieceAt_unicodeEscape hn' _)]
          rfl
        rw [hleft, hright]
        exact .cons (.code n hh hl) (ih r.length (by omega) rfl hr)
      · rcases strRun_plain_cons h with ⟨hb, hrest⟩ | ⟨rfl, c, more, rfl, hu, hc, hmore⟩ |
          ⟨rfl, a₁, a₂, a₃, a₄, more, rfl, hhex, hmore⟩
        · by_cases hlen : runeLen (b :: rest) = 0
          · have hleft : pieceAt ([b] ++ rest) = ([.bytes replacement], 1) := by
              rw [List.singleton_append]
              unfold pieceAt
              dsimp only
              rw [if_neg hb, if_pos hlen]
            have hright : pieceAt ([b] ++ escape rest) = ([.bytes replacement], 1) := by
              rw [List.singleton_append]
              unfold pieceAt
              dsimp only
              rw [if_neg hb, if_pos (runeLen_escape hlen)]
            rw [he, ← List.singleton_append, ← List.singleton_append (l := escape rest), pieces,
              pieces, walk_append (by simp) hleft, walk_append (by simp) hright]
            exact .cons (.refl _) (ih rest.length (by omega) rfl hrest)
          · have hrune := isRune_take (s := b :: rest) (by omega)
            obtain ⟨m, hm⟩ := Nat.exists_eq_succ_of_ne_zero hlen
            rw [hm, List.take_succ_cons] at hrune
            have hcont : ∀ x ∈ rest.take m, cont x = true := by
              rcases hrune.cases with ⟨_, ht⟩ | ⟨_, _, hc⟩
              · rw [ht]; simp
              · exact hc
            have hsplit : rest = rest.take m ++ rest.drop m := (List.take_append_drop m rest).symm
            have hesc : escape rest = rest.take m ++ escape (rest.drop m) := by
              conv_lhs => rw [hsplit]
              exact escape_append (fun x hx => not_special_of_cont (hcont x hx)) _
            have hvalid : strRun .plain (rest.drop m) = some .plain := by
              rw [hsplit, strRun_append, strRun_high fun x hx => high_of_cont (hcont x hx),
                Option.bind_some] at hrest
              exact hrest
            have hhead : (b :: rest.take m).head? ≠ some 0x5C := by simpa using hb
            have hleft := walk_append hrune.1 (pieceAt_rune hrune hhead (rest.drop m))
            have hright := walk_append hrune.1 (pieceAt_rune hrune hhead (escape (rest.drop m)))
            rw [he, hesc]
            rw [List.cons_append, ← hsplit] at hleft
            rw [pieces, pieces, hleft, ← List.cons_append, hright]
            exact .cons (.refl _) (ih (rest.drop m).length (by simp; omega) rfl hvalid)
        · have hshort : ∀ t, pieceAt ([0x5C, c] ++ t) = ([.bytes (shortEscape c)], 2) := by
            intro t
            simp only [List.cons_append, List.nil_append, pieceAt, if_true, if_neg hu]
          have hesc : escape (0x5C :: c :: more) = [0x5C, c] ++ escape more :=
            escape_append (l := [0x5C, c]) (by simpa using ⟨by decide, hc⟩) more
          have hleft : pieces (0x5C :: c :: more) = .bytes (shortEscape c) :: pieces more :=
            walk_append (by simp) (hshort more)
          rw [hesc, hleft, pieces, pieces, walk_append (by simp) (hshort (escape more))]
          exact .cons (.refl _) (ih more.length (by simp at hk; omega) rfl hmore)
        · obtain ⟨n, hn⟩ := pieceAt_hex hhex
          have hesc : escape (0x5C :: 0x75 :: a₁ :: a₂ :: a₃ :: a₄ :: more)
              = [0x5C, 0x75, a₁, a₂, a₃, a₄] ++ escape more := by
            refine escape_append (l := [0x5C, 0x75, a₁, a₂, a₃, a₄]) (fun x hx => ?_) more
            rcases List.mem_cons.mp hx with rfl | hx
            · decide
            · rcases List.mem_cons.mp hx with rfl | hx
              · decide
              · exact not_special_of_isHex (hhex x hx)
          have hleft : pieces (0x5C :: 0x75 :: a₁ :: a₂ :: a₃ :: a₄ :: more)
              = .code n :: pieces more := walk_append (by simp) (hn more)
          rw [hesc, hleft, pieces, pieces, walk_append (by simp) (hn (escape more))]
          exact .cons (.refl _) (ih more.length (by simp at hk; omega) rfl hmore)

/-- **Escaping does not change what is read.** -/
theorem unquote_escape (body : Body) : unquote body.escape.bytes = unquote body.bytes :=
  (render_same _ le_rfl (pieces_escape body.ok)).symm

/-! ### What is read is valid -/

theorem isRune_encodeRune {n : Nat} (h : n < 0x110000) (hh : isHigh n = false)
    (hl : isLow n = false) : IsRune (encodeRune n) := by
  have htoNat : ∀ k : Nat, k < 256 → (UInt8.ofNat k).toNat = k := by
    intro k hk
    rw [UInt8.toNat_ofNat']
    omega
  simp only [isHigh, isLow, Bool.and_eq_false_iff, decide_eq_false_iff_not] at hh hl
  unfold encodeRune
  split
  · refine ⟨by simp, ?_⟩
    have h0 := htoNat n (by omega)
    rw [runeLen, if_pos (by rw [UInt8.lt_iff_toNat_lt, h0]; assumption)]
    rfl
  · split
    · refine ⟨by simp, ?_⟩
      have h0 := htoNat (0xC0 + n / 64) (by omega)
      have h1 := htoNat (0x80 + n % 64) (by omega)
      simp only [runeLen, cont, UInt8.lt_iff_toNat_lt, UInt8.le_iff_toNat_le, h0, h1,
        UInt8.reduceToNat]
      rw [if_neg (by omega), if_pos (by simp; omega)]
      rfl
    · split
      · refine ⟨by simp, ?_⟩
        have h0 := htoNat (0xE0 + n / 4096) (by omega)
        have h1 := htoNat (0x80 + n / 64 % 64) (by omega)
        have h2 := htoNat (0x80 + n % 64) (by omega)
        simp only [runeLen, cont, lead3, UInt8.lt_iff_toNat_lt, UInt8.le_iff_toNat_le, h0, h1, h2,
          UInt8.reduceToNat, ← UInt8.toNat_inj, Bool.and_eq_true, Bool.or_eq_true, beq_iff_eq,
          decide_eq_true_eq]
        rw [if_neg (by omega), if_neg (by omega), if_pos (by omega)]
        rfl
      · refine ⟨by simp, ?_⟩
        have h0 := htoNat (0xF0 + n / 262144) (by omega)
        have h1 := htoNat (0x80 + n / 4096 % 64) (by omega)
        have h2 := htoNat (0x80 + n / 64 % 64) (by omega)
        have h3 := htoNat (0x80 + n % 64) (by omega)
        simp only [runeLen, cont, lead3, lead4, UInt8.lt_iff_toNat_lt, UInt8.le_iff_toNat_le, h0,
          h1, h2, h3, UInt8.reduceToNat, ← UInt8.toNat_inj, Bool.and_eq_true, Bool.or_eq_true,
          beq_iff_eq, decide_eq_true_eq]
        rw [if_neg (by omega), if_neg (by omega), if_neg (by omega), if_pos (by omega)]
        rfl

/-- A piece that renders to a rune or nothing. -/
def Piece.Ok : Piece → Prop
  | .bytes out => out = [] ∨ IsRune out
  | .code n => n < 65536

theorem pieceAt_ok : ∀ (s : Bytes), ∀ p ∈ (pieceAt s).1, p.Ok := by
  intro s p hp
  cases s with
  | nil => cases hp
  | cons b rest =>
    unfold pieceAt at hp
    dsimp only at hp
    split at hp
    · split at hp
      · cases hp
      · rename_i c more
        split at hp
        · split at hp
          · rename_i n hn
            rw [List.mem_singleton] at hp
            subst hp
            show n < 65536
            unfold hex4 at hn
            split at hn
            · simp only [Option.bind_eq_bind, Option.bind_eq_some_iff, Option.pure_def,
                Option.some.injEq] at hn
              obtain ⟨v₁, h₁, v₂, h₂, v₃, h₃, v₄, h₄, rfl⟩ := hn
              have := hexVal_lt h₁
              have := hexVal_lt h₂
              have := hexVal_lt h₃
              have := hexVal_lt h₄
              omega
            · cases hn
          · cases hp
        · rw [List.mem_singleton] at hp
          subst hp
          show shortEscape c = [] ∨ IsRune (shortEscape c)
          unfold shortEscape
          repeat' split
          all_goals first
            | exact Or.inl rfl
            | exact Or.inr (by decide)
            | (rename_i hc; rcases hc with rfl | rfl | rfl <;> exact Or.inr (by decide))
    · split at hp
      · rw [List.mem_singleton] at hp
        subst hp
        exact Or.inr (by decide)
      · rw [List.mem_singleton] at hp
        subst hp
        exact Or.inr (isRune_take (by omega))

theorem pieces_ok : ∀ (s : Bytes), ∀ p ∈ pieces s, p.Ok := by
  intro s
  induction hk : s.length using Nat.strong_induction_on generalizing s with
  | _ k ih =>
    intro p hp
    cases s with
    | nil => cases hp
    | cons b rest =>
      rw [pieces, walk_cons, List.mem_append] at hp
      rcases hp with hp | hp
      · exact pieceAt_ok _ p hp
      · refine ih _ ?_ _ rfl p hp
        subst hk
        simp only [List.length_drop, List.length_cons]
        omega

theorem valid_append {a b : Bytes} (ha : Utf8.valid a = true) (hb : Utf8.valid b = true) :
    Utf8.valid (a ++ b) = true := by
  obtain ⟨rs, hrs, rfl⟩ := valid_iff.mp ha
  obtain ⟨rs', hrs', rfl⟩ := valid_iff.mp hb
  refine valid_iff.mpr ⟨rs ++ rs', ?_, List.flatten_append⟩
  intro r hr
  rcases List.mem_append.mp hr with hr | hr
  · exact hrs r hr
  · exact hrs' r hr

theorem valid_of_isRune {r : Bytes} (h : IsRune r) : Utf8.valid r = true :=
  valid_iff.mpr ⟨[r], by simpa using h, by simp⟩

theorem valid_encodeCode {n : Nat} (h : n < 65536) : Utf8.valid (encodeCode n) = true := by
  unfold encodeCode
  split
  · decide
  · rename_i hs
    simp only [Bool.or_eq_true, not_or, Bool.not_eq_true] at hs
    exact valid_of_isRune (isRune_encodeRune (by omega) hs.1 hs.2)

theorem valid_render : ∀ (k : Nat) {l : List Piece}, l.length ≤ k → (∀ p ∈ l, p.Ok) →
    Utf8.valid (render l) = true := by
  intro k
  induction k with
  | zero =>
    intro l hk _
    have hnil : l = [] := List.length_eq_zero_iff.mp (by omega)
    subst hnil
    rfl
  | succ k ih =>
    intro l hk h
    cases l with
    | nil => rfl
    | cons p rest =>
      rw [List.length_cons] at hk
      have hp := h p (by simp)
      have hrest : Utf8.valid (render rest) = true :=
        ih (by omega) fun q hq => h q (by simp [hq])
      cases p with
      | bytes out =>
        rw [render]
        refine valid_append ?_ hrest
        rcases hp with rfl | hr
        · rfl
        · exact valid_of_isRune hr
      | code n =>
        cases rest with
        | nil => exact valid_append (valid_encodeCode hp) rfl
        | cons q more =>
          cases q with
          | bytes out => exact valid_append (valid_encodeCode hp) hrest
          | code m =>
            rw [render]
            split
            · rename_i hpair
              rw [List.length_cons] at hk
              have hmore : Utf8.valid (render more) = true :=
                ih (by omega) fun q hq => h q (by simp [hq])
              refine valid_append (valid_of_isRune (isRune_encodeRune ?_ ?_ ?_)) hmore <;>
                simp only [isHigh, isLow, Bool.and_eq_true, decide_eq_true_eq,
                  Bool.and_eq_false_iff, decide_eq_false_iff_not] at hpair ⊢ <;> omega
            · exact valid_append (valid_encodeCode hp) hrest

/-- **What is read is valid UTF-8**, whatever the bytes. -/
theorem valid_unquote (s : Bytes) : Utf8.valid (unquote s) = true :=
  valid_render _ le_rfl (pieces_ok s)

end Authorization.Foundation.Json
