import Authorization.Foundation.Bytes

/-!
# UTF-8

`runeLen` is the length of the encoded rune at the head of a byte string, `0`
when the bytes there are not one, by the table of `unicode/utf8`.  `runes` cuts
a string as Go's decoders do, into encoded runes and single invalid bytes; a
string is valid when every piece is a rune.

The cut walks the bytes one at a time and skips the bytes a piece has already
taken, so it is structural.  `runes_rune_append` is how it is used: a rune in
front of anything is cut off whole.
-/

namespace Authorization.Foundation.Utf8

open Authorization.Foundation

/-- A continuation byte. -/
def cont (b : UInt8) : Bool := 0x80 ≤ b && b ≤ 0xBF

/-- The first two bytes of a three-byte rune; no surrogates, no overlong forms. -/
def lead3 (a b : UInt8) : Bool :=
  (a == 0xE0 && 0xA0 ≤ b && b ≤ 0xBF) || (0xE1 ≤ a && a ≤ 0xEC && cont b) ||
    (a == 0xED && 0x80 ≤ b && b ≤ 0x9F) || (0xEE ≤ a && a ≤ 0xEF && cont b)

/-- The first two bytes of a four-byte rune. -/
def lead4 (a b : UInt8) : Bool :=
  (a == 0xF0 && 0x90 ≤ b && b ≤ 0xBF) || (0xF1 ≤ a && a ≤ 0xF3 && cont b) ||
    (a == 0xF4 && 0x80 ≤ b && b ≤ 0x8F)

/-- The length of the rune at the head, `0` for none. -/
def runeLen : Bytes → Nat
  | [] => 0
  | [a] => if a < 0x80 then 1 else 0
  | [a, b] =>
    if a < 0x80 then 1
    else if 0xC2 ≤ a && a ≤ 0xDF && cont b then 2
    else 0
  | [a, b, c] =>
    if a < 0x80 then 1
    else if 0xC2 ≤ a && a ≤ 0xDF && cont b then 2
    else if lead3 a b && cont c then 3
    else 0
  | a :: b :: c :: d :: _ =>
    if a < 0x80 then 1
    else if 0xC2 ≤ a && a ≤ 0xDF && cont b then 2
    else if lead3 a b && cont c then 3
    else if lead4 a b && cont c && cont d then 4
    else 0

/-- Exactly one encoded rune. -/
def IsRune (r : Bytes) : Prop := r ≠ [] ∧ runeLen r = r.length

instance (r : Bytes) : Decidable (IsRune r) := inferInstanceAs (Decidable (_ ∧ _))

theorem runeLen_le (l : Bytes) : runeLen l ≤ 4 := by
  fun_cases runeLen l <;> omega

/-- **A rune is recognised whatever follows it.** -/
theorem runeLen_append {r : Bytes} (h : IsRune r) (rest : Bytes) :
    runeLen (r ++ rest) = r.length := by
  obtain ⟨hne, hlen⟩ := h
  match r, hne, hlen with
  | [a], _, hlen =>
    rw [runeLen] at hlen
    have ha : a < 0x80 := by
      by_contra hc; rw [if_neg hc] at hlen; simp at hlen
    match rest with
    | [] => simp [runeLen, ha]
    | [b] => simp [runeLen, ha]
    | [b, c] => simp [runeLen, ha]
    | b :: c :: d :: t => simp [runeLen, ha]
  | [a, b], _, hlen =>
    rw [runeLen] at hlen
    split at hlen
    · simp at hlen
    · rename_i ha
      split at hlen
      · rename_i hb
        match rest with
        | [] => simp only [List.append_nil, runeLen, if_neg ha, if_pos hb]; rfl
        | [c] =>
          show runeLen [a, b, c] = 2
          rw [runeLen, if_neg ha, if_pos hb]
        | c :: d :: t =>
          show runeLen (a :: b :: c :: d :: t) = 2
          rw [runeLen, if_neg ha, if_pos hb]
      · simp at hlen
  | [a, b, c], _, hlen =>
    rw [runeLen] at hlen
    split at hlen
    · simp at hlen
    · rename_i ha
      split at hlen
      · simp at hlen
      · rename_i hb
        split at hlen
        · rename_i hc
          match rest with
          | [] => simp only [List.append_nil, runeLen, if_neg ha, if_neg hb, if_pos hc]; rfl
          | d :: t =>
            show runeLen (a :: b :: c :: d :: t) = 3
            rw [runeLen, if_neg ha, if_neg hb, if_pos hc]
        · simp at hlen
  | a :: b :: c :: d :: t, _, hlen =>
    have ht : t = [] := by
      have := runeLen_le (a :: b :: c :: d :: t)
      rw [hlen] at this
      simp only [List.length_cons] at this
      exact List.length_eq_zero_iff.mp (by omega)
    subst ht
    show runeLen (a :: b :: c :: d :: rest) = 4
    rw [runeLen] at hlen ⊢
    exact hlen

/-- The bytes of a rune at the head, taken alone, are one. -/
theorem isRune_take {s : Bytes} (h : 1 ≤ runeLen s) : IsRune (s.take (runeLen s)) := by
  match s, h with
  | [], h => exact absurd h (by simp [runeLen])
  | [a], h =>
    rw [runeLen] at h ⊢
    split at h
    · rename_i ha; rw [if_pos ha]; exact ⟨by simp, by simp [runeLen, ha]⟩
    · omega
  | [a, b], h =>
    rw [runeLen] at h ⊢
    split at h
    · rename_i ha; rw [if_pos ha]; exact ⟨by simp, by simp [runeLen, ha]⟩
    · rename_i ha
      split at h
      · rename_i hb
        rw [if_neg ha, if_pos hb]
        exact ⟨by simp, by simp only [List.take, runeLen, if_neg ha, if_pos hb]; rfl⟩
      · omega
  | [a, b, c], h =>
    rw [runeLen] at h ⊢
    split at h
    · rename_i ha; rw [if_pos ha]; exact ⟨by simp, by simp [runeLen, ha]⟩
    · rename_i ha
      split at h
      · rename_i hb
        rw [if_neg ha, if_pos hb]
        exact ⟨by simp, by simp only [List.take, runeLen, if_neg ha, if_pos hb]; rfl⟩
      · rename_i hb
        split at h
        · rename_i hc
          rw [if_neg ha, if_neg hb, if_pos hc]
          exact ⟨by simp, by simp only [List.take, runeLen, if_neg ha, if_neg hb, if_pos hc]; rfl⟩
        · omega
  | a :: b :: c :: d :: t, h =>
    rw [runeLen] at h ⊢
    split at h
    · rename_i ha; rw [if_pos ha]; exact ⟨by simp, by simp [runeLen, ha]⟩
    · rename_i ha
      split at h
      · rename_i hb
        rw [if_neg ha, if_pos hb]
        exact ⟨by simp, by simp only [List.take, runeLen, if_neg ha, if_pos hb]; rfl⟩
      · rename_i hb
        split at h
        · rename_i hc
          rw [if_neg ha, if_neg hb, if_pos hc]
          exact ⟨by simp, by simp only [List.take, runeLen, if_neg ha, if_neg hb, if_pos hc]; rfl⟩
        · rename_i hc
          split at h
          · rename_i hd
            rw [if_neg ha, if_neg hb, if_neg hc, if_pos hd]
            refine ⟨by simp, ?_⟩
            simp only [List.take, runeLen, if_neg ha, if_neg hb, if_neg hc, if_pos hd]
            rfl
          · omega

theorem cont_of_lead3 {a b : UInt8} (h : lead3 a b = true) : 0x80 ≤ a ∧ cont b = true := by
  simp only [lead3, cont, Bool.or_eq_true, Bool.and_eq_true, beq_iff_eq, decide_eq_true_eq,
    UInt8.le_iff_toNat_le, ← UInt8.toNat_inj] at h ⊢
  simp only [UInt8.reduceToNat] at h ⊢
  omega

theorem cont_of_lead4 {a b : UInt8} (h : lead4 a b = true) : 0x80 ≤ a ∧ cont b = true := by
  simp only [lead4, cont, Bool.or_eq_true, Bool.and_eq_true, beq_iff_eq, decide_eq_true_eq,
    UInt8.le_iff_toNat_le, ← UInt8.toNat_inj] at h ⊢
  simp only [UInt8.reduceToNat] at h ⊢
  omega

/-- A rune is one ASCII byte, or a byte above ASCII and continuation bytes. -/
theorem IsRune.cases {a : UInt8} {t : Bytes} (h : IsRune (a :: t)) :
    (a < 0x80 ∧ t = []) ∨ (0x80 ≤ a ∧ t ≠ [] ∧ ∀ b ∈ t, cont b = true) := by
  obtain ⟨-, hlen⟩ := h
  match t, hlen with
  | [], hlen =>
    rw [runeLen] at hlen
    split at hlen
    · exact Or.inl ⟨by assumption, rfl⟩
    · cases hlen
  | [b], hlen =>
    rw [runeLen] at hlen
    split at hlen
    · cases hlen
    · split at hlen
      · rename_i ha hb
        simp only [Bool.and_eq_true, decide_eq_true_eq] at hb
        exact Or.inr ⟨UInt8.not_lt.mp ha, by simp, by simpa using hb.2⟩
      · cases hlen
  | [b, c], hlen =>
    rw [runeLen] at hlen
    split at hlen
    · cases hlen
    · split at hlen
      · cases hlen
      · split at hlen
        · rename_i ha _ hc
          simp only [Bool.and_eq_true] at hc
          have h3 := cont_of_lead3 hc.1
          exact Or.inr ⟨h3.1, by simp, by simpa using ⟨h3.2, hc.2⟩⟩
        · cases hlen
  | b :: c :: d :: t, hlen =>
    rw [runeLen] at hlen
    simp only [List.length_cons] at hlen
    split at hlen
    · omega
    · split at hlen
      · omega
      · split at hlen
        · omega
        · split at hlen
          · rename_i hd
            simp only [Bool.and_eq_true] at hd
            have h4 := cont_of_lead4 hd.1.1
            have ht : t = [] := List.length_eq_zero_iff.mp (by omega)
            subst ht
            exact Or.inr ⟨h4.1, by simp, by simpa using ⟨h4.2, hd.1.2, hd.2⟩⟩
          · omega

/-! ### Cutting into runes -/

/-- The pieces after the first `skip` bytes. -/
def runesFrom : Nat → Bytes → List Bytes
  | _, [] => []
  | skip + 1, _ :: rest => runesFrom skip rest
  | 0, b :: rest =>
    (b :: rest).take (max 1 (runeLen (b :: rest))) :: runesFrom (runeLen (b :: rest) - 1) rest

/-- The encoded runes and single invalid bytes of a string. -/
def runes (s : Bytes) : List Bytes := runesFrom 0 s

/-- `utf8.ValidString`. -/
def valid (s : Bytes) : Bool := (runes s).all fun r => decide (IsRune r)

@[simp] theorem runes_nil : runes [] = [] := rfl

theorem runesFrom_eq_drop : ∀ (s : Bytes) (skip : Nat), runesFrom skip s = runes (s.drop skip) := by
  intro s
  induction s with
  | nil => intro skip; cases skip <;> rfl
  | cons b rest ih =>
    intro skip
    cases skip with
    | zero => rfl
    | succ n => rw [runesFrom, ih, List.drop_succ_cons]

theorem runes_cons (b : UInt8) (rest : Bytes) :
    runes (b :: rest) = (b :: rest).take (max 1 (runeLen (b :: rest))) ::
      runes (rest.drop (runeLen (b :: rest) - 1)) := by
  rw [runes, runesFrom, runesFrom_eq_drop]

/-- A rune in front is cut off whole. -/
theorem runes_rune_append {r : Bytes} (h : IsRune r) (rest : Bytes) :
    runes (r ++ rest) = r :: runes rest := by
  obtain ⟨b, t, rfl⟩ := List.exists_cons_of_ne_nil h.1
  have hlen := runeLen_append h rest
  rw [List.cons_append] at hlen ⊢
  have hmax : max 1 (b :: t).length = (b :: t).length := by simp
  rw [runes_cons, hlen, hmax, ← List.cons_append, List.take_left,
    show (b :: t).length - 1 = t.length by simp, List.drop_left]

theorem runes_flatten : ∀ {rs : List Bytes}, (∀ r ∈ rs, IsRune r) → runes rs.flatten = rs := by
  intro rs
  induction rs with
  | nil => intro _; rfl
  | cons r rs ih =>
    intro h
    rw [List.flatten_cons, runes_rune_append (h r (by simp)),
      ih (fun r' hr' => h r' (by simp [hr']))]

/-- Nothing is lost by the cut. -/
theorem flatten_runes : ∀ (s : Bytes), (runes s).flatten = s := by
  intro s
  induction hn : s.length using Nat.strong_induction_on generalizing s with
  | _ n ih =>
    cases s with
    | nil => rfl
    | cons b rest =>
      have hlt : (rest.drop (runeLen (b :: rest) - 1)).length < n := by
        subst hn
        simp only [List.length_drop, List.length_cons]
        omega
      rw [runes_cons, List.flatten_cons, ih _ hlt _ rfl]
      cases hk : runeLen (b :: rest) with
      | zero => simp
      | succ k => rw [show max 1 (k + 1) = k + 1 by omega]; simp

/-- A piece of the cut is a rune or a single byte. -/
theorem isRune_or_of_mem_runes : ∀ {s r : Bytes}, r ∈ runes s → IsRune r ∨ ∃ b, r = [b] := by
  intro s
  induction hn : s.length using Nat.strong_induction_on generalizing s with
  | _ n ih =>
    intro r hr
    cases s with
    | nil => cases hr
    | cons b rest =>
      rw [runes_cons, List.mem_cons] at hr
      rcases hr with rfl | hr
      · by_cases hk : 1 ≤ runeLen (b :: rest)
        · rw [Nat.max_eq_right hk]
          exact Or.inl (isRune_take hk)
        · rw [show max 1 (runeLen (b :: rest)) = 1 by omega]
          exact Or.inr ⟨b, rfl⟩
      · refine ih _ ?_ rfl hr
        subst hn
        simp only [List.length_drop, List.length_cons]
        omega

/-- A string is valid exactly when it is a sequence of encoded runes. -/
theorem valid_iff {s : Bytes} : valid s = true ↔ ∃ rs : List Bytes, (∀ r ∈ rs, IsRune r) ∧ rs.flatten = s := by
  unfold valid
  simp only [List.all_eq_true, decide_eq_true_eq]
  constructor
  · intro h; exact ⟨runes s, h, flatten_runes s⟩
  · rintro ⟨rs, hrs, rfl⟩
    rw [runes_flatten hrs]
    exact hrs

/-! ### White space -/

/-- The encoded runes of Unicode white space. -/
def spaceRunes : List Bytes :=
  [[0x09], [0x0A], [0x0B], [0x0C], [0x0D], [0x20], [0xC2, 0x85], [0xC2, 0xA0], [0xE1, 0x9A, 0x80],
    [0xE2, 0x80, 0x80], [0xE2, 0x80, 0x81], [0xE2, 0x80, 0x82], [0xE2, 0x80, 0x83],
    [0xE2, 0x80, 0x84], [0xE2, 0x80, 0x85], [0xE2, 0x80, 0x86], [0xE2, 0x80, 0x87],
    [0xE2, 0x80, 0x88], [0xE2, 0x80, 0x89], [0xE2, 0x80, 0x8A], [0xE2, 0x80, 0xA8],
    [0xE2, 0x80, 0xA9], [0xE2, 0x80, 0xAF], [0xE2, 0x81, 0x9F], [0xE3, 0x80, 0x80]]

/-- The text without the pieces of the list at its head, at most `fuel` of
them. -/
def trimLeft (pieces : List Bytes) : Nat → Bytes → Bytes
  | 0, s => s
  | fuel + 1, s =>
    match pieces.find? (·.isPrefixOf s) with
    | some piece => trimLeft pieces fuel (s.drop piece.length)
    | none => s

/-- `bytes.TrimSpace`. -/
def trimSpace (s : Bytes) : Bytes :=
  let front := trimLeft spaceRunes s.length s
  (trimLeft (spaceRunes.map List.reverse) front.length front.reverse).reverse

theorem trimLeft_suffix (pieces : List Bytes) : ∀ (fuel : Nat) (s : Bytes),
    trimLeft pieces fuel s <:+ s := by
  intro fuel
  induction fuel with
  | zero => intro s; exact List.suffix_refl s
  | succ fuel ih =>
    intro s
    rw [trimLeft]
    split
    · exact (ih _).trans (List.drop_suffix _ _)
    · exact List.suffix_refl s

/-- A byte no piece starts with ends the trimming. -/
theorem trimLeft_of_head {pieces : List Bytes} {b : UInt8}
    (h : ∀ piece ∈ pieces, ∃ c rest, piece = c :: rest ∧ c ≠ b) (fuel : Nat) (s : Bytes) :
    trimLeft pieces fuel (b :: s) = b :: s := by
  cases fuel with
  | zero => rfl
  | succ fuel =>
    have hnone : pieces.find? (·.isPrefixOf (b :: s)) = none := by
      rw [List.find?_eq_none]
      intro piece hp
      obtain ⟨c, rest, rfl, hc⟩ := h piece hp
      simp [List.isPrefixOf, hc]
    rw [trimLeft, hnone]

/-- The first bytes of white space, read from either end. -/
def isSpaceEnd (b : UInt8) : Bool :=
  (spaceRunes ++ spaceRunes.map List.reverse).any fun piece => piece.head? == some b

theorem head_ne_of_isSpaceEnd {b : UInt8} (h : isSpaceEnd b = false) :
    (∀ piece ∈ spaceRunes, ∃ c rest, piece = c :: rest ∧ c ≠ b) ∧
    ∀ piece ∈ spaceRunes.map List.reverse, ∃ c rest, piece = c :: rest ∧ c ≠ b := by
  have hall : ∀ piece ∈ spaceRunes ++ spaceRunes.map List.reverse,
      ∃ c rest, piece = c :: rest ∧ c ≠ b := by
    intro piece hp
    have hne : piece ≠ [] :=
      (by decide : ∀ piece ∈ spaceRunes ++ spaceRunes.map List.reverse, piece ≠ []) piece hp
    obtain ⟨c, rest, rfl⟩ := List.exists_cons_of_ne_nil hne
    refine ⟨c, rest, rfl, ?_⟩
    rintro rfl
    rw [isSpaceEnd, List.any_eq_false] at h
    exact h _ hp (by simp)
  exact ⟨fun piece hp => hall piece (List.mem_append_left _ hp),
    fun piece hp => hall piece (List.mem_append_right _ hp)⟩

/-- **A text that neither starts nor ends with white space is not trimmed.** -/
theorem trimSpace_of_ends {b c : UInt8} (hb : isSpaceEnd b = false) (hc : isSpaceEnd c = false)
    (s : Bytes) : trimSpace (b :: (s ++ [c])) = b :: (s ++ [c]) := by
  unfold trimSpace
  dsimp only
  rw [trimLeft_of_head (head_ne_of_isSpaceEnd hb).1]
  have hreverse : (b :: (s ++ [c])).reverse = c :: (b :: s).reverse := by
    rw [← List.cons_append, List.reverse_append]
    rfl
  rw [hreverse, trimLeft_of_head (head_ne_of_isSpaceEnd hc).2, ← hreverse, List.reverse_reverse]

/-- White space of one byte is trimmed. -/
theorem trimLeft_append : ∀ {l : Bytes}, (∀ b ∈ l, [b] ∈ spaceRunes) → ∀ {fuel : Nat} {s : Bytes},
    l.length ≤ fuel → trimLeft spaceRunes fuel (l ++ s) = trimLeft spaceRunes (fuel - l.length) s := by
  intro l
  induction l with
  | nil => intro _ fuel s _; rfl
  | cons b l ih =>
    intro h fuel s hf
    obtain ⟨fuel, rfl⟩ := Nat.exists_eq_succ_of_ne_zero
      (Nat.pos_iff_ne_zero.mp (Nat.lt_of_lt_of_le (Nat.succ_pos _) hf))
    have hfind : spaceRunes.find? (·.isPrefixOf (b :: (l ++ s))) = some [b] := by
      have hb := h b List.mem_cons_self
      simp only [spaceRunes, List.mem_cons, List.cons.injEq, and_true, List.not_mem_nil,
        or_false, reduceCtorEq, and_false] at hb
      rcases hb with rfl | rfl | rfl | rfl | rfl | rfl <;> rfl
    rw [List.cons_append, trimLeft, hfind]
    show trimLeft spaceRunes fuel (l ++ s) = _
    rw [ih (fun c hc => h c (List.mem_cons_of_mem _ hc))
      (Nat.le_of_succ_le_succ hf), List.length_cons, Nat.succ_sub_succ]

/-- The first byte of a trimmed text, when only white space of one byte stands in
front of a byte that is not white space. -/
theorem head?_trimSpace {l : Bytes} (hl : ∀ b ∈ l, [b] ∈ spaceRunes) {b : UInt8}
    (hb : isSpaceEnd b = false) {s : Bytes} (hne : trimSpace (l ++ b :: s) ≠ []) :
    (trimSpace (l ++ b :: s)).head? = some b := by
  have hfront : trimLeft spaceRunes (l ++ b :: s).length (l ++ b :: s) = b :: s := by
    rw [trimLeft_append hl (by rw [List.length_append]; omega),
      trimLeft_of_head (head_ne_of_isSpaceEnd hb).1]
  unfold trimSpace at hne ⊢
  dsimp only at hne ⊢
  rw [hfront] at hne ⊢
  obtain ⟨removed, hremoved⟩ :=
    trimLeft_suffix (spaceRunes.map List.reverse) (b :: s).length (b :: s).reverse
  have hsplit := congrArg List.reverse hremoved
  rw [List.reverse_append, List.reverse_reverse] at hsplit
  generalize (trimLeft (spaceRunes.map List.reverse) (b :: s).length (b :: s).reverse).reverse
    = kept at *
  obtain ⟨c, kept, rfl⟩ := List.exists_cons_of_ne_nil hne
  rw [List.cons_append] at hsplit
  rw [List.head?_cons, (List.cons.inj hsplit).1]

end Authorization.Foundation.Utf8
