import Authorization.Foundation.Json.Syntax

/-!
# Parsing JSON

A recursive descent parser.  The depth budget bounds how deep containers may be
nested; a container spends one unit for its items.  The fuel of the item loop is
the length of the input, and every item is at least one byte long.

`parseValue_print` and `parseValue_sound` make the parser the inverse of `print`
on the trees within the budget.  A number ends where the next byte cannot
continue one, so what follows a printed value must not start with a number byte.
-/

namespace Authorization.Foundation.Json

/-! ### White space -/

def skipSpace (s : Bytes) : Bytes := s.dropWhile isSpace

def takeSpace (s : Bytes) : Ws where
  bytes := s.takeWhile isSpace
  ok := List.all_takeWhile

theorem takeSpace_append_skipSpace (s : Bytes) : (takeSpace s).bytes ++ skipSpace s = s :=
  List.takeWhile_append_dropWhile

/-- The next byte is not white space. -/
def NotSpace (s : Bytes) : Prop := ∀ b ∈ s.head?, isSpace b = false

theorem skipSpace_append {w : Ws} {s : Bytes} (h : NotSpace s) : skipSpace (w.bytes ++ s) = s := by
  have hw : ∀ b ∈ w.bytes, isSpace b = true := List.all_eq_true.mp w.ok
  rw [skipSpace, List.dropWhile_append_of_pos hw]
  cases s with
  | nil => rfl
  | cons b s => exact List.dropWhile_cons_of_neg (by simpa using h b rfl)

theorem takeSpace_append {w : Ws} {s : Bytes} (h : NotSpace s) : takeSpace (w.bytes ++ s) = w := by
  have hw : ∀ b ∈ w.bytes, isSpace b = true := List.all_eq_true.mp w.ok
  have hbytes : (takeSpace (w.bytes ++ s)).bytes = w.bytes := by
    show (w.bytes ++ s).takeWhile isSpace = w.bytes
    rw [List.takeWhile_append_of_pos hw]
    cases s with
    | nil => simp
    | cons b s => rw [List.takeWhile_cons_of_neg (by simpa using h b rfl), List.append_nil]
  cases w
  simp only [takeSpace] at hbytes ⊢
  simp only [hbytes]

theorem notSpace_cons {b : UInt8} {s : Bytes} (h : isSpace b = false) : NotSpace (b :: s) := by
  intro c hc
  cases hc
  exact h

/-! ### Strings -/

/-- The body of a string and what follows its closing quote. -/
def scanBody : StrState → Bytes → Option (Bytes × Bytes)
  | _, [] => none
  | st, b :: rest =>
    if st = .plain ∧ b = 0x22 then some ([], rest)
    else (strNext st b).bind fun st' =>
      (scanBody st' rest).map fun found => (b :: found.1, found.2)

theorem strNext_quote : strNext .plain 0x22 = none := by decide

theorem scanBody_eq_some : ∀ {s : Bytes} {st : StrState} {body rest : Bytes},
    scanBody st s = some (body, rest) ↔
      strRun st body = some .plain ∧ s = body ++ 0x22 :: rest := by
  intro s
  induction s with
  | nil =>
    intro st body rest
    rw [scanBody]
    constructor
    · nofun
    · rintro ⟨_, h⟩; simp at h
  | cons b s ih =>
    intro st body rest
    rw [scanBody]
    by_cases hq : st = .plain ∧ b = 0x22
    · obtain ⟨rfl, rfl⟩ := hq
      rw [if_pos ⟨rfl, rfl⟩]
      constructor
      · intro h
        cases h
        exact ⟨rfl, rfl⟩
      · rintro ⟨hrun, hs⟩
        cases body with
        | nil => cases hs; rfl
        | cons c body =>
          rw [List.cons_append, List.cons.injEq] at hs
          rw [← hs.1, strRun, strNext_quote] at hrun
          cases hrun
    · rw [if_neg hq]
      constructor
      · intro h
        cases hnext : strNext st b with
        | none => rw [hnext] at h; cases h
        | some st' =>
          rw [hnext, Option.bind_some, Option.map_eq_some_iff] at h
          obtain ⟨⟨body', rest'⟩, hfound, he⟩ := h
          cases he
          obtain ⟨hrun, rfl⟩ := ih.mp hfound
          refine ⟨?_, rfl⟩
          rw [strRun, hnext, Option.bind_some]
          exact hrun
      · rintro ⟨hrun, hs⟩
        cases body with
        | nil =>
          rw [List.nil_append, List.cons.injEq] at hs
          rw [strRun, Option.some.injEq] at hrun
          exact absurd ⟨hrun, hs.1⟩ hq
        | cons c body =>
          rw [List.cons_append, List.cons.injEq] at hs
          obtain ⟨rfl, rfl⟩ := hs
          rw [strRun, Option.bind_eq_some_iff] at hrun
          obtain ⟨st', hnext, hrun⟩ := hrun
          rw [hnext, Option.bind_some, ih.mpr ⟨hrun, rfl⟩]
          rfl

/-- A string after its opening quote. -/
def parseBody (s : Bytes) : Option (Body × Bytes) :=
  match h : scanBody .plain s with
  | none => none
  | some found => some (⟨found.1, (scanBody_eq_some.mp h).1⟩, found.2)

theorem parseBody_eq_some {s rest : Bytes} {body : Body} :
    parseBody s = some (body, rest) ↔ s = body.bytes ++ 0x22 :: rest := by
  unfold parseBody
  constructor
  · intro h
    split at h
    · cases h
    · rename_i found hfound
      cases h
      exact (scanBody_eq_some.mp hfound).2
  · intro h
    have hscan : scanBody .plain s = some (body.bytes, rest) := scanBody_eq_some.mpr ⟨body.ok, h⟩
    split
    · rename_i hnone; rw [hscan] at hnone; cases hnone
    · rename_i found hfound
      rw [hscan] at hfound
      cases hfound
      rfl

/-! ### Numbers -/

/-- The longest run of number bytes the automaton takes. -/
def scanNum : NumState → Bytes → Option (Bytes × Bytes)
  | st, [] => if st.final then some ([], []) else none
  | st, b :: rest =>
    match numNext st b with
    | some st' => (scanNum st' rest).map fun found => (b :: found.1, found.2)
    | none => if st.final then some ([], b :: rest) else none

theorem scanNum_sound : ∀ {s : Bytes} {st : NumState} {text rest : Bytes},
    scanNum st s = some (text, rest) → numAccepts st text = true ∧ s = text ++ rest := by
  intro s
  induction s with
  | nil =>
    intro st text rest h
    rw [scanNum] at h
    split at h
    · rename_i hf; cases h; exact ⟨hf, rfl⟩
    · cases h
  | cons b s ih =>
    intro st text rest h
    rw [scanNum] at h
    split at h
    · rename_i st' hnext
      obtain ⟨⟨text', rest'⟩, hfound, he⟩ := Option.map_eq_some_iff.mp h
      cases he
      obtain ⟨hacc, rfl⟩ := ih hfound
      refine ⟨?_, rfl⟩
      rw [numAccepts, hnext]
      exact hacc
    · split at h
      · rename_i hf; cases h; exact ⟨hf, rfl⟩
      · cases h

/-- The next byte cannot continue a number. -/
def NotNum (s : Bytes) : Prop := ∀ b ∈ s.head?, isNumByte b = false

theorem numNext_eq_none {st : NumState} {b : UInt8} (h : isNumByte b = false) :
    numNext st b = none := by
  have h19 : isDigit19 b = true → isDigit b = true := by
    simp only [isDigit19, isDigit, Bool.and_eq_true, decide_eq_true_eq, UInt8.le_iff_toNat_le]
    intro hb
    have h1 : (0x31 : UInt8).toNat = 0x31 := rfl
    have h2 : (0x30 : UInt8).toNat = 0x30 := rfl
    omega
  have h30 : b = 0x30 → isDigit b = true := by rintro rfl; decide
  simp only [isNumByte, Bool.or_eq_false_iff, beq_eq_false_iff_ne, ne_eq] at h
  obtain ⟨⟨⟨⟨hd, hp⟩, he⟩, hplus⟩, hminus⟩ := h
  have h0 : b ≠ 0x30 := fun e => by simp [h30 e] at hd
  have h9 : isDigit19 b = false := by
    cases hc : isDigit19 b with
    | false => rfl
    | true => rw [h19 hc] at hd; cases hd
  cases st <;> simp [numNext, hd, hp, he, hplus, hminus, h0, h9]

theorem scanNum_append : ∀ {text : Bytes} {st : NumState} {rest : Bytes},
    numAccepts st text = true → NotNum rest → scanNum st (text ++ rest) = some (text, rest) := by
  intro text
  induction text with
  | nil =>
    intro st rest hacc hstop
    rw [numAccepts] at hacc
    cases rest with
    | nil => simp [scanNum, hacc]
    | cons b rest => simp [scanNum, numNext_eq_none (hstop b rfl), hacc]
  | cons b text ih =>
    intro st rest hacc hstop
    rw [numAccepts] at hacc
    cases hnext : numNext st b with
    | none => rw [hnext] at hacc; cases hacc
    | some st' =>
      rw [hnext] at hacc
      simp only [List.cons_append, scanNum, hnext, ih hacc hstop, Option.map_some]

def parseNum (s : Bytes) : Option (Num × Bytes) :=
  match h : scanNum .start s with
  | none => none
  | some found => some (⟨found.1, (scanNum_sound h).1⟩, found.2)

theorem parseNum_sound {s rest : Bytes} {text : Num} (h : parseNum s = some (text, rest)) :
    s = text.bytes ++ rest := by
  unfold parseNum at h
  split at h
  · cases h
  · rename_i found hfound
    cases h
    exact (scanNum_sound hfound).2

theorem parseNum_append (text : Num) {rest : Bytes} (h : NotNum rest) :
    parseNum (text.bytes ++ rest) = some (text, rest) := by
  have hscan := scanNum_append text.ok h
  unfold parseNum
  split
  · rename_i hnone; rw [hscan] at hnone; cases hnone
  · rename_i found hfound
    rw [hscan] at hfound
    cases hfound
    rfl

/-! ### The parser -/

/-- The rest after a literal. -/
def stripLit (lit s : Bytes) : Option Bytes :=
  if lit.isPrefixOf s then some (s.drop lit.length) else none

theorem stripLit_sound {lit s rest : Bytes} (h : stripLit lit s = some rest) : s = lit ++ rest := by
  unfold stripLit at h
  split at h
  · rename_i hp
    obtain ⟨t, rfl⟩ := List.isPrefixOf_iff_prefix.mp hp
    rw [List.drop_left] at h
    cases h
    rfl
  · cases h

def parseLabel : (kind : Kind) → Bytes → Option (Label kind × Bytes)
  | .arr, s => some (.elem (takeSpace s), skipSpace s)
  | .obj, s =>
    (expect 0x22 (skipSpace s)).bind fun s₁ =>
    (parseBody s₁).bind fun key =>
    (expect 0x3A (skipSpace key.2)).bind fun s₂ =>
      some (.member (takeSpace s) key.1 (takeSpace key.2) (takeSpace s₂), skipSpace s₂)

section Items

variable {kind : Kind} (parse : Bytes → Option (Tree × Bytes))

/-- The items of a container up to its closing bracket. -/
def parseItems : Nat → Bytes → Option (Items kind × Bytes)
  | 0, _ => none
  | fuel + 1, s =>
    (parseLabel kind s).bind fun label =>
    (parse label.2).bind fun value =>
      match skipSpace value.2 with
      | [] => none
      | b :: s' =>
        if b = 0x2C then
          (parseItems fuel s').map fun found =>
            (.cons label.1 value.1 (takeSpace value.2) found.1, found.2)
        else if b = kind.closing then some (.last label.1 value.1 (takeSpace value.2), s')
        else none

end Items

/-- A container after its opening bracket. -/
def parseContainer (parse : Bytes → Option (Tree × Bytes)) (kind : Kind) (s : Bytes) :
    Option (Tree × Bytes) :=
  match expect kind.closing (skipSpace s) with
  | some rest => some (.empty kind (takeSpace s), rest)
  | none => (parseItems parse s.length s).map fun found => (.node kind found.1, found.2)

/-- A value, with the parser of containers given. -/
def parseWith (container : Kind → Bytes → Option (Tree × Bytes)) : Bytes → Option (Tree × Bytes)
  | [] => none
  | b :: rest =>
    if b = 0x22 then (parseBody rest).map fun found => (.str found.1, found.2)
    else if b = Kind.obj.opening then container .obj rest
    else if b = Kind.arr.opening then container .arr rest
    else
      match stripLit litNull (b :: rest) with
      | some rest => some (.null, rest)
      | none =>
        match stripLit litTrue (b :: rest) with
        | some rest => some (.bool true, rest)
        | none =>
          match stripLit litFalse (b :: rest) with
          | some rest => some (.bool false, rest)
          | none => (parseNum (b :: rest)).map fun found => (.num found.1, found.2)

/-- A value whose containers are nested at most `depth` deep. -/
def parseValue : Nat → Bytes → Option (Tree × Bytes)
  | 0 => parseWith fun _ _ => none
  | depth + 1 => parseWith (parseContainer (parseValue depth))

/-! ### Soundness -/

theorem parseLabel_sound : ∀ {kind : Kind} {s rest : Bytes} {label : Label kind},
    parseLabel kind s = some (label, rest) → s = label.print ++ rest := by
  intro kind s rest label h
  cases kind with
  | arr =>
    cases h
    exact (takeSpace_append_skipSpace s).symm
  | obj =>
    rw [parseLabel, Option.bind_eq_some_iff] at h
    obtain ⟨s₁, hquote, h⟩ := h
    rw [Option.bind_eq_some_iff] at h
    obtain ⟨⟨key, s₂⟩, hkey, h⟩ := h
    rw [Option.bind_eq_some_iff] at h
    obtain ⟨s₃, hcolon, h⟩ := h
    cases h
    have h1 := takeSpace_append_skipSpace s
    have h2 := takeSpace_append_skipSpace s₂
    rw [expect_eq_some.mp hquote, parseBody_eq_some.mp hkey] at h1
    rw [expect_eq_some.mp hcolon] at h2
    have h3 := takeSpace_append_skipSpace s₃
    generalize takeSpace s = before at h1 ⊢
    dsimp only
    generalize takeSpace s₂ = colon at h2 ⊢
    rw [← h1, ← h2, Label.print, Body.print]
    simp only [List.append_assoc, List.cons_append, List.nil_append, h3]

theorem parseItems_sound {parse : Bytes → Option (Tree × Bytes)} {depth : Nat} {kind : Kind}
    (hparse : ∀ {s t rest}, parse s = some (t, rest) → s = t.print ++ rest ∧ t.depth ≤ depth) :
    ∀ {fuel : Nat} {s rest : Bytes} {items : Items kind},
      parseItems parse fuel s = some (items, rest) →
        s = items.print ++ rest ∧ items.depth ≤ depth := by
  intro fuel
  induction fuel with
  | zero => intro s rest items h; cases h
  | succ fuel ih =>
    intro s rest items h
    rw [parseItems, Option.bind_eq_some_iff] at h
    obtain ⟨⟨label, s₁⟩, hlabel, h⟩ := h
    rw [Option.bind_eq_some_iff] at h
    obtain ⟨⟨value, s₂⟩, hvalue, h⟩ := h
    have hs := parseLabel_sound hlabel
    obtain ⟨hv, hd⟩ := hparse hvalue
    have hsplit := takeSpace_append_skipSpace s₂
    simp only at hv h
    generalize takeSpace s₂ = after at h hsplit
    split at h
    · cases h
    · rename_i b s₃ hskip
      rw [hskip] at hsplit
      split at h
      · rename_i hb
        obtain ⟨⟨more, rest'⟩, hmore, he⟩ := Option.map_eq_some_iff.mp h
        cases he
        obtain ⟨hs₃, hdm⟩ := ih hmore
        refine ⟨?_, by rw [Items.depth]; exact Nat.max_le.mpr ⟨hd, hdm⟩⟩
        rw [hs, hv, ← hsplit, hs₃, hb, Items.print]
        simp only [List.append_assoc, List.cons_append]
      · split at h
        · rename_i hb
          cases h
          refine ⟨?_, by rw [Items.depth]; exact hd⟩
          rw [hs, hv, ← hsplit, hb, Items.print]
          simp only [List.append_assoc, List.cons_append, List.nil_append]
        · cases h

theorem parseContainer_sound {parse : Bytes → Option (Tree × Bytes)} {depth : Nat}
    (hparse : ∀ {s t rest}, parse s = some (t, rest) → s = t.print ++ rest ∧ t.depth ≤ depth)
    {kind : Kind} {s rest : Bytes} {t : Tree} (h : parseContainer parse kind s = some (t, rest)) :
    kind.opening :: s = t.print ++ rest ∧ t.depth ≤ depth + 1 := by
  unfold parseContainer at h
  split at h
  · rename_i hclose
    cases h
    refine ⟨?_, by rw [Tree.depth]; omega⟩
    have hsplit := takeSpace_append_skipSpace s
    rw [expect_eq_some.mp hclose] at hsplit
    rw [Tree.print, List.cons_append, List.append_assoc]
    exact congrArg _ hsplit.symm
  · obtain ⟨⟨items, rest'⟩, hitems, he⟩ := Option.map_eq_some_iff.mp h
    cases he
    obtain ⟨hs, hd⟩ := parseItems_sound hparse hitems
    exact ⟨by rw [Tree.print, List.cons_append, ← hs], by rw [Tree.depth]; dsimp only; omega⟩

theorem parseWith_sound {container : Kind → Bytes → Option (Tree × Bytes)} {depth : Nat}
    (hcontainer : ∀ {kind s t rest}, container kind s = some (t, rest) →
      kind.opening :: s = t.print ++ rest ∧ t.depth ≤ depth)
    {s rest : Bytes} {t : Tree} (h : parseWith container s = some (t, rest)) :
    s = t.print ++ rest ∧ t.depth ≤ depth := by
  cases s with
  | nil => cases h
  | cons b s =>
    rw [parseWith] at h
    split at h
    · rename_i hb
      obtain ⟨⟨body, rest'⟩, hbody, he⟩ := Option.map_eq_some_iff.mp h
      cases he
      refine ⟨?_, Nat.zero_le _⟩
      rw [hb, parseBody_eq_some.mp hbody, Tree.print, Body.print]
      simp only [List.append_assoc, List.cons_append, List.nil_append]
    · split at h
      · rename_i hb; rw [hb]; exact hcontainer h
      · split at h
        · rename_i hb; rw [hb]; exact hcontainer h
        · split at h
          · rename_i hlit
            cases h
            exact ⟨stripLit_sound hlit, Nat.zero_le _⟩
          · split at h
            · rename_i hlit
              cases h
              exact ⟨stripLit_sound hlit, Nat.zero_le _⟩
            · split at h
              · rename_i hlit
                cases h
                exact ⟨stripLit_sound hlit, Nat.zero_le _⟩
              · obtain ⟨⟨text, rest'⟩, htext, he⟩ := Option.map_eq_some_iff.mp h
                cases he
                exact ⟨parseNum_sound htext, Nat.zero_le _⟩

/-- **What the parser returns prints to what it read**, within the budget. -/
theorem parseValue_sound : ∀ {depth : Nat} {s rest : Bytes} {t : Tree},
    parseValue depth s = some (t, rest) → s = t.print ++ rest ∧ t.depth ≤ depth := by
  intro depth
  induction depth with
  | zero => intro s rest t h; exact parseWith_sound (fun hc => by cases hc) h
  | succ depth ih => intro s rest t h; exact parseWith_sound (parseContainer_sound ih) h

/-! ### Completeness -/

/-- The bytes a value can start with. -/
def isValueStart (b : UInt8) : Bool :=
  b == 0x22 || b == 0x7B || b == 0x5B || b == 0x6E || b == 0x74 || b == 0x66 || b == 0x2D ||
    isDigit b

theorem isValueStart_num (text : Num) : ∃ b rest, text.bytes = b :: rest ∧
    (b == 0x2D || isDigit b) = true := by
  obtain ⟨bytes, ok⟩ := text
  cases bytes with
  | nil => cases ok
  | cons b rest =>
    refine ⟨b, rest, rfl, ?_⟩
    by_contra hb
    simp only [Bool.or_eq_true, beq_iff_eq, not_or, Bool.not_eq_true] at hb
    have h0 : b ≠ 0x30 := by rintro rfl; exact absurd hb.2 (by decide)
    have h19 : isDigit19 b = false := by
      cases hc : isDigit19 b with
      | false => rfl
      | true =>
        have hd : isDigit b = true := by
          simp only [isDigit19, isDigit, Bool.and_eq_true, decide_eq_true_eq,
            UInt8.le_iff_toNat_le] at hc ⊢
          have h1 : (0x31 : UInt8).toNat = 0x31 := rfl
          have h2 : (0x30 : UInt8).toNat = 0x30 := rfl
          omega
        rw [hd] at hb
        cases hb.2
    simp [numAccepts, numNext, hb.1, h0, h19] at ok

theorem exists_print_eq_cons (t : Tree) :
    ∃ b rest, t.print = b :: rest ∧ isValueStart b = true := by
  cases t with
  | null => exact ⟨_, _, rfl, by decide⟩
  | bool value => cases value <;> exact ⟨_, _, rfl, by decide⟩
  | num text =>
    obtain ⟨b, rest, he, hb⟩ := isValueStart_num text
    refine ⟨b, rest, he, ?_⟩
    simp only [Bool.or_eq_true] at hb
    unfold isValueStart
    rcases hb with hb | hb <;> simp [hb]
  | str body => exact ⟨_, _, rfl, by decide⟩
  | empty kind inner => cases kind <;> exact ⟨_, _, rfl, by decide⟩
  | node kind items => cases kind <;> exact ⟨_, _, rfl, by decide⟩

theorem isValueStart_ne {b c : UInt8} (h : isValueStart b = true) (hc : isValueStart c = false) :
    b ≠ c := by
  rintro rfl
  rw [h] at hc
  cases hc

theorem isSpace_of_isValueStart {b : UInt8} (h : isValueStart b = true) : isSpace b = false := by
  have h20 := isValueStart_ne h (c := 0x20) (by decide)
  have h09 := isValueStart_ne h (c := 0x09) (by decide)
  have h0A := isValueStart_ne h (c := 0x0A) (by decide)
  have h0D := isValueStart_ne h (c := 0x0D) (by decide)
  simp [isSpace, h20, h09, h0A, h0D]

theorem notSpace_print (t : Tree) (rest : Bytes) : NotSpace (t.print ++ rest) := by
  obtain ⟨b, tail, he, hb⟩ := exists_print_eq_cons t
  rw [he]
  exact notSpace_cons (isSpace_of_isValueStart hb)

theorem parseLabel_print : ∀ {kind : Kind} (label : Label kind) {rest : Bytes}, NotSpace rest →
    parseLabel kind (label.print ++ rest) = some (label, rest) := by
  intro kind label rest h
  cases label with
  | elem before => rw [Label.print, parseLabel, takeSpace_append h, skipSpace_append h]
  | member before key colon value =>
    have hquote : ∀ tail, NotSpace (0x22 :: tail) := fun tail => notSpace_cons (by decide)
    have hcolon : ∀ tail, NotSpace (0x3A :: tail) := fun tail => notSpace_cons (by decide)
    rw [Label.print, Body.print, parseLabel]
    simp only [List.append_assoc, List.cons_append, List.nil_append]
    rw [skipSpace_append (hquote _), takeSpace_append (hquote _), expect_cons_self,
      Option.bind_some, parseBody_eq_some.mpr rfl, Option.bind_some]
    dsimp only
    rw [skipSpace_append (hcolon _), takeSpace_append (hcolon _), expect_cons_self,
      Option.bind_some, skipSpace_append h, takeSpace_append h]

theorem notNum_after (after : Ws) {b : UInt8} (hb : isNumByte b = false) (rest : Bytes) :
    NotNum (after.bytes ++ b :: rest) := by
  intro c hc
  cases hbytes : after.bytes with
  | nil =>
    rw [hbytes] at hc
    cases hc
    exact hb
  | cons d tail =>
    rw [hbytes, List.cons_append, List.head?_cons, Option.mem_some_iff] at hc
    rw [← hc]
    have hspace : isSpace d = true :=
      List.all_eq_true.mp after.ok d (by rw [hbytes]; exact List.mem_cons_self)
    simp only [isSpace, Bool.or_eq_true, beq_iff_eq] at hspace
    rcases hspace with ((rfl | rfl) | rfl) | rfl <;> decide

theorem Kind.closing_facts (kind : Kind) : isNumByte kind.closing = false ∧
    isSpace kind.closing = false ∧ kind.closing ≠ 0x2C := by
  cases kind <;> decide

/-- A non-empty container does not start with its closing bracket. -/
theorem expect_closing_print {kind : Kind} (label : Label kind) (t : Tree) (rest : Bytes) :
    expect kind.closing (skipSpace (label.print ++ (t.print ++ rest))) = none := by
  cases label with
  | elem before =>
    rw [Label.print, skipSpace_append (notSpace_print t rest)]
    obtain ⟨b, tail, he, hb⟩ := exists_print_eq_cons t
    rw [he, List.cons_append, expect, if_neg (isValueStart_ne hb (by decide))]
  | member before key colon value =>
    rw [Label.print, Body.print]
    simp only [List.append_assoc, List.cons_append]
    rw [skipSpace_append (notSpace_cons (by decide)), expect, if_neg (by decide)]

theorem Items.count_le_length : ∀ {kind : Kind} (items : Items kind),
    items.count ≤ items.print.length
  | _, .last label value after => by
    rw [Items.count, Items.print]
    simp only [List.length_append, List.length_cons, List.length_nil]
    omega
  | _, .cons label value after rest => by
    have ih := Items.count_le_length rest
    rw [Items.count, Items.print]
    simp only [List.length_append, List.length_cons]
    omega

theorem parseContainer_node {parse : Bytes → Option (Tree × Bytes)} {kind : Kind}
    {items : Items kind} {rest : Bytes}
    (hclose : expect kind.closing (skipSpace (items.print ++ rest)) = none)
    (hitems : ∀ fuel, items.count ≤ fuel →
      parseItems parse fuel (items.print ++ rest) = some (items, rest)) :
    parseContainer parse kind (items.print ++ rest) = some (.node kind items, rest) := by
  have hfuel : items.count ≤ (items.print ++ rest).length := by
    have := items.count_le_length
    rw [List.length_append]
    omega
  rw [parseContainer, hclose, hitems _ hfuel]
  rfl

theorem parseContainer_empty (parse : Bytes → Option (Tree × Bytes)) (kind : Kind) (inner : Ws)
    (rest : Bytes) :
    parseContainer parse kind (inner.bytes ++ kind.closing :: rest)
      = some (.empty kind inner, rest) := by
  have hspace : NotSpace (kind.closing :: rest) := notSpace_cons kind.closing_facts.2.1
  rw [parseContainer, skipSpace_append hspace, expect_cons_self, takeSpace_append hspace]

theorem parseWith_opening (container : Kind → Bytes → Option (Tree × Bytes)) (kind : Kind)
    (s : Bytes) : parseWith container (kind.opening :: s) = container kind s := by
  cases kind <;> rfl

theorem parseWith_num {container : Kind → Bytes → Option (Tree × Bytes)} {text : Num}
    {rest : Bytes} (h : NotNum rest) :
    parseWith container (text.bytes ++ rest) = some (.num text, rest) := by
  obtain ⟨b, tail, he, hb⟩ := isValueStart_num text
  have hne : ∀ c : UInt8, (c == 0x2D || isDigit c) = false → b ≠ c := by
    rintro c hc rfl
    rw [hb] at hc
    cases hc
  have hlit : ∀ (c : UInt8) (lit : Bytes), (c == 0x2D || isDigit c) = false →
      stripLit (c :: lit) (b :: (tail ++ rest)) = none := by
    intro c lit hc
    rw [stripLit, if_neg]
    intro hp
    obtain ⟨t, ht⟩ := List.isPrefixOf_iff_prefix.mp hp
    rw [List.cons_append, List.cons.injEq] at ht
    exact hne c hc ht.1.symm
  have hnum := parseNum_append text h
  rw [he, List.cons_append] at hnum ⊢
  rw [parseWith, if_neg (hne _ (by decide)), if_neg (hne _ (by decide)), if_neg (hne _ (by decide)),
    litNull, litTrue, litFalse, hlit _ _ (by decide), hlit _ _ (by decide), hlit _ _ (by decide)]
  dsimp only
  rw [hnum]
  rfl

mutual

/-- **A printed tree within the budget is parsed back.** -/
theorem parseValue_print : ∀ (t : Tree) {depth : Nat} {rest : Bytes}, t.depth ≤ depth →
    NotNum rest → parseValue depth (t.print ++ rest) = some (t, rest)
  | .null, depth, rest, _, _ => by cases depth <;> rfl
  | .bool true, depth, rest, _, _ => by cases depth <;> rfl
  | .bool false, depth, rest, _, _ => by cases depth <;> rfl
  | .num text, depth, rest, _, hstop => by
    cases depth <;> exact parseWith_num hstop
  | .str body, depth, rest, _, _ => by
    have hbody : parseBody (body.bytes ++ 0x22 :: rest) = some (body, rest) :=
      parseBody_eq_some.mpr rfl
    have hprint : Tree.print (.str body) ++ rest = 0x22 :: (body.bytes ++ 0x22 :: rest) := by
      rw [Tree.print, Body.print]
      simp only [List.append_assoc, List.cons_append, List.nil_append]
    rw [hprint]
    cases depth <;> simp only [parseValue, parseWith, if_true, hbody] <;> rfl
  | .empty kind inner, 0, rest, hd, _ => by
    rw [Tree.depth] at hd
    omega
  | .empty kind inner, depth + 1, rest, _, _ => by
    rw [Tree.print, List.cons_append, List.append_assoc, parseValue, parseWith_opening]
    exact parseContainer_empty _ kind inner rest
  | .node kind items, 0, rest, hd, _ => by
    rw [Tree.depth] at hd
    omega
  | .node kind items, depth + 1, rest, hd, _ => by
    rw [Tree.depth] at hd
    rw [Tree.print, List.cons_append, parseValue, parseWith_opening]
    refine parseContainer_node ?_ (fun fuel hf => parseItems_print items (by omega) hf)
    cases items with
    | last label value after =>
      rw [Items.print]
      simp only [List.append_assoc]
      exact expect_closing_print label value _
    | cons label value after more =>
      rw [Items.print]
      simp only [List.append_assoc]
      exact expect_closing_print label value _

theorem parseItems_print : ∀ {kind : Kind} (items : Items kind) {depth fuel : Nat} {rest : Bytes},
    items.depth ≤ depth → items.count ≤ fuel →
    parseItems (parseValue depth) fuel (items.print ++ rest) = some (items, rest)
  | kind, .last label value after, depth, 0, rest, _, hf => by
    rw [Items.count] at hf
    omega
  | kind, .last label value after, depth, fuel + 1, rest, hd, hf => by
    rw [Items.depth] at hd
    obtain ⟨hnum, hspace, hcomma⟩ := kind.closing_facts
    rw [Items.print, parseItems]
    simp only [List.append_assoc, List.cons_append, List.nil_append]
    rw [parseLabel_print label (notSpace_print value _), Option.bind_some]
    dsimp only
    rw [parseValue_print value hd (notNum_after after hnum rest), Option.bind_some]
    dsimp only
    rw [skipSpace_append (notSpace_cons hspace), takeSpace_append (notSpace_cons hspace)]
    dsimp only
    rw [if_neg hcomma, if_pos rfl]
  | kind, .cons label value after more, depth, 0, rest, _, hf => by
    rw [Items.count] at hf
    omega
  | kind, .cons label value after more, depth, fuel + 1, rest, hd, hf => by
    rw [Items.depth] at hd
    rw [Items.count] at hf
    have hcomma : isSpace 0x2C = false := by decide
    rw [Items.print, parseItems]
    simp only [List.append_assoc, List.cons_append]
    rw [parseLabel_print label (notSpace_print value _), Option.bind_some]
    dsimp only
    rw [parseValue_print value (by omega) (notNum_after after (by decide) _), Option.bind_some]
    dsimp only
    rw [skipSpace_append (notSpace_cons hcomma), takeSpace_append (notSpace_cons hcomma)]
    dsimp only
    rw [if_pos rfl, parseItems_print more (by omega) (by omega)]
    rfl

end

/-! ### Whole texts -/

/-- The nesting limit of the decoder. -/
def maxDepth : Nat := 10000

/-- A value with white space around it and nothing else. -/
def parseText (s : Bytes) : Option Tree :=
  match parseValue maxDepth (skipSpace s) with
  | some (t, rest) => if rest.all isSpace then some t else none
  | none => none

/-- `json.Valid`. -/
def valid (s : Bytes) : Bool := (parseText s).isSome

theorem Ws.notNum (w : Ws) : NotNum w.bytes := by
  intro b hb
  have hmem : b ∈ w.bytes := List.mem_of_mem_head? hb
  have hspace : isSpace b = true := List.all_eq_true.mp w.ok b hmem
  simp only [isSpace, Bool.or_eq_true, beq_iff_eq] at hspace
  rcases hspace with ((rfl | rfl) | rfl) | rfl <;> decide

/-- **The texts of a tree** are its print in white space. -/
theorem parseText_eq_some {s : Bytes} {t : Tree} :
    parseText s = some t ↔
      t.depth ≤ maxDepth ∧ ∃ before after : Ws, s = before.bytes ++ (t.print ++ after.bytes) := by
  unfold parseText
  constructor
  · intro h
    cases hp : parseValue maxDepth (skipSpace s) with
    | none => rw [hp] at h; cases h
    | some found =>
      obtain ⟨t', rest⟩ := found
      rw [hp] at h
      dsimp only at h
      split at h
      · rename_i hrest
        cases h
        obtain ⟨hs, hd⟩ := parseValue_sound hp
        refine ⟨hd, takeSpace s, ⟨rest, hrest⟩, ?_⟩
        have hsplit := takeSpace_append_skipSpace s
        rw [hs] at hsplit
        exact hsplit.symm
      · cases h
  · rintro ⟨hd, before, after, rfl⟩
    rw [skipSpace_append (notSpace_print t _), parseValue_print t hd after.notNum]
    dsimp only
    rw [if_pos after.ok]

end Authorization.Foundation.Json
