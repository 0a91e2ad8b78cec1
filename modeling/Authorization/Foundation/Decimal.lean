import Mathlib
import Authorization.Foundation.Bytes

/-!
# Decimal texts

`padded width n` writes the last `width` decimal digits of `n`; a number is
written with as many digits as it has.  `parseDigits` reads digits back, so
`parseDigits_padded` is the round trip of every decimal text of the
development: revisions, priorities and the fields of a date.
-/

namespace Authorization.Foundation

/-- An ASCII digit. -/
def isDigit (b : UInt8) : Bool := 0x30 ≤ b && b ≤ 0x39

/-- The ASCII digit of `n % 10`. -/
def digit (n : Nat) : UInt8 := UInt8.ofNat (0x30 + n % 10)

theorem toNat_digit (n : Nat) : (digit n).toNat = 0x30 + n % 10 := by
  rw [digit, UInt8.toNat_ofNat']
  omega

theorem isDigit_iff {b : UInt8} : isDigit b = true ↔ 0x30 ≤ b.toNat ∧ b.toNat ≤ 0x39 := by
  rw [isDigit, Bool.and_eq_true, decide_eq_true_eq, decide_eq_true_eq, UInt8.le_iff_toNat_le,
    UInt8.le_iff_toNat_le]
  rfl

@[simp] theorem isDigit_digit (n : Nat) : isDigit (digit n) = true := by
  rw [isDigit_iff, toNat_digit]
  omega

/-- The last `width` digits of `n`. -/
def padded : Nat → Nat → Bytes
  | 0, _ => []
  | width + 1, n => padded width (n / 10) ++ [digit n]

/-- The number a text of digits continues `acc` with. -/
def parseDigits : Nat → Bytes → Option Nat
  | acc, [] => some acc
  | acc, b :: rest => if isDigit b then parseDigits (acc * 10 + (b.toNat - 0x30)) rest else none

@[simp] theorem length_padded : ∀ (width n : Nat), (padded width n).length = width := by
  intro width
  induction width with
  | zero => intro n; rfl
  | succ width ih => intro n; rw [padded, List.length_append, ih]; rfl

theorem isDigit_of_mem_padded : ∀ {width n : Nat} {b : UInt8}, b ∈ padded width n →
    isDigit b = true := by
  intro width
  induction width with
  | zero => intro n b h; cases h
  | succ width ih =>
    intro n b h
    rcases List.mem_append.mp h with h | h
    · exact ih h
    · rw [List.mem_singleton.mp h]
      exact isDigit_digit n

theorem parseDigits_append : ∀ (l l' : Bytes) (acc : Nat),
    parseDigits acc (l ++ l') = (parseDigits acc l).bind fun n => parseDigits n l' := by
  intro l l'
  induction l with
  | nil => intro acc; rfl
  | cons b l ih =>
    intro acc
    rw [List.cons_append, parseDigits, parseDigits]
    by_cases hb : isDigit b
    · rw [if_pos hb, if_pos hb, ih]
    · rw [if_neg hb, if_neg hb]
      rfl

/-- **Reading back what was written.** -/
theorem parseDigits_padded : ∀ (width n acc : Nat),
    parseDigits acc (padded width n) = some (acc * 10 ^ width + n % 10 ^ width) := by
  intro width
  induction width with
  | zero => intro n acc; simp [padded, parseDigits, Nat.mod_one]
  | succ width ih =>
    intro n acc
    have hstep : ∀ m, parseDigits m [digit n] = some (m * 10 + n % 10) := by
      intro m
      rw [parseDigits, if_pos (isDigit_digit n), toNat_digit, Nat.add_sub_cancel_left, parseDigits]
    have hmod : n % 10 ^ (width + 1) = n / 10 % 10 ^ width * 10 + n % 10 := by
      rw [pow_succ', Nat.mod_mul, Nat.mul_comm, Nat.add_comm]
    have hmul : acc * 10 ^ (width + 1) = acc * 10 ^ width * 10 := by ring
    rw [padded, parseDigits_append, ih, Option.bind_some, hstep, hmod, hmul]
    congr 1
    ring

/-! ### Numbers of any size -/

/-- How many digits `n` has, if `fuel` are enough. -/
def digitCountAux : Nat → Nat → Nat
  | 0, _ => 1
  | fuel + 1, n => if n < 10 then 1 else digitCountAux fuel (n / 10) + 1

def digitCount (n : Nat) : Nat := digitCountAux n.log2 n

/-- `strconv.FormatUint(n, 10)`. -/
def formatNat (n : Nat) : Bytes := padded (digitCount n) n

/-- Digits only, at least one. -/
def parseNat (s : Bytes) : Option Nat := if s = [] then none else parseDigits 0 s

theorem digitCountAux_pos (fuel n : Nat) : 0 < digitCountAux fuel n := by
  cases fuel with
  | zero => exact Nat.one_pos
  | succ fuel => rw [digitCountAux]; split <;> omega

theorem lt_pow_digitCountAux : ∀ (fuel n : Nat), n < 10 ^ (fuel + 1) →
    n < 10 ^ digitCountAux fuel n := by
  intro fuel
  induction fuel with
  | zero => intro n h; exact h
  | succ fuel ih =>
    intro n h
    rw [digitCountAux]
    by_cases hn : n < 10
    · rw [if_pos hn]; omega
    · rw [if_neg hn]
      have hdiv : n / 10 < 10 ^ digitCountAux fuel (n / 10) := by
        apply ih
        rw [pow_succ] at h
        exact Nat.div_lt_of_lt_mul (by omega)
      rw [pow_succ]
      omega

theorem lt_pow_log2 (n : Nat) : n < 10 ^ (n.log2 + 1) :=
  calc n < 2 ^ (n.log2 + 1) := Nat.lt_log2_self
    _ ≤ 10 ^ (n.log2 + 1) := Nat.pow_le_pow_left (by omega) _

theorem lt_pow_digitCount (n : Nat) : n < 10 ^ digitCount n :=
  lt_pow_digitCountAux _ _ (lt_pow_log2 n)

theorem formatNat_ne_nil (n : Nat) : formatNat n ≠ [] := by
  intro h
  have hlen := congrArg List.length h
  rw [formatNat, length_padded] at hlen
  exact absurd hlen (Nat.pos_iff_ne_zero.mp (digitCountAux_pos _ _))

@[simp] theorem parseNat_formatNat (n : Nat) : parseNat (formatNat n) = some n := by
  rw [parseNat, if_neg (formatNat_ne_nil n), formatNat, parseDigits_padded, Nat.zero_mul,
    Nat.zero_add, Nat.mod_eq_of_lt (lt_pow_digitCount n)]

/-! ### Machine integers -/

/-- `strconv.FormatUint(n, 10)`. -/
def formatUint (n : UInt64) : Bytes := formatNat n.toNat

/-- `strconv.ParseUint(s, 10, 64)`; a value out of range is an error. -/
def parseUint (s : Bytes) : Option UInt64 :=
  (parseNat s).bind fun n => if n < 2 ^ 64 then some (UInt64.ofNat n) else none

/-- **A 64-bit number is read back from its text.** -/
@[simp] theorem parseUint_formatUint (n : UInt64) : parseUint (formatUint n) = some n := by
  rw [parseUint, formatUint, parseNat_formatNat, Option.bind_some, if_pos n.toNat_lt,
    UInt64.ofNat_toNat]

theorem formatUint_injective {m n : UInt64} (h : formatUint m = formatUint n) : m = n := by
  have hparse := congrArg parseUint h
  rw [parseUint_formatUint, parseUint_formatUint] at hparse
  exact Option.some.inj hparse

/-- `strconv.FormatInt(n, 10)`. -/
def formatInt (n : Int64) : Bytes :=
  if n.toInt < 0 then 0x2D :: formatNat n.toInt.natAbs else formatNat n.toInt.natAbs

/-- `strconv.ParseInt(s, 10, 64)`. -/
def parseInt (s : Bytes) : Option Int64 :=
  match s with
  | 0x2D :: rest =>
    (parseNat rest).bind fun n => if n ≤ 2 ^ 63 then some (Int64.ofInt (-n)) else none
  | 0x2B :: rest =>
    (parseNat rest).bind fun n => if n < 2 ^ 63 then some (Int64.ofInt n) else none
  | s => (parseNat s).bind fun n => if n < 2 ^ 63 then some (Int64.ofInt n) else none

/-- A text of digits has no sign. -/
theorem parseInt_formatNat (n : Nat) :
    parseInt (formatNat n) = if n < 2 ^ 63 then some (Int64.ofInt n) else none := by
  obtain ⟨b, rest, hb⟩ := List.exists_cons_of_ne_nil (formatNat_ne_nil n)
  have hmem : b ∈ padded (digitCount n) n := by
    rw [← formatNat, hb]
    exact List.mem_cons_self
  have hdigit : isDigit b = true := isDigit_of_mem_padded hmem
  have hread := parseNat_formatNat n
  rw [hb] at hread ⊢
  unfold parseInt
  split
  · rename_i heq; cases heq; exact absurd hdigit (by decide)
  · rename_i heq; cases heq; exact absurd hdigit (by decide)
  · rw [hread, Option.bind_some]

@[simp] theorem parseInt_formatInt (n : Int64) : parseInt (formatInt n) = some n := by
  have hlow := n.le_toInt
  have hhigh := n.toInt_lt
  rw [formatInt]
  split
  · rename_i hneg
    have hback : -(n.toInt.natAbs : Int) = n.toInt := by omega
    show (parseNat (formatNat n.toInt.natAbs)).bind _ = some n
    rw [parseNat_formatNat, Option.bind_some, if_pos (by omega), hback, Int64.ofInt_toInt]
  · rename_i hpos
    have hback : (n.toInt.natAbs : Int) = n.toInt := by omega
    rw [parseInt_formatNat, if_pos (by omega), hback, Int64.ofInt_toInt]

end Authorization.Foundation
