import Mathlib
import Authorization.Foundation.Bytes

/-!
# Base64

`base64.RawURLEncoding`: three bytes are four digits of six bits, written with the
letters, the decimal digits, `-` and `_`; one or two bytes at the end are two or
three digits, without padding.  `decodeBase64` reads the digits back, so the
encoding is injective.
-/

namespace Authorization.Foundation

/-- The character of a digit. -/
def base64Digit (n : Nat) : UInt8 :=
  if n < 26 then UInt8.ofNat (0x41 + n)
  else if n < 52 then UInt8.ofNat (0x61 + (n - 26))
  else if n < 62 then UInt8.ofNat (0x30 + (n - 52))
  else if n = 62 then 0x2D
  else 0x5F

/-- The digit of a character. -/
def base64Value (c : UInt8) : Nat :=
  if 0x41 ≤ c.toNat ∧ c.toNat ≤ 0x5A then c.toNat - 0x41
  else if 0x61 ≤ c.toNat ∧ c.toNat ≤ 0x7A then c.toNat - 0x61 + 26
  else if 0x30 ≤ c.toNat ∧ c.toNat ≤ 0x39 then c.toNat - 0x30 + 52
  else if c.toNat = 0x2D then 62
  else 63

/-- `RawURLEncoding.EncodeToString`. -/
def encodeBase64 : Bytes → Bytes
  | a :: b :: c :: rest =>
    let n := a.toNat * 65536 + b.toNat * 256 + c.toNat
    base64Digit (n / 262144) :: base64Digit (n / 4096 % 64) :: base64Digit (n / 64 % 64) ::
      base64Digit (n % 64) :: encodeBase64 rest
  | [a, b] =>
    let n := a.toNat * 65536 + b.toNat * 256
    [base64Digit (n / 262144), base64Digit (n / 4096 % 64), base64Digit (n / 64 % 64)]
  | [a] =>
    let n := a.toNat * 65536
    [base64Digit (n / 262144), base64Digit (n / 4096 % 64)]
  | [] => []

/-- The bytes of a text of digits. -/
def decodeBase64 : Bytes → Bytes
  | p :: q :: r :: s :: rest =>
    let n := base64Value p * 262144 + base64Value q * 4096 + base64Value r * 64 + base64Value s
    UInt8.ofNat (n / 65536) :: UInt8.ofNat (n / 256) :: UInt8.ofNat n :: decodeBase64 rest
  | [p, q, r] =>
    let n := base64Value p * 262144 + base64Value q * 4096 + base64Value r * 64
    [UInt8.ofNat (n / 65536), UInt8.ofNat (n / 256)]
  | [p, q] =>
    let n := base64Value p * 262144 + base64Value q * 4096
    [UInt8.ofNat (n / 65536)]
  | _ => []

theorem base64Value_digit {n : Nat} (h : n < 64) : base64Value (base64Digit n) = n := by
  have hall : ∀ i : Fin 64, base64Value (base64Digit i.val) = i.val := by decide
  exact hall ⟨n, h⟩

theorem ofNat_toNat_mod {b : UInt8} {n : Nat} (h : n % 256 = b.toNat) : UInt8.ofNat n = b := by
  rw [← UInt8.toNat_inj, UInt8.toNat_ofNat']
  exact h

/-- **The digits are read back.** -/
theorem decodeBase64_encodeBase64 (bytes : Bytes) : decodeBase64 (encodeBase64 bytes) = bytes := by
  induction bytes using encodeBase64.induct with
  | case1 a b c rest ih =>
    have ha := a.toNat_lt
    have hb := b.toNat_lt
    have hc := c.toNat_lt
    obtain ⟨n, hn⟩ : ∃ n, n = a.toNat * 65536 + b.toNat * 256 + c.toNat := ⟨_, rfl⟩
    rw [encodeBase64, ← hn]
    rw [decodeBase64, ih, base64Value_digit (by omega), base64Value_digit (by omega),
      base64Value_digit (by omega), base64Value_digit (by omega)]
    rw [ofNat_toNat_mod (b := a) (by omega), ofNat_toNat_mod (b := b) (by omega),
      ofNat_toNat_mod (b := c) (by omega)]
  | case2 a b =>
    have ha := a.toNat_lt
    have hb := b.toNat_lt
    obtain ⟨n, hn⟩ : ∃ n, n = a.toNat * 65536 + b.toNat * 256 := ⟨_, rfl⟩
    rw [encodeBase64, ← hn]
    rw [decodeBase64, base64Value_digit (by omega), base64Value_digit (by omega),
      base64Value_digit (by omega)]
    rw [ofNat_toNat_mod (b := a) (by omega), ofNat_toNat_mod (b := b) (by omega)]
  | case3 a =>
    have ha := a.toNat_lt
    obtain ⟨n, hn⟩ : ∃ n, n = a.toNat * 65536 := ⟨_, rfl⟩
    rw [encodeBase64, ← hn]
    rw [decodeBase64, base64Value_digit (by omega), base64Value_digit (by omega)]
    rw [ofNat_toNat_mod (b := a) (by omega)]
  | case4 => rfl

theorem encodeBase64_injective : Function.Injective encodeBase64 :=
  Function.LeftInverse.injective decodeBase64_encodeBase64

end Authorization.Foundation
