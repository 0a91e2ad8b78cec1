import Authorization.Foundation.Bytes

/-!
# Addresses and prefixes

The part of `net/netip` that attribute values and range conditions use.  An
address is invalid (the zero `Addr`), IPv4, or IPv6 with a zone; a prefix is
invalid or an address of one family with a bit count in the family's range.
-/

namespace Authorization.Foundation

/-- A `netip.Addr`. -/
inductive Addr
  | invalid
  | v4 (bits : BitVec 32)
  | v6 (bits : BitVec 128) (zone : Bytes)
deriving DecidableEq, Repr

/-- A `netip.Prefix`, host bits included. -/
inductive Prefix
  | invalid
  | v4 (addr : BitVec 32) (bits : Fin 33)
  | v6 (addr : BitVec 128) (bits : Fin 129)
deriving DecidableEq, Repr

namespace Addr

/-- An IPv4-mapped IPv6 address, `::ffff:0:0/96`. -/
def is4In6 : Addr → Bool
  | .v6 bits _ => bits >>> 32 == 0xffff#128
  | _ => false

/-- `Unmap`: an IPv4-mapped address becomes IPv4, every other one stays. -/
def unmap : Addr → Addr
  | .v6 bits zone => if is4In6 (.v6 bits zone) then .v4 (bits.setWidth 32) else .v6 bits zone
  | a => a

@[simp] theorem unmap_unmap (a : Addr) : a.unmap.unmap = a.unmap := by
  cases a with
  | v6 bits zone =>
    by_cases h : is4In6 (.v6 bits zone)
    · rw [unmap, if_pos h]; rfl
    · rw [unmap, if_neg h, unmap, if_neg h]
  | _ => rfl

end Addr

namespace Prefix

def isValid : Prefix → Bool
  | .invalid => false
  | _ => true

/-- `Masked` clears the host bits. -/
def masked : Prefix → Prefix
  | .invalid => .invalid
  | .v4 addr bits => .v4 ((addr >>> (32 - bits.val)) <<< (32 - bits.val)) bits
  | .v6 addr bits => .v6 ((addr >>> (128 - bits.val)) <<< (128 - bits.val)) bits

/-- `Contains`: false across families and for a zoned address. -/
def contains : Prefix → Addr → Bool
  | .v4 addr bits, .v4 ip => (addr ^^^ ip) >>> (32 - bits.val) == 0#32
  | .v6 addr bits, .v6 ip zone => zone.isEmpty && (addr ^^^ ip) >>> (128 - bits.val) == 0#128
  | _, _ => false

/-- The bits below the prefix length do not count. -/
theorem shifted_xor {width : Nat} (addr ip : BitVec width) (host : Nat) :
    (((addr >>> host) <<< host) ^^^ ip) >>> host = (addr ^^^ ip) >>> host := by
  ext i hi
  simp only [BitVec.getElem_ushiftRight, BitVec.getLsbD_xor, BitVec.getLsbD_shiftLeft,
    BitVec.getLsbD_ushiftRight]
  by_cases h : host + i < width
  · simp [h]
  · have hout : addr.getLsbD (host + i) = false := BitVec.getLsbD_of_ge addr _ (not_lt.mp h)
    simp [h, hout]

/-- **Clearing the host bits leaves the addresses of a prefix.** -/
@[simp] theorem contains_masked (network : Prefix) (a : Addr) :
    network.masked.contains a = network.contains a := by
  cases network with
  | invalid => rfl
  | v4 addr bits =>
    cases a with
    | v4 ip => simp only [masked, contains, shifted_xor]
    | invalid => rfl
    | v6 ip zone => rfl
  | v6 addr bits =>
    cases a with
    | v6 ip zone => simp only [masked, contains, shifted_xor]
    | invalid => rfl
    | v4 ip => rfl

@[simp] theorem isValid_masked (network : Prefix) : network.masked.isValid = network.isValid := by
  cases network with
  | invalid => rfl
  | v4 addr bits => rfl
  | v6 addr bits => rfl

/-- A prefix of IPv4 addresses. -/
def is4 : Prefix → Bool
  | .v4 _ _ => true
  | _ => false

/-- Only an IPv6 prefix tells an address from the one it maps. -/
theorem contains_unmap {network : Prefix} {a : Addr} (h : a.is4In6 = true → network.is4 = true)
    (hmem : network.contains a = true) : network.contains a.unmap = true := by
  cases a with
  | invalid => exact hmem
  | v4 bits => exact hmem
  | v6 bits zone =>
    by_cases hmapped : Addr.is4In6 (.v6 bits zone) = true
    · cases network with
      | v4 addr len => cases hmem
      | invalid => cases hmem
      | v6 addr len => cases h hmapped
    · rw [Addr.unmap, if_neg hmapped]
      exact hmem

end Prefix

end Authorization.Foundation
