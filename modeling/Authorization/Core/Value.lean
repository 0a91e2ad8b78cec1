import Authorization.Core.Error
import Authorization.Foundation.Netip
import Authorization.Foundation.Time

/-!
# Attribute values

`attribute.go`: the closed set of typed values.  The fields of the source's
`Value` are private, and each constructor function fills the one field of its
kind, so a value is exactly one of the constructors below.  What the
constructor functions guarantee is part of the type: a float is finite, an
address is unmapped, a string set is strictly sorted.
-/

namespace Authorization.Core

open Authorization.Foundation

/-! ### Finite floats

A finite `float64` is a whole multiple of `2 ^ -1074`; `scaled` is that
multiple, and comparison is comparison of multiples. -/

/-- The exponent field of the 64 bits. -/
def floatExponent (bits : UInt64) : Nat := bits.toNat / 2 ^ 52 % 2 ^ 11

/-- Neither `NaN` nor an infinity. -/
def floatFinite (bits : UInt64) : Bool := floatExponent bits != 2047

structure Float64 where
  bits : UInt64
  finite : floatFinite bits = true
deriving DecidableEq

namespace Float64

/-- The value in units of `2 ^ -1074`. -/
def scaled (f : Float64) : Int :=
  let fraction : Nat := f.bits.toNat % 2 ^ 52
  let exponent : Nat := floatExponent f.bits
  let magnitude : Nat := if exponent = 0 then fraction else (2 ^ 52 + fraction) * 2 ^ (exponent - 1)
  if f.bits.toNat / 2 ^ 63 = 0 then magnitude else -magnitude

end Float64

/-! ### String sets -/

/-- The elements of a string set, strictly increasing. -/
structure StringSet where
  elems : List Bytes
  sorted : elems.Pairwise (· < ·)
deriving DecidableEq

/-- The compaction loop of `StringSetValue`: `unique` is the part of the
backing array already written. -/
def compact (unique : List Bytes) : List Bytes → List Bytes
  | [] => unique
  | value :: rest =>
    if unique = [] ∨ unique.getLast? ≠ some value then compact (unique ++ [value]) rest
    else compact unique rest

theorem pairwise_compact : ∀ (rest unique : List Bytes), unique.Pairwise (· < ·) →
    rest.Pairwise (· ≤ ·) → (∀ x ∈ unique, ∀ y ∈ rest, x ≤ y) →
    (compact unique rest).Pairwise (· < ·) := by
  intro rest
  induction rest with
  | nil => intro unique h _ _; exact h
  | cons value rest ih =>
    intro unique hu hr hle
    obtain ⟨hv, hr'⟩ := List.pairwise_cons.mp hr
    rw [compact]
    split
    · rename_i hlast
      refine ih _ ?_ hr' ?_
      · rw [List.pairwise_append]
        refine ⟨hu, List.pairwise_singleton _ _, ?_⟩
        intro x hx y hy
        rw [List.mem_singleton] at hy
        subst hy
        refine lt_of_le_of_ne (hle x hx y (by simp)) ?_
        intro he
        subst he
        -- `x` would be the last element: everything after it is above it
        have hne : unique ≠ [] := List.ne_nil_of_mem hx
        have hlast' := hlast.resolve_left hne
        apply hlast'
        rw [List.getLast?_eq_getLast_of_ne_nil hne, Option.some.injEq]
        refine le_antisymm (hle _ (List.getLast_mem hne) x (by simp)) ?_
        rcases List.mem_iff_append.mp hx with ⟨A, B, rfl⟩
        cases B with
        | nil => simp
        | cons b B =>
          have h2 := (List.pairwise_append.mp hu).2.1
          rw [List.getLast_append_of_ne_nil _ (List.cons_ne_nil _ _),
            List.getLast_cons (List.cons_ne_nil _ _)]
          exact le_of_lt ((List.pairwise_cons.mp h2).1 _ (List.getLast_mem _))
      · intro x hx y hy
        rcases List.mem_append.mp hx with hx | hx
        · exact hle x hx y (by simp [hy])
        · rw [List.mem_singleton] at hx
          subst hx
          exact hv y hy
    · exact ih unique hu hr' (fun x hx y hy => hle x hx y (by simp [hy]))

/-! ### Values -/

inductive ValueKind
  | missing | null | string | bool | int | float | time | ip | stringSet
deriving DecidableEq, Repr

inductive Value
  /-- The zero `Value`. -/
  | missing
  | null
  | string (value : Bytes)
  | bool (value : Bool)
  | int (value : Int64)
  | float (value : Float64)
  | time (value : Time) (utc : value.offset = 0)
  | ip (value : Addr) (unmapped : value.unmap = value)
  | stringSet (value : StringSet)
deriving DecidableEq

/-- `FloatValue`. -/
def floatValue (bits : UInt64) : Except GoError Value :=
  if h : floatFinite bits = true then .ok (.float ⟨bits, h⟩)
  else .error (.sentinel .errInvalidFloat)

/-- `TimeValue`. -/
def timeValue (value : Time) : Value := .time value.utc rfl

/-- `IPValue`. -/
def ipValue (value : Addr) : Value := .ip value.unmap (Addr.unmap_unmap value)

/-- `StringSetValue`. -/
def stringSetValue (values : List Bytes) : Value :=
  .stringSet ⟨compact [] (sortBy (· ≤ ·) values), by
    refine pairwise_compact _ _ List.Pairwise.nil (pairwise_sortBy _ _) ?_
    intro x hx
    exact absurd hx List.not_mem_nil⟩

namespace Value

def kind : Value → ValueKind
  | .missing => .missing
  | .null => .null
  | .string _ => .string
  | .bool _ => .bool
  | .int _ => .int
  | .float _ => .float
  | .time _ _ => .time
  | .ip _ _ => .ip
  | .stringSet _ => .stringSet

/-- `StringSet`, nil for a value of another kind. -/
def stringSet? : Value → Option (List Bytes)
  | .stringSet s => some s.elems
  | _ => none

def string? : Value → Option Bytes
  | .string s => some s
  | _ => none

def ip? : Value → Option Addr
  | .ip a _ => some a
  | _ => none

def collectionLength : Value → Option Nat
  | .stringSet s => some s.elems.length
  | _ => none

/-- Structural equality, without coercion. -/
def equal : Value → Value → Bool
  | .missing, .missing => true
  | .null, .null => true
  | .string a, .string b => a == b
  | .bool a, .bool b => a == b
  | .int a, .int b => a == b
  | .float a, .float b => a.scaled == b.scaled
  | .time a _, .time b _ => a.equal b
  | .ip a _, .ip b _ => a == b
  | .stringSet a, .stringSet b => a.elems == b.elems
  | _, _ => false

/-- `compareOrdered`. -/
def compareOrdered {α : Type*} [LT α] [DecidableLT α] (left right : α) : Int :=
  if left < right then -1 else if right < left then 1 else 0

/-- Orders strings, integers, floats and times of one kind; `none` is the
source's `(0, false)`. -/
def compare : Value → Value → Option Int
  | .string a, .string b => some (compareOrdered a b)
  | .int a, .int b => some (compareOrdered a b)
  | .float a, .float b => some (compareOrdered a.scaled b.scaled)
  | .time a _, .time b _ => some (compareOrdered a.nanos b.nanos)
  | _, _ => none

end Value

end Authorization.Core
