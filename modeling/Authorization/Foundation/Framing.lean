import Mathlib
import Authorization.Foundation.Bytes

/-!
# Length-prefixed framing

A text is framed by its length, two bytes with the high one first, and frames are
put one after the other.  As long as the lengths fit in two bytes a frame can be
read off whatever follows it (`unframe_frame`), so a list of texts is determined by
its frames (`frames_injective`), no matter which bytes the texts consist of.
-/

namespace Authorization.Foundation

/-- `binary.BigEndian.PutUint16`. -/
def putUint16 (n : UInt16) : Bytes := [UInt8.ofNat (n.toNat / 256), UInt8.ofNat n.toNat]

/-- `binary.BigEndian.Uint16`. -/
def uint16 (high low : UInt8) : Nat := high.toNat * 256 + low.toNat

def frame (text : Bytes) : Bytes := putUint16 (UInt16.ofNat text.length) ++ text

/-- The text of the first frame and what follows. -/
def unframe : Bytes → Option (Bytes × Bytes)
  | high :: low :: rest =>
    if uint16 high low ≤ rest.length then
      some (rest.take (uint16 high low), rest.drop (uint16 high low))
    else none
  | _ => none

/-- The texts, framed, one after the other. -/
def frames (texts : List Bytes) : Bytes := texts.flatMap frame

/-- A length of two bytes is not truncated. -/
theorem toNat_length {text : Bytes} (h : text.length < 65536) :
    (UInt16.ofNat text.length).toNat = text.length := by
  rw [UInt16.toNat_ofNat']
  exact Nat.mod_eq_of_lt h

theorem uint16_putUint16 (n : UInt16) :
    uint16 (UInt8.ofNat (n.toNat / 256)) (UInt8.ofNat n.toNat) = n.toNat := by
  have hn : n.toNat < 65536 := n.toNat_lt
  rw [uint16, UInt8.toNat_ofNat', UInt8.toNat_ofNat']
  omega

/-- **A frame can be read off whatever follows it.** -/
theorem unframe_frame {text : Bytes} (h : text.length < 65536) (rest : Bytes) :
    unframe (frame text ++ rest) = some (text, rest) := by
  have hlength : uint16 (UInt8.ofNat ((UInt16.ofNat text.length).toNat / 256))
      (UInt8.ofNat (UInt16.ofNat text.length).toNat) = text.length := by
    rw [uint16_putUint16, toNat_length h]
  show (if _ ≤ (text ++ rest).length then some ((text ++ rest).take _, (text ++ rest).drop _)
    else none) = _
  rw [hlength, if_pos (by rw [List.length_append]; omega), List.take_left, List.drop_left]

theorem frame_append_inj {text text' rest rest' : Bytes} (h : text.length < 65536)
    (h' : text'.length < 65536) (heq : frame text ++ rest = frame text' ++ rest') :
    text = text' ∧ rest = rest' := by
  have hread := unframe_frame h rest
  rw [heq, unframe_frame h' rest', Option.some.injEq, Prod.mk.injEq] at hread
  exact ⟨hread.1.symm, hread.2.symm⟩

theorem frame_append_ne_nil (text rest : Bytes) : frame text ++ rest ≠ [] := List.cons_ne_nil _ _

/-- **Texts are determined by their frames.** -/
theorem frames_injective : ∀ {texts texts' : List Bytes},
    (∀ text ∈ texts, text.length < 65536) → (∀ text ∈ texts', text.length < 65536) →
    frames texts = frames texts' → texts = texts' := by
  intro texts
  induction texts with
  | nil =>
    intro texts' _ _ heq
    cases texts' with
    | nil => rfl
    | cons text' rest' => exact absurd heq.symm (frame_append_ne_nil _ _)
  | cons text rest ih =>
    intro texts' h h' heq
    cases texts' with
    | nil => exact absurd heq (frame_append_ne_nil _ _)
    | cons text' rest' =>
      rw [frames, frames, List.flatMap_cons, List.flatMap_cons] at heq
      rw [List.forall_mem_cons] at h h'
      obtain ⟨rfl, hrest⟩ := frame_append_inj h.1 h'.1 heq
      rw [ih h.2 h'.2 hrest]

end Authorization.Foundation
