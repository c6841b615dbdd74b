import Mathlib.Data.BitVec
import Mathlib.Data.List.Basic

/-!
# Bit Strings

Words as strings of bits, the high bit first, and a list of words as the string of all
of them. What a packer does to words by shifts and masks is then cutting and joining of
strings: `x <<< k ||| y >>> (w - k)` is what is left of one string and the start of the
next (`bits_shift_or`).

Words of one width are as long as each other, so a string can be read back
(`bitString_injective`).

## Main definitions

* `bits`: The bits of a word.
* `bitString`: The bits of a list of words.

## Theorems

* `bits_injective`, `bitString_injective`: Words are known by their bits.
* `bits_shift_or`, `bits_shiftLeft`, `bits_ushiftRight`: Shifted words.
-/

namespace Bits

variable {w : Nat}

/-- The bits of a word, the high one first. -/
def bits (x : BitVec w) : List Bool := (List.range w).map x.getMsbD

/-- The bits of some words, one behind the other. -/
def bitString (l : List (BitVec w)) : List Bool := l.flatMap bits

@[simp] theorem length_bits (x : BitVec w) : (bits x).length = w := by
  rw [bits, List.length_map, List.length_range]

theorem getElem_bits (x : BitVec w) (i : Nat) (h : i < (bits x).length) :
    (bits x)[i] = x.getMsbD i := by
  simp only [bits, List.getElem_map, List.getElem_range]

theorem bits_injective (x y : BitVec w) (h : bits x = bits y) : x = y := by
  refine BitVec.eq_of_getMsbD_eq fun i hi => ?_
  rw [← getElem_bits x i (by rw [length_bits]; exact hi),
    ← getElem_bits y i (by rw [length_bits]; exact hi)]
  simp only [h]

theorem bitString_append (l l' : List (BitVec w)) :
    bitString (l ++ l') = bitString l ++ bitString l' := List.flatMap_append

theorem bitString_cons (x : BitVec w) (l : List (BitVec w)) :
    bitString (x :: l) = bits x ++ bitString l := List.flatMap_cons

theorem length_bitString (l : List (BitVec w)) : (bitString l).length = w * l.length := by
  induction l with
  | nil => rfl
  | cons x l ih =>
      rw [bitString_cons, List.length_append, length_bits, ih, List.length_cons, Nat.mul_succ,
        Nat.add_comm]

/-- Two lists of one length are known by their strings. -/
theorem bitString_injective (l l' : List (BitVec w)) (hlen : l.length = l'.length)
    (h : bitString l = bitString l') : l = l' := by
  induction l generalizing l' with
  | nil => exact (List.eq_nil_of_length_eq_zero hlen.symm).symm
  | cons x l ih =>
      cases l' with
      | nil => exact absurd hlen (Nat.succ_ne_zero _)
      | cons y l' =>
          rw [bitString_cons, bitString_cons] at h
          rcases List.append_inj h (by rw [length_bits, length_bits]) with ⟨hx, hl⟩
          rw [bits_injective x y hx, ih l' (Nat.succ.inj hlen) hl]

/-- What is left of a word behind some bits, and the start of another one. -/
theorem bits_shift_or (x y : BitVec w) (k : Nat) (hk : k ≤ w) :
    bits (x <<< k ||| y >>> (w - k)) = (bits x).drop k ++ (bits y).take k := by
  refine List.ext_getElem ?_ fun i hi hi' => ?_
  · rw [List.length_append, List.length_drop, List.length_take, length_bits, length_bits,
      length_bits]
    omega
  · rw [length_bits] at hi
    rw [getElem_bits, BitVec.getMsbD_or, BitVec.getMsbD_shiftLeft, BitVec.getMsbD_ushiftRight]
    by_cases hleft : i < w - k
    · rw [List.getElem_append_left (by rw [List.length_drop, length_bits]; exact hleft),
        List.getElem_drop, getElem_bits]
      rw [Nat.add_comm i k]
      grind
    · rw [List.getElem_append_right (by rw [List.length_drop, length_bits]; omega),
        List.getElem_take, getElem_bits]
      simp only [hleft, List.length_drop, length_bits]
      grind

theorem bits_zero : bits 0#w = List.replicate w false := by
  refine List.ext_getElem (by rw [length_bits, List.length_replicate]) fun i hi hi' => ?_
  rw [getElem_bits, List.getElem_replicate, BitVec.getMsbD_zero]

/-- The string of words of zeros. -/
theorem bitString_zeros (n : Nat) :
    bitString (List.replicate n 0#w) = List.replicate (w * n) false := by
  induction n with
  | zero => rfl
  | succ n ih =>
      rw [List.replicate_succ, bitString_cons, ih, bits_zero, List.replicate_append_replicate,
        Nat.mul_succ, Nat.add_comm w]

/-- What is left of a word behind some bits, and zeros. -/
theorem bits_shiftLeft (x : BitVec w) (k : Nat) (hk : k ≤ w) :
    bits (x <<< k) = (bits x).drop k ++ List.replicate k false := by
  have hor := bits_shift_or x 0#w k hk
  rw [BitVec.zero_ushiftRight, BitVec.or_zero, bits_zero, List.take_replicate,
    Nat.min_eq_left hk] at hor
  exact hor

/-- Zeros and the start of a word. -/
theorem bits_ushiftRight (x : BitVec w) (k : Nat) (hk : k ≤ w) :
    bits (x >>> (w - k)) = List.replicate (w - k) false ++ (bits x).take k := by
  have hor := bits_shift_or 0#w x k hk
  rw [BitVec.zero_shiftLeft, BitVec.zero_or, bits_zero, List.drop_replicate] at hor
  exact hor

end Bits
