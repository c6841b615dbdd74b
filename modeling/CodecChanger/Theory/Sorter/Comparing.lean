import CodecChanger.Core.Sorter
import Mathlib.Order.Defs.Unbundled
import Mathlib.Order.RelIso.Basic

/-!
# Comparing Sequence Numbers

`Less` casts both numbers to `int32_t` and subtracts. Had it subtracted first, the
difference would wrap around and its sign would order every half window of the ring.
The other way round the difference may not wrap. It is that of two signed numbers, and
for two of them on either side of 2 ^ 31 it does not fit, however close they are.

Everywhere else it fits, at the end of the ring as well, where the signed numbers go
from minus one to zero. So a set of numbers in a half window is ordered exactly when
no two of its numbers lie on either side of 2 ^ 31.

## Main definitions

* `Compares`: `Less` has the right answer both ways round.
* `Orders`: `Less` is a strict total order on a set of numbers.

## Theorems

* `less_of_lessSigned`: An answer of `Less` is the one with wrapping.
* `compares_iff`: When it has the right answer for two numbers.
* `lessSigned_of_window`: In a half window it compares the distances.
* `orders_iff`: When it is a strict total order on a set of numbers.
* `lessSigned_sound_iff`: The exact condition, for numbers and for sets.
-/

namespace CodecChanger

open Circular

namespace PacketSorter

/-- The first number comes before the second, and not the other way round. -/
def Compares (lh rh : BitVec 32) : Prop :=
  lessSigned lh rh = some true ∧ lessSigned rh lh = some false

instance (lh rh : BitVec 32) : Decidable (Compares lh rh) :=
  inferInstanceAs (Decidable (_ ∧ _))

/-- Any two numbers of the set can be compared, and the comparison is a strict total
    order, as `std::map` asks for. -/
structure Orders (S : Set (BitVec 32)) : Prop where
  compared : ∀ lh ∈ S, ∀ rh ∈ S, (lessSigned lh rh).isSome = true
  ordered : IsStrictTotalOrder S fun lh rh => lessSigned lh.1 rh.1 = some true

/-- An answer of `Less` is the one it would have by wrapping around. -/
theorem less_of_lessSigned (lh rh : BitVec 32) (v : Bool) (h : lessSigned lh rh = some v) :
    v = decide (less lh rh) := precedesSigned_eq_some lh rh v h

/-- In the half window ahead of a base, `Less` compares the distances from it. -/
theorem lessSigned_of_window (base lh rh : BitVec 32) (hl : ahead base lh < 2 ^ 31)
    (hr : ahead base rh < 2 ^ 31) (h : (lessSigned lh rh).isSome = true) :
    lessSigned lh rh = some (decide (ahead base lh < ahead base rh)) := by
  rcases Option.isSome_iff_exists.mp h with ⟨v, hv⟩
  rw [hv, less_of_lessSigned lh rh v hv]
  exact congrArg some (decide_eq_decide.mpr
    (precedes_iff_ahead_lt base lh rh (by omega) (by omega)))

/-- For a number and one less than half a ring ahead of it, `Less` is right exactly
    when they do not lie on either side of 2 ^ 31. -/
theorem compares_iff (lh rh : BitVec 32) (hpos : 0 < ahead lh rh) (hhalf : ahead lh rh < 2 ^ 31) :
    Compares lh rh ↔ ¬ Straddles lh rh := by
  rcases precedesSigned_isSome_of_half lh rh (by omega) with ⟨hfits, hfits'⟩
  constructor
  · rintro ⟨h, -⟩
    exact hfits.mp (Option.isSome_iff_exists.mpr ⟨true, h⟩)
  · intro h
    -- Seen from the first number, it is at distance zero itself.
    have hself : ahead lh lh < 2 ^ 31 := by rw [ahead_self]; omega
    unfold Compares
    rw [lessSigned_of_window lh lh rh hself hhalf (hfits.mpr h),
      lessSigned_of_window lh rh lh hhalf hself (hfits'.mpr h), ahead_self]
    exact ⟨congrArg some (decide_eq_true hpos), congrArg some (decide_eq_false (by omega))⟩

/-- Two different numbers of a half window lie less than half a ring apart, one way or
    the other. -/
theorem ahead_of_window (base lh rh : BitVec 32) (hl : ahead base lh < 2 ^ 31)
    (hr : ahead base rh < 2 ^ 31) (hne : lh ≠ rh) :
    (0 < ahead lh rh ∧ ahead lh rh < 2 ^ 31) ∨ (0 < ahead rh lh ∧ ahead rh lh < 2 ^ 31) := by
  have hlr : ahead lh rh ≠ 0 := fun hc => hne ((ahead_eq_zero_iff lh rh).mp hc).symm
  have hrl : ahead rh lh ≠ 0 := fun hc => hne ((ahead_eq_zero_iff rh lh).mp hc)
  have h1 := lh.isLt
  have h2 := rh.isLt
  have h3 := base.isLt
  rcases ahead_cases lh rh with ⟨hle, heq⟩ | ⟨hlt, heq⟩ <;>
    rcases ahead_cases rh lh with ⟨hle', heq'⟩ | ⟨hlt', heq'⟩ <;>
    rcases ahead_cases base lh with ⟨hbl, heql⟩ | ⟨hbl, heql⟩ <;>
    rcases ahead_cases base rh with ⟨hbr, heqr⟩ | ⟨hbr, heqr⟩ <;> omega

/-- In a half window `Less` is a strict total order exactly when no two numbers, less than
    half a ring apart, lie on either side of 2 ^ 31. -/
theorem orders_iff (base : BitVec 32) (S : Set (BitVec 32)) (hS : ∀ k ∈ S, ahead base k < 2 ^ 31) :
    Orders S ↔ ∀ lh ∈ S, ∀ rh ∈ S, 0 < ahead lh rh → ahead lh rh < 2 ^ 31 →
      ¬ Straddles lh rh := by
  refine ⟨fun h lh hl rh hr hpos hhalf => ?_, fun h => ?_⟩
  · exact (precedesSigned_isSome_of_half lh rh (by omega)).1.mp (h.compared lh hl rh hr)
  · have hcompared : ∀ lh ∈ S, ∀ rh ∈ S, (lessSigned lh rh).isSome = true := by
      intro lh hl rh hr
      by_cases hsame : lh = rh
      · rw [hsame, precedesSigned_isSome_iff]
        omega
      · rcases ahead_of_window base lh rh (hS lh hl) (hS rh hr) hsame with
          ⟨hpos, hhalf⟩ | ⟨hpos, hhalf⟩
        · exact (precedesSigned_isSome_of_half lh rh (by omega)).1.mpr
            (h lh hl rh hr hpos hhalf)
        · exact (precedesSigned_isSome_of_half rh lh (by omega)).2.mpr
            (h rh hr lh hl hpos hhalf)
    -- The order of the distances from the base, which are different for different numbers.
    have hiff : ∀ lh rh : S, ahead base lh.1 < ahead base rh.1 ↔
        lessSigned lh.1 rh.1 = some true := by
      intro lh rh
      rw [lessSigned_of_window base lh.1 rh.1 (hS _ lh.2) (hS _ rh.2)
        (hcompared _ lh.2 _ rh.2), Option.some.injEq, decide_eq_true_eq]
    have hinj : Function.Injective fun k : S => ahead base k.1 := by
      intro lh rh hsame
      exact Subtype.ext (sub_left_injective (BitVec.eq_of_toNat_eq hsame))
    exact ⟨hcompared, RelEmbedding.isStrictTotalOrder
      (⟨⟨_, hinj⟩, fun {lh rh} => hiff lh rh⟩ :
        (fun lh rh : S => lessSigned lh.1 rh.1 = some true) ↪r (fun m n : Nat => m < n))⟩

/-- `Less` is right for a number and one less than half a ring ahead of it, and a strict
    total order on a set of numbers in a half window, exactly when the two, or any such
    two of the set, do not lie on either side of 2 ^ 31. -/
theorem lessSigned_sound_iff (lh rh : BitVec 32) (hpos : 0 < ahead lh rh)
    (hhalf : ahead lh rh < 2 ^ 31) (base : BitVec 32) (S : Set (BitVec 32))
    (hS : ∀ k ∈ S, ahead base k < 2 ^ 31) :
    (Compares lh rh ↔ ¬ Straddles lh rh) ∧
      (Orders S ↔ ∀ lh ∈ S, ∀ rh ∈ S, 0 < ahead lh rh → ahead lh rh < 2 ^ 31 →
        ¬ Straddles lh rh) :=
  ⟨compares_iff lh rh hpos hhalf, orders_iff base S hS⟩

/-- Two numbers at the end of the ring, where the signed numbers pass zero. -/
theorem lessSigned_sound_iff_wrapping :
    Compares 0xffffff00 0x00000100 ∧ Orders {0xffffff00, 0x00000100} := by
  have hwindow : ∀ k ∈ ({0xffffff00, 0x00000100} : Set (BitVec 32)),
      ahead 0xffffff00 k < 2 ^ 31 := by
    intro k hk
    rcases hk with rfl | rfl
    · decide
    · decide
  have hsound := lessSigned_sound_iff 0xffffff00 0x00000100 (by decide) (by decide) 0xffffff00
    {0xffffff00, 0x00000100} hwindow
  refine ⟨hsound.1.mpr (by decide), hsound.2.mpr ?_⟩
  intro lh hl rh hr
  rcases hl with rfl | rfl <;> rcases hr with rfl | rfl <;> decide

/-- The numbers of two packets in a row, the first of which is 0x7fffff: there is no
    answer, whichever comes first. -/
theorem lessSigned_sound_fails :
    ahead ((0x7fffff : BitVec 32) <<< 8) ((0x800000 : BitVec 32) <<< 8) = 256 ∧
      lessSigned ((0x7fffff : BitVec 32) <<< 8) ((0x800000 : BitVec 32) <<< 8) = none ∧
      lessSigned ((0x800000 : BitVec 32) <<< 8) ((0x7fffff : BitVec 32) <<< 8) = none ∧
      ¬ Compares ((0x7fffff : BitVec 32) <<< 8) ((0x800000 : BitVec 32) <<< 8) ∧
      ¬ Orders {(0x7fffff : BitVec 32) <<< 8, (0x800000 : BitVec 32) <<< 8} := by
  have hnone : lessSigned ((0x7fffff : BitVec 32) <<< 8) ((0x800000 : BitVec 32) <<< 8) = none := by
    decide
  refine ⟨by decide, hnone, by decide, by decide, fun h => ?_⟩
  have hsome := h.compared _ (Or.inl rfl) _ (Or.inr rfl)
  rw [hnone] at hsome
  exact Bool.false_ne_true hsome

end PacketSorter

end CodecChanger
