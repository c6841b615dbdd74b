import Mathlib.Data.BitVec

/-!
# Machine Integers

The integers that a machine computes with, as numbers. `wrap` is the `int` that a
machine of 32 bits has for the value of an expression: the value itself where that
is one of an `int` (`wrap_of_fits`), and otherwise what is left of it when it goes
round. `toSize` is the `size_t` that such a number is converted to when it becomes
the size of a stretch of memory; a negative one becomes a huge one.

## Main definitions

* `Fits`: A number is one of an `int`.
* `wrap`: The `int` for a value.
* `toSize`: The `size_t` for an `int`.

## Theorems

* `toInt_ofInt`: `wrap` by way of the bits.
* `wrap_of_fits`, `fits_wrap`: Values of an `int` are left alone, and nothing else is.
* `wrap_le`: Going round makes a number that is not negative smaller.
* `toSize_of_nonneg`, `lt_toSize_of_neg`: The sizes of numbers.
-/

namespace MachineInt

/-- The number is one of an `int`. -/
def Fits (n : Int) : Prop := -2 ^ 31 ≤ n ∧ n < 2 ^ 31

instance (n : Int) : Decidable (Fits n) := inferInstanceAs (Decidable (_ ∧ _))

/-- The `int` for the value of an expression. -/
def wrap (n : Int) : Int := n.bmod (2 ^ 32)

/-- The `size_t` that an `int` is converted to. -/
def toSize (n : Int) : Nat := (n % 2 ^ 64).toNat

theorem toInt_ofInt (n : Int) : (BitVec.ofInt 32 n).toInt = wrap n := by
  rw [BitVec.toInt_ofInt]
  rfl

theorem fits_wrap (n : Int) : Fits (wrap n) := by
  unfold Fits wrap Int.bmod
  simp only []
  split <;> omega

theorem wrap_of_fits (n : Int) (h : Fits n) : wrap n = n := by
  unfold Fits at h
  unfold wrap Int.bmod
  simp only []
  split <;> omega

/-- A number that is not negative can only become smaller. -/
theorem wrap_le (n : Int) (h : 0 ≤ n) : wrap n ≤ n := by
  unfold wrap Int.bmod
  simp only []
  split <;> omega

theorem toSize_of_nonneg (n : Int) (h : 0 ≤ n) (hfits : Fits n) : (toSize n : Int) = n := by
  unfold Fits at hfits
  unfold toSize
  rw [Int.emod_eq_of_lt h (by omega), Int.toNat_of_nonneg h]

/-- The size for a negative number is larger than any number. -/
theorem lt_toSize_of_neg (n m : Int) (h : n < 0) (hfits : Fits n) (hm : Fits m) :
    m < toSize n := by
  unfold Fits at hfits hm
  unfold toSize
  omega

end MachineInt
