import Mathlib.Algebra.Ring.Nat
import Mathlib.Data.Nat.Log
import Mathlib.Tactic.Common

/-!
# Floating-Point Quantisers

A quantiser with a few significant bits: a value is cut into cells as wide as its
size allows and rounded to the middle of its cell. Below a smallest exponent the
cells keep their width, as the subnormal numbers of a floating-point format do.

The width of the cells doubles from one power of two to the next, and every power
of two from the smallest exponent on is a boundary between cells. That is what
makes the rounding keep the order across widths.

## Main definitions

* `mid`: The middle of the cell of a value.
* `exponent`: The exponent of a value, not below the smallest.
* `step`: The width of a value's cell.
* `quantize`: A value rounded to the middle of its cell.

## Theorems

* `mid_le`, `le_mid`: The middle is at most half a cell away.
* `mid_of_cell`: The middle of a cell whose number is known.
* `exponent_eq`: What the exponent is.
* `quantize_eq`: The rounding of a value whose exponent is known.
* `quantize_le`, `le_quantize`: The error is at most half a step.
* `quantize_lt`, `le_quantize_of_le`: Rounding does not cross a power of two.
* `quantize_mono`: Rounding keeps the order.
-/

namespace Quantizer

/-- The middle of the cell of `v`, the cells being `w` wide. -/
def mid (w v : Nat) : Nat := v / w * w + w / 2

/-- The position of the leading bit of `v`, or `m` if that is higher. -/
def exponent (m v : Nat) : Nat := max (Nat.log2 v) m

/-- The width of the cell of `v`, with `p` bits behind the leading one. -/
def step (p m v : Nat) : Nat := 2 ^ (exponent m v - p)

/-- `v` rounded to the middle of its cell. -/
def quantize (p m v : Nat) : Nat := mid (step p m v) v

/-- The middle is at most half a cell above the value. -/
theorem mid_le (w v : Nat) : mid w v ≤ v + w / 2 := by
  have h := Nat.div_mul_le_self v w
  unfold mid
  omega

/-- The middle is at most half a cell below the value. -/
theorem le_mid (w v : Nat) (hw : 0 < w) : v ≤ mid w v + w / 2 := by
  have hmod := Nat.mod_lt v hw
  have hdiv := Nat.div_add_mod v w
  rw [Nat.mul_comm] at hdiv
  unfold mid
  omega

/-- The middle of a cell whose number is known. -/
theorem mid_of_cell (w c t : Nat) (ht : t < w) : mid w (c * w + t) = c * w + w / 2 := by
  have hdiv : (c * w + t) / w = c := by
    rw [Nat.mul_comm, Nat.mul_add_div (by omega), Nat.div_eq_of_lt ht, Nat.add_zero]
  rw [mid, hdiv]

theorem mid_mono (w v v' : Nat) (h : v ≤ v') : mid w v ≤ mid w v' := by
  have hmul := Nat.mul_le_mul_right w (Nat.div_le_div_right h (c := w))
  unfold mid
  omega

/-- The middle of a cell below a boundary is below it. -/
theorem mid_lt_of_lt (w v k : Nat) (hw : 0 < w) (h : v < k * w) : mid w v < k * w := by
  have hdiv : v / w + 1 ≤ k := (Nat.div_lt_iff_lt_mul hw).mpr h
  have hmul := Nat.mul_le_mul_right w hdiv
  rw [Nat.add_mul, Nat.one_mul] at hmul
  unfold mid
  omega

/-- The middle of a cell above a boundary is above it. -/
theorem le_mid_of_le (w v k : Nat) (hw : 0 < w) (h : k * w ≤ v) : k * w ≤ mid w v := by
  have hmul := Nat.mul_le_mul_right w ((Nat.le_div_iff_mul_le hw).mpr h)
  unfold mid
  omega

theorem le_exponent (m v : Nat) : m ≤ exponent m v := le_max_right _ _

/-- A value is below the power of two behind its exponent. -/
theorem lt_of_exponent (m v : Nat) : v < 2 ^ (exponent m v + 1) := by
  have hlog : v < 2 ^ (Nat.log2 v + 1) := Nat.lt_log2_self
  have hpow : 2 ^ (Nat.log2 v + 1) ≤ 2 ^ (exponent m v + 1) :=
    Nat.pow_le_pow_right (by omega) (Nat.succ_le_succ (le_max_left _ _))
  omega

/-- Above the smallest exponent, a value has its leading bit at its exponent. -/
theorem le_of_exponent (m v : Nat) (h : m < exponent m v) : 2 ^ exponent m v ≤ v := by
  have hlog : exponent m v = Nat.log2 v := by
    unfold exponent at h ⊢
    omega
  rw [hlog]
  refine Nat.log2_self_le fun h0 => ?_
  rw [hlog, h0, Nat.log2_zero] at h
  omega

/-- What the exponent is: the place of the leading bit, or the smallest one. -/
theorem exponent_eq (m v k : Nat) (hlt : v < 2 ^ (k + 1)) (hk : m ≤ k)
    (hle : k = m ∨ 2 ^ k ≤ v) : exponent m v = k := by
  unfold exponent
  rcases hle with hle | hle
  · -- The leading bit is no higher than the smallest exponent.
    have hlog : Nat.log2 v ≤ k := by
      by_cases hv : v = 0
      · rw [hv, Nat.log2_zero]
        omega
      · exact Nat.lt_succ_iff.mp ((Nat.log2_lt hv).mpr hlt)
    omega
  · have hv : v ≠ 0 := by
      have hpos := Nat.two_pow_pos k
      omega
    rw [(Nat.log2_eq_iff hv).mpr ⟨hle, hlt⟩]
    omega

/-- The rounding of a value whose exponent is known. -/
theorem quantize_eq (p m v k : Nat) (h : exponent m v = k) :
    quantize p m v = mid (2 ^ (k - p)) v := by
  rw [quantize, step, h]

theorem step_pos (p m v : Nat) : 0 < step p m v := Nat.two_pow_pos _

/-- The error is at most half a step. -/
theorem quantize_le (p m v : Nat) : quantize p m v ≤ v + step p m v / 2 := mid_le _ _

/-- The error is at most half a step. -/
theorem le_quantize (p m v : Nat) : v ≤ quantize p m v + step p m v / 2 :=
  le_mid _ _ (step_pos p m v)

theorem exponent_mono (m v v' : Nat) (h : v ≤ v') : exponent m v ≤ exponent m v' := by
  by_contra hc
  have hm := le_exponent m v'
  have hle := le_of_exponent m v (by omega)
  have hlt := lt_of_exponent m v'
  have hpow : 2 ^ (exponent m v' + 1) ≤ 2 ^ exponent m v :=
    Nat.pow_le_pow_right (by omega) (by omega)
  omega

/-- The power of two behind the exponent is a boundary of the cells. -/
theorem quantize_lt (p m v : Nat) (hp : p ≤ m) : quantize p m v < 2 ^ (exponent m v + 1) := by
  have hm := le_exponent m v
  have hcells : 2 ^ (p + 1) * step p m v = 2 ^ (exponent m v + 1) := by
    rw [step, ← Nat.pow_add, show p + 1 + (exponent m v - p) = exponent m v + 1 by omega]
  have hlt := lt_of_exponent m v
  rw [← hcells] at hlt ⊢
  exact mid_lt_of_lt _ _ _ (step_pos p m v) hlt

/-- So is the one at the exponent, if the value is not below it. -/
theorem le_quantize_of_le (p m v : Nat) (hp : p ≤ m) (h : 2 ^ exponent m v ≤ v) :
    2 ^ exponent m v ≤ quantize p m v := by
  have hm := le_exponent m v
  have hcells : 2 ^ p * step p m v = 2 ^ exponent m v := by
    rw [step, ← Nat.pow_add, show p + (exponent m v - p) = exponent m v by omega]
  rw [← hcells] at h ⊢
  exact le_mid_of_le _ _ _ (step_pos p m v) h

/-- Rounding keeps the order. -/
theorem quantize_mono (p m v v' : Nat) (hp : p ≤ m) (h : v ≤ v') :
    quantize p m v ≤ quantize p m v' := by
  have hm := le_exponent m v
  have hexp := exponent_mono m v v' h
  by_cases heq : exponent m v = exponent m v'
  · unfold quantize step
    rw [heq]
    exact mid_mono _ _ _ h
  · -- A boundary for both values is between them.
    have hlt := quantize_lt p m v hp
    have hle := le_quantize_of_le p m v' hp (le_of_exponent m v' (by omega))
    have hpow : 2 ^ (exponent m v + 1) ≤ 2 ^ exponent m v' :=
      Nat.pow_le_pow_right (by omega) (by omega)
    omega

end Quantizer
