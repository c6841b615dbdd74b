import Mathlib.Data.BitVec
import Mathlib.Data.Nat.ModEq
import Mathlib.Algebra.BigOperators.Group.List.Basic

/-!
# One's Complement Sums

Sums of words with the carry brought round, as the checksums of the internet
protocols are made. A sum of this kind is a sum modulo one less than the size of the
ring, but for zero, which has two representations: no words at all add up to zero, and
words that add up to a multiple of the modulus to the word of ones.

`StandsFor` says this once. A word stands for a number when the two are congruent and
are zero together, and every number has one word only that stands for it
(`standsFor_unique`). So it does not matter in what order the carries are brought
round, and any two ways of doing so are equal once each is shown to stand for the
plain sum.

## Main definitions

* `add`: Addition with the carry brought round.
* `sum`: The one's complement sum of words.
* `total`: The plain sum of words.
* `StandsFor`: A word represents a number.

## Theorems

* `standsFor_unique`: There is one word at most for a number.
* `standsFor_carry`: A word stands for what is left after bringing a carry round.
* `standsFor_add`, `standsFor_sum`: What sums stand for.
* `standsFor_two_carries`: Two rounds are enough for a number of two words.
* `sum_set_complement`: Words with the complement of their sum among them.
* `sum_eq_allOnes_iff`: When a sum is the word of ones.
* `total_le`: How large a plain sum gets.
-/

namespace OnesComplement

variable {w : Nat}

/-- Addition with the carry brought round. -/
def add (a b : BitVec w) : BitVec w :=
  BitVec.ofNat w (a.toNat + b.toNat + (a.toNat + b.toNat) / 2 ^ w)

/-- The one's complement sum. -/
def sum (l : List (BitVec w)) : BitVec w := l.foldl add 0

/-- The sum without any carry brought round. -/
def total (l : List (BitVec w)) : Nat := (l.map BitVec.toNat).sum

/-- The word is congruent to the number, and zero only when the number is. -/
def StandsFor (r : BitVec w) (n : Nat) : Prop :=
  (r.toNat = 0 ↔ n = 0) ∧ r.toNat ≡ n [MOD 2 ^ w - 1]

theorem standsFor_toNat (r : BitVec w) : StandsFor r r.toNat := ⟨Iff.rfl, Nat.ModEq.refl _⟩

/-- What stands for a number stands for every other that is congruent to it. -/
theorem standsFor_congr (r : BitVec w) (m n : Nat) (h : StandsFor r m) (hzero : m = 0 ↔ n = 0)
    (hmod : m ≡ n [MOD 2 ^ w - 1]) : StandsFor r n :=
  ⟨h.1.trans hzero, h.2.trans hmod⟩

/-- There is one word at most for a number. -/
theorem standsFor_unique (r r' : BitVec w) (n : Nat) (h : StandsFor r n) (h' : StandsFor r' n) :
    r = r' := by
  have hlt := r.isLt
  have hlt' := r'.isLt
  have hzero : r.toNat = 0 ↔ r'.toNat = 0 := h.1.trans h'.1.symm
  refine BitVec.eq_of_toNat_eq ?_
  by_cases h0 : r.toNat = 0
  · rw [h0, hzero.mp h0]
  · have h0' : r'.toNat ≠ 0 := fun hc => h0 (hzero.mpr hc)
    -- Both lie between one and the modulus.
    have hmod : r.toNat - 1 + 1 ≡ r'.toNat - 1 + 1 [MOD 2 ^ w - 1] := by
      rw [Nat.sub_add_cancel (by omega), Nat.sub_add_cancel (by omega)]
      exact h.2.trans h'.2.symm
    have heq := Nat.ModEq.eq_of_lt_of_lt (Nat.ModEq.add_right_cancel' 1 hmod) (by omega)
      (by omega)
    omega

/-- Bringing a carry round changes nothing. -/
theorem standsFor_carry (r : BitVec w) (n : Nat) (h : StandsFor r (n / 2 ^ w + n % 2 ^ w)) :
    StandsFor r n := by
  have hpos := Nat.two_pow_pos w
  have hsplit : 2 ^ w * (n / 2 ^ w) + n % 2 ^ w = n := Nat.div_add_mod n (2 ^ w)
  have hmul : (2 ^ w - 1) * (n / 2 ^ w) + n / 2 ^ w = 2 ^ w * (n / 2 ^ w) := by
    rw [← Nat.succ_mul, Nat.succ_eq_add_one, Nat.sub_add_cancel hpos]
  refine standsFor_congr r _ n h ?_ ?_
  · constructor
    · intro hzero
      rcases Nat.add_eq_zero_iff.mp hzero with ⟨hquot, hrem⟩
      rw [← hsplit, hquot, hrem, Nat.mul_zero]
    · intro hzero
      rw [hzero, Nat.zero_div, Nat.zero_mod]
  · have hn : n = (2 ^ w - 1) * (n / 2 ^ w) + (n / 2 ^ w + n % 2 ^ w) := by omega
    unfold Nat.ModEq
    conv => rhs; rw [hn, Nat.mul_add_mod]

/-- The sum of two words, with the carry added on. -/
theorem standsFor_ofNat (n : Nat) (h : n ≤ 2 * (2 ^ w - 1)) :
    StandsFor (BitVec.ofNat w (n + n / 2 ^ w)) n := by
  have hpos := Nat.two_pow_pos w
  rcases Nat.lt_or_ge n (2 ^ w) with hlt | hge
  · -- There is no carry.
    have hval : (BitVec.ofNat w (n + n / 2 ^ w)).toNat = n := by
      rw [Nat.div_eq_of_lt hlt, Nat.add_zero, BitVec.toNat_ofNat, Nat.mod_eq_of_lt hlt]
    have hself := standsFor_toNat (BitVec.ofNat w (n + n / 2 ^ w))
    rw [hval] at hself
    exact hself
  · have hquot : n / 2 ^ w = 1 := Nat.div_eq_of_lt_le (by omega) (by omega)
    have hval : (BitVec.ofNat w (n + n / 2 ^ w)).toNat = n + 1 - 2 ^ w := by
      rw [hquot, BitVec.toNat_ofNat, Nat.mod_eq_sub_mod (by omega), Nat.mod_eq_of_lt (by omega)]
    have hsum : n + 1 - 2 ^ w + (2 ^ w - 1) = n := by omega
    constructor
    · rw [hval]
      omega
    · rw [hval]
      unfold Nat.ModEq
      conv => rhs; rw [← hsum, Nat.add_mod_right]

/-- The sum of words stands for the sum of what they stand for. -/
theorem standsFor_add (a b : BitVec w) (m n : Nat) (ha : StandsFor a m) (hb : StandsFor b n) :
    StandsFor (add a b) (m + n) := by
  have hlta := a.isLt
  have hltb := b.isLt
  refine standsFor_congr _ _ _ (standsFor_ofNat (a.toNat + b.toNat) (by omega)) ?_
    (ha.2.add hb.2)
  have hzeroa := ha.1
  have hzerob := hb.1
  omega

theorem standsFor_foldl (l : List (BitVec w)) (a : BitVec w) (n : Nat) (ha : StandsFor a n) :
    StandsFor (l.foldl add a) (n + total l) := by
  induction l generalizing a n with
  | nil => exact ha
  | cons b l ih =>
      have hnext := ih (add a b) (n + b.toNat) (standsFor_add a b n _ ha (standsFor_toNat b))
      rw [Nat.add_assoc] at hnext
      exact hnext

/-- The one's complement sum stands for the plain one. -/
theorem standsFor_sum (l : List (BitVec w)) : StandsFor (sum l) (total l) := by
  have hfold := standsFor_foldl l (0 : BitVec w) 0 (standsFor_toNat 0)
  rw [Nat.zero_add] at hfold
  exact hfold

/-- Two rounds are enough for a number of two words. -/
theorem standsFor_two_carries (n : Nat) (h : n < 2 ^ w * 2 ^ w) :
    StandsFor (BitVec.ofNat w (n / 2 ^ w + n % 2 ^ w + (n / 2 ^ w + n % 2 ^ w) / 2 ^ w)) n := by
  have hquot := Nat.div_lt_of_lt_mul h
  have hrem := Nat.mod_lt n (Nat.two_pow_pos w)
  exact standsFor_carry _ n (standsFor_ofNat _ (by omega))

/-- A number and the complement of what stands for it. -/
theorem standsFor_complement (hw : 0 < w) (r : BitVec w) (n : Nat) (h : StandsFor r n) :
    StandsFor (BitVec.allOnes w) (n + (~~~r).toNat) := by
  have hlt := r.isLt
  have htwo : 2 ≤ 2 ^ w := Nat.le_self_pow (by omega) 2
  have hzero := h.1
  have hnot : (~~~r).toNat = 2 ^ w - 1 - r.toNat := BitVec.toNat_not
  refine ⟨?_, ?_⟩
  · rw [BitVec.toNat_allOnes, hnot]
    omega
  · have hsum : r.toNat + (2 ^ w - 1 - r.toNat) = 2 ^ w - 1 := by omega
    have hadd := h.2.add_right (2 ^ w - 1 - r.toNat)
    rw [hsum] at hadd
    rw [BitVec.toNat_allOnes, hnot]
    exact hadd

/-- One word of a sum, and the others. -/
theorem total_set (l : List (BitVec w)) (k : Nat) (r : BitVec w) (hk : k < l.length) :
    total (l.set k r) = total (l.set k 0) + r.toNat := by
  induction l generalizing k with
  | nil => exact absurd hk (Nat.not_lt_zero k)
  | cons a l ih =>
      cases k with
      | zero =>
          have hzero : (0 : BitVec w).toNat = 0 := BitVec.toNat_zero
          change r.toNat + total l = (0 : BitVec w).toNat + total l + r.toNat
          omega
      | succ k =>
          have hrest := ih k (Nat.lt_of_succ_lt_succ hk)
          change a.toNat + total (l.set k r) = a.toNat + total (l.set k 0) + r.toNat
          omega

/-- With the complement of the sum of the others in place, the sum is all ones. -/
theorem sum_set_complement (hw : 0 < w) (l : List (BitVec w)) (k : Nat) (hk : k < l.length) :
    sum (l.set k (~~~sum (l.set k 0))) = BitVec.allOnes w := by
  have hall := standsFor_complement hw _ _ (standsFor_sum (l.set k 0))
  rw [← total_set l k _ hk] at hall
  exact standsFor_unique _ _ _ (standsFor_sum _) hall

/-- A sum is the word of ones when the plain sum is a multiple of the modulus other than
    zero. -/
theorem sum_eq_allOnes_iff (hw : 0 < w) (l : List (BitVec w)) :
    sum l = BitVec.allOnes w ↔ total l ≠ 0 ∧ total l % (2 ^ w - 1) = 0 := by
  have htwo : 2 ≤ 2 ^ w := Nat.le_self_pow (by omega) 2
  have hones : (BitVec.allOnes w).toNat = 2 ^ w - 1 := BitVec.toNat_allOnes
  have hsum := standsFor_sum l
  constructor
  · intro hall
    rw [hall] at hsum
    have hmod := hsum.2
    rw [hones, Nat.ModEq, Nat.mod_self] at hmod
    exact ⟨fun hzero => absurd (hsum.1.mpr hzero) (by omega), hmod.symm⟩
  · intro h
    refine standsFor_unique _ _ _ hsum ⟨?_, ?_⟩
    · rw [hones]
      omega
    · rw [hones, Nat.ModEq, Nat.mod_self, h.2]

theorem total_append (l l' : List (BitVec w)) : total (l ++ l') = total l + total l' := by
  rw [total, List.map_append, List.sum_append]
  rfl

/-- How large a plain sum gets. -/
theorem total_le (l : List (BitVec w)) : total l ≤ l.length * (2 ^ w - 1) := by
  induction l with
  | nil => exact Nat.zero_le _
  | cons a l ih =>
      have hlt := a.isLt
      change a.toNat + total l ≤ (l.length + 1) * (2 ^ w - 1)
      rw [Nat.succ_mul]
      omega

end OnesComplement
