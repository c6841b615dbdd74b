import Mathlib.Data.BitVec
import Mathlib.Tactic.Ring

/-!
# Circular Sequence Numbers

Sequence numbers of a fixed width wrap around, so "later" cannot be read off
their values. What can is how far one number lies ahead of another going
forward round the ring, `ahead`, and the usual test for "earlier" is the sign
of the wrapped difference, `precedes`.

The two agree inside a half window. Seen from any base, the numbers less than
half a ring ahead of it are ordered by their distance from the base, and there
`precedes` is that order (`precedes_iff_ahead_lt`); outside, `precedes` is not
even transitive. Everything a reorder buffer does with wrapped numbers is
therefore stated through distances from its base, and the lemmas on
`ahead (n + x) k` say what happens to the distances when the base moves on.

## Main definitions

* `ahead`: How far one number lies ahead of another.
* `precedes`: The sign test on the wrapped difference.
* `precedesSigned`: The sign test on a difference that does not wrap.
* `Straddles`: Two numbers between which the sign changes.
* `nth`: The numbers of an arithmetic progression round the ring.

## Theorems

* `ahead_cases`: The distance as a difference of values, wrapped or not.
* `ahead_eq_zero_iff`: Only a number itself is at distance zero.
* `ahead_add_right`: The distance to a number given by its offset.
* `ahead_add_left_of_le`: Moving the base up to or below a number.
* `ahead_add_left_of_lt`: Moving the base past a number.
* `precedes_iff`: The sign test is a bound on the distance.
* `not_precedes_self`: No number precedes itself.
* `precedes_iff_ahead_lt`: The sign test orders a half window.
* `precedesSigned_eq_some`, `precedesSigned_isSome_of_half`: What it takes for the
  test without wrapping to be the same.
* `ahead_nth`: Distances within a progression.
* `ahead_dvd`: Distances between congruent numbers.
-/

namespace Circular

variable {w : Nat}

/-- How far `b` lies ahead of `a`, going forward round the ring. -/
def ahead (a b : BitVec w) : Nat := (b - a).toNat

/-- The sign test: the wrapped difference, read as a signed number, is
    negative. -/
def precedes (a b : BitVec w) : Prop := (a - b).toInt < 0

instance (a b : BitVec w) : Decidable (precedes a b) :=
  inferInstanceAs (Decidable ((a - b).toInt < 0))

/-- The sign test without wrapping: the difference of the signed values is negative.
    There is no answer when the difference is not a signed value itself. -/
def precedesSigned (a b : BitVec w) : Option Bool :=
  if BitVec.ssubOverflow a b then none else some (decide (a.toInt - b.toInt < 0))

/-- Going forward from `a` to `b` the signed values go from the largest one to the
    smallest. -/
def Straddles (a b : BitVec w) : Prop := 2 * a.toNat < 2 ^ w ∧ 2 ^ w ≤ 2 * b.toNat

instance (a b : BitVec w) : Decidable (Straddles a b) :=
  inferInstanceAs (Decidable (_ ∧ _))

/-- The `k`-th number of the progression from `s` in steps of `inc`. -/
def nth (s inc : BitVec w) (k : Nat) : BitVec w := s + BitVec.ofNat w k * inc

theorem ahead_cases (a b : BitVec w) :
    (a.toNat ≤ b.toNat ∧ ahead a b = b.toNat - a.toNat) ∨
      (b.toNat < a.toNat ∧ ahead a b = b.toNat + 2 ^ w - a.toNat) := by
  have ha := a.isLt
  have hb := b.isLt
  rw [ahead, BitVec.toNat_sub]
  rcases Nat.lt_or_ge b.toNat a.toNat with h | h
  · -- The way from `a` to `b` passes zero.
    right
    refine ⟨h, ?_⟩
    rw [Nat.mod_eq_of_lt (by omega)]
    omega
  · -- It does not, and the whole turn that `toNat_sub` adds goes away.
    left
    refine ⟨h, ?_⟩
    rw [show 2 ^ w - a.toNat + b.toNat = b.toNat - a.toNat + 2 ^ w by omega,
      Nat.add_mod_right, Nat.mod_eq_of_lt (by omega)]

@[simp] theorem ahead_self (a : BitVec w) : ahead a a = 0 := by
  simp only [ahead, BitVec.sub_self, BitVec.toNat_zero]

theorem ahead_eq_zero_iff (a b : BitVec w) : ahead a b = 0 ↔ b = a := by
  constructor
  · intro h
    have ha := a.isLt
    have hb := b.isLt
    apply BitVec.eq_of_toNat_eq
    rcases ahead_cases a b with ⟨hle, heq⟩ | ⟨hlt, heq⟩ <;> omega
  · rintro rfl
    exact ahead_self b

@[simp] theorem ahead_add_right (n x : BitVec w) : ahead n (n + x) = x.toNat := by
  rw [ahead, show n + x - n = x by ring]

/-- Moving the base forward without passing `k` shortens the distance to it. -/
theorem ahead_add_left_of_le (n x k : BitVec w) (h : x.toNat ≤ ahead n k) :
    ahead (n + x) k = ahead n k - x.toNat := by
  have hk : k - (n + x) = (k - n) - x := by ring
  rw [ahead, hk, BitVec.toNat_sub_of_le (by rw [BitVec.le_def]; exact h)]
  rfl

/-- Moving the base past `k` leaves it almost a whole ring ahead. -/
theorem ahead_add_left_of_lt (n x k : BitVec w) (h : ahead n k < x.toNat) :
    ahead (n + x) k = ahead n k + 2 ^ w - x.toNat := by
  have hk : k - (n + x) = (k - n) - x := by ring
  have hx := x.isLt
  rw [ahead, hk, BitVec.toNat_sub, Nat.mod_eq_of_lt (by rw [ahead] at h; omega), ← ahead]
  omega

theorem precedes_iff (a b : BitVec w) : precedes a b ↔ 2 ^ w ≤ 2 * ahead b a := by
  rw [precedes, BitVec.toInt_neg_iff, ahead]

theorem not_precedes_self (a : BitVec w) : ¬ precedes a a := by
  rw [precedes_iff, ahead_self]
  have := Nat.two_pow_pos w
  omega

/-- Inside the half window ahead of a base the sign test is the order of the
    distances from the base. -/
theorem precedes_iff_ahead_lt (n a b : BitVec w)
    (ha : 2 * ahead n a < 2 ^ w) (hb : 2 * ahead n b < 2 ^ w) :
    precedes a b ↔ ahead n a < ahead n b := by
  rw [precedes_iff]
  have h1 := a.isLt
  have h2 := b.isLt
  have h3 := n.isLt
  rcases ahead_cases b a with ⟨hba, heq⟩ | ⟨hba, heq⟩ <;>
    rcases ahead_cases n a with ⟨hna, heqa⟩ | ⟨hna, heqa⟩ <;>
    rcases ahead_cases n b with ⟨hnb, heqb⟩ | ⟨hnb, heqb⟩ <;> omega

/-- Where there is an answer without wrapping, it is the one with wrapping. -/
theorem precedesSigned_eq_some (a b : BitVec w) (v : Bool) (h : precedesSigned a b = some v) :
    v = decide (precedes a b) := by
  unfold precedesSigned at h
  by_cases hover : BitVec.ssubOverflow a b = true
  · rw [if_pos hover] at h
    exact absurd h (by simp only [reduceCtorEq, not_false_eq_true])
  · rw [if_neg hover, Option.some.injEq] at h
    rw [← h]
    refine decide_eq_decide.mpr ?_
    rw [precedes, BitVec.toInt_sub_of_not_ssubOverflow hover]

/-- There is an answer when the difference fits. -/
theorem precedesSigned_isSome_iff (a b : BitVec w) :
    (precedesSigned a b).isSome = true ↔
      -2 ^ (w - 1) ≤ a.toInt - b.toInt ∧ a.toInt - b.toInt < 2 ^ (w - 1) := by
  unfold precedesSigned BitVec.ssubOverflow
  by_cases hover : (a.toInt - b.toInt ≥ 2 ^ (w - 1) || a.toInt - b.toInt < -2 ^ (w - 1)) = true
  · rw [if_pos hover]
    rw [Bool.or_eq_true, decide_eq_true_eq, decide_eq_true_eq] at hover
    simp only [Option.isSome_none, Bool.false_eq_true, false_iff]
    omega
  · rw [if_neg hover]
    rw [Bool.or_eq_true, decide_eq_true_eq, decide_eq_true_eq] at hover
    simp only [Option.isSome_some, true_iff]
    omega

/-- Half a ring apart at most, two numbers have a difference that fits, either way
    round, exactly when they do not straddle. -/
theorem precedesSigned_isSome_of_half (a b : BitVec w) (h : 2 * ahead a b < 2 ^ w) :
    ((precedesSigned a b).isSome = true ↔ ¬ Straddles a b) ∧
      ((precedesSigned b a).isSome = true ↔ ¬ Straddles a b) := by
  rw [precedesSigned_isSome_iff, precedesSigned_isSome_iff, BitVec.toInt_eq_toNat_cond,
    BitVec.toInt_eq_toNat_cond]
  unfold Straddles
  have ha := a.isLt
  have hb := b.isLt
  cases w with
  | zero =>
      -- There is one number only.
      simp only [Nat.zero_sub, pow_zero] at *
      omega
  | succ n =>
      have hpow : (2 : Int) ^ n = ((2 ^ n : Nat) : Int) := by
        push_cast
        rfl
      simp only [Nat.add_sub_cancel, hpow]
      rw [Nat.pow_succ] at *
      rcases ahead_cases a b with ⟨hle, heq⟩ | ⟨hlt, heq⟩
      · split_ifs <;> omega
      · rw [Nat.pow_succ] at heq
        split_ifs <;> omega

/-- Two numbers of a progression lie as far apart as their places say, as long
    as the stretch between them does not go round the ring. -/
theorem ahead_nth (s inc : BitVec w) (i j : Nat) (hij : i ≤ j)
    (hlt : (j - i) * inc.toNat < 2 ^ w) :
    ahead (nth s inc i) (nth s inc j) = (j - i) * inc.toNat := by
  -- The later number is the earlier one and the steps between the two.
  have hj : nth s inc j = nth s inc i + BitVec.ofNat w (j - i) * inc := by
    have hsplit : BitVec.ofNat w j = BitVec.ofNat w (j - i) + BitVec.ofNat w i := by
      rw [← BitVec.ofNat_add, Nat.sub_add_cancel hij]
    rw [nth, nth, hsplit]
    ring
  rw [hj, ahead_add_right, BitVec.toNat_mul, BitVec.toNat_ofNat, Nat.mod_mul_mod,
    Nat.mod_eq_of_lt hlt]

/-- Numbers congruent modulo a divisor of the ring lie a multiple of it apart. -/
theorem ahead_dvd (a b : BitVec w) (m : Nat) (hm : m ∣ 2 ^ w)
    (hab : a.toNat % m = b.toNat % m) : m ∣ ahead a b := by
  -- The values differ by the distance up to a whole turn, which `m` divides.
  have hsum : m ∣ a.toNat + ahead a b - b.toNat := by
    rcases ahead_cases a b with ⟨hle, heq⟩ | ⟨hlt, heq⟩
    · rw [heq, show a.toNat + (b.toNat - a.toNat) - b.toNat = 0 by omega]
      exact Nat.dvd_zero m
    · have ha := a.isLt
      rw [heq, show a.toNat + (b.toNat + 2 ^ w - a.toNat) - b.toNat = 2 ^ w by omega]
      exact hm
  have hle : b.toNat ≤ a.toNat + ahead a b := by
    rcases ahead_cases a b with ⟨hle, heq⟩ | ⟨hlt, heq⟩ <;> omega
  have hmod : (a.toNat + ahead a b) % m = (a.toNat + 0) % m := by
    rw [Nat.add_zero, hab]
    exact ((Nat.modEq_iff_dvd' hle).mpr hsum).symm
  exact (Nat.modEq_zero_iff_dvd).mp (Nat.ModEq.add_left_cancel' a.toNat hmod)

end Circular
