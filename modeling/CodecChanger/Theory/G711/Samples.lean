import CodecChanger.Core.G711
import CodecChanger.Lib.Quantizer

/-!
# The G.711 Laws on One Sample

Each law, encoded and decoded, as a quantiser of the magnitude with four bits
behind the leading one. The mu-law adds a bias first, which puts every magnitude
at or above the smallest exponent, and takes it off at the end. The A-law has no
bias and a linear range below the smallest exponent instead.

The segment an encoder finds is the exponent, the four bits are the place of the
cell above the power of two, and the tables hold the middles of the cells. So
much of the proof is about any magnitude; what is left to check of the tables is
one closed form on 128 codes.

## Main definitions

* `expand`: The middle of the cell that a segment and four bits name.

## Theorems

* `segment_eq`, `segment_out`: The segment of a magnitude.
* `expand_eq`: The cell that is named is that of the magnitude.
* `PcmUDeCoder.round_round`: The mu-law on one sample.
* `PcmADeCoder.round_code`: The A-law on one sample.
-/

namespace CodecChanger

open Bytes Quantizer

theorem segEnd_get : ∀ i < 8, segEnd.getD i 0 = 2 ^ (i + 8) - 1 := by decide

/-- The segment of a magnitude is its exponent, counted from seven. -/
theorem segment_eq (n k : Nat) (hk : 7 ≤ k) (hk' : k < 15) (hlt : n < 2 ^ (k + 1))
    (hle : k = 7 ∨ 2 ^ k ≤ n) : segment n = k - 7 := by
  have hlength : k - 7 < segEnd.length := by
    change k - 7 < 8
    omega
  have hend : ∀ i (h : i < segEnd.length), segEnd[i] = 2 ^ (i + 8) - 1 := by
    intro i h
    rw [← segEnd_get i h, List.getD_eq_getElem?_getD, List.getElem?_eq_getElem h,
      Option.getD_some]
  refine (List.findIdx_eq hlength).mpr ⟨?_, fun j hj => ?_⟩
  · rw [hend, decide_eq_true_eq, show k - 7 + 8 = k + 1 by omega]
    have hcast : (n : Int) < 2 ^ (k + 1) := by exact_mod_cast hlt
    omega
  · -- The segments before it end below the power of two.
    have hpow : 2 ^ (j + 8) ≤ 2 ^ k := Nat.pow_le_pow_right (by omega) (by omega)
    have hcast : (2 : Int) ^ (j + 8) ≤ n := by
      rcases hle with hle | hle
      · omega
      · exact_mod_cast hpow.trans hle
    rw [hend, decide_eq_false_iff_not]
    omega

/-- A magnitude of more than fifteen bits is in no segment. -/
theorem segment_out (n : Nat) (h : 2 ^ 15 ≤ n) : segment n = 8 := by
  refine List.findIdx_eq_length_of_false fun e he => ?_
  have hmax : ∀ e ∈ segEnd, e ≤ 0x7FFF := by decide
  have hle := hmax e he
  rw [decide_eq_false_iff_not]
  omega

/-- The middle of the cell that a segment and four bits name. -/
def expand (seg mant : Nat) : Nat := (mant + 16) * 2 ^ (seg + 3) + 2 ^ (seg + 2)

/-- The bits behind the leading one of a magnitude name its cell. -/
theorem expand_eq (n k : Nat) (hk : 7 ≤ k) (hlt : n < 2 ^ (k + 1)) (hle : 2 ^ k ≤ n) :
    expand (k - 7) (n / 2 ^ (k - 4) % 16) = mid (2 ^ (k - 4)) n := by
  have hhigh : n / 2 ^ (k - 4) < 32 := by
    refine (Nat.div_lt_iff_lt_mul (Nat.two_pow_pos _)).mpr ?_
    rw [show 32 = 2 ^ 5 by rfl, ← Nat.pow_add, show 5 + (k - 4) = k + 1 by omega]
    exact hlt
  have hlow : 16 ≤ n / 2 ^ (k - 4) := by
    refine (Nat.le_div_iff_mul_le (Nat.two_pow_pos _)).mpr ?_
    rw [show 16 = 2 ^ 4 by rfl, ← Nat.pow_add, show 4 + (k - 4) = k by omega]
    exact hle
  have hhalf : 2 ^ (k - 4) / 2 = 2 ^ (k - 7 + 2) := by
    rw [show k - 4 = k - 7 + 2 + 1 by omega, Nat.pow_succ, Nat.mul_div_cancel _ (by omega)]
  unfold expand mid
  rw [show n / 2 ^ (k - 4) % 16 + 16 = n / 2 ^ (k - 4) by omega, hhalf,
    show k - 7 + 3 = k - 4 by omega]

/-- A segment and four bits put together. -/
theorem toNat_code (seg m : Nat) (h : seg < 8) :
    BitVec.ofNat 8 (seg <<< 4) ||| (BitVec.ofInt 8 (m : Int) &&& 0xF) =
      BitVec.ofNat 8 (16 * seg + m % 16) := by
  have hcodes : ∀ seg < 8, ∀ r < 16, BitVec.ofNat 8 (seg <<< 4) ||| BitVec.ofNat 8 r =
      BitVec.ofNat 8 (16 * seg + r) := by decide
  have hlow : BitVec.ofInt 8 (m : Int) &&& 0xF = BitVec.ofNat 8 (m % 16) := by
    rw [BitVec.ofInt_natCast]
    refine BitVec.eq_of_toNat_eq ?_
    rw [BitVec.toNat_and, BitVec.toNat_ofNat, BitVec.toNat_ofNat]
    have hmask : m % 2 ^ 8 &&& (0xF : BitVec 8).toNat = m % 2 ^ 8 % 2 ^ 4 :=
      Nat.and_two_pow_sub_one_eq_mod _ 4
    rw [hmask]
    omega
  rw [hlow]
  exact hcodes seg h (m % 16) (Nat.mod_lt _ (by omega))

/-- What a shift of a magnitude leaves, and the code made of it. -/
theorem code_of_shift (n seg t : Nat) (h : seg < 8) :
    BitVec.ofNat 8 (seg <<< 4) ||| (BitVec.ofInt 8 ((n : Int) >>> t) &&& 0xF) =
      BitVec.ofNat 8 (16 * seg + n / 2 ^ t % 16) := by
  have hshift : (n : Int) >>> t = ((n / 2 ^ t : Nat) : Int) := by
    rw [← Nat.shiftRight_eq_div_pow]
    rfl
  rw [hshift]
  exact toNat_code seg (n / 2 ^ t) h

/-- The sign of a sample. -/
def sign (s : BitVec 16) : Int := if s.toInt < 0 then -1 else 1

/-- The magnitude of a sample that the mu-law sees: above the clip level there is
    nothing. -/
def clipped (s : BitVec 16) : Nat := min s.toInt.natAbs 32635

theorem natAbs_toInt_le (s : BitVec 16) : s.toInt.natAbs ≤ 32768 := by
  have hlt := BitVec.toInt_lt (x := s)
  have hle := BitVec.le_toInt s
  omega

/-- The bias puts every magnitude at or above the smallest exponent. -/
theorem exponent_biased (m : Nat) (h : m ≤ 32635) :
    exponent 7 (m + 132) < 15 ∧ 2 ^ exponent 7 (m + 132) ≤ m + 132 := by
  have hmono := exponent_mono 7 (m + 132) 32767 (by omega)
  have hmax : exponent 7 32767 = 14 := exponent_eq 7 32767 14 (by decide) (by decide)
    (Or.inr (by decide))
  refine ⟨by omega, ?_⟩
  by_cases h7 : exponent 7 (m + 132) = 7
  · rw [h7]
    omega
  · have hseven := le_exponent 7 (m + 132)
    exact le_of_exponent 7 _ (by omega)

/-- The mu-law code of a sample names the cell of its clipped magnitude with the
    bias. -/
theorem PcmUEnCoder.round_eq (s : BitVec 16) :
    PcmUEnCoder.round s =
      BitVec.ofNat 8 (16 * (exponent 7 (clipped s + 132) - 7) +
        (clipped s + 132) / 2 ^ (exponent 7 (clipped s + 132) - 4) % 16) ^^^
        if s.toInt < 0 then 0x7F else 0xFF := by
  have hbias : (if s.toInt < 0 then kBIAS - s.toInt else s.toInt + kBIAS) =
      ((s.toInt.natAbs + 132 : Nat) : Int) := by
    unfold kBIAS
    split
    · omega
    · omega
  unfold PcmUEnCoder.round
  simp only [hbias]
  by_cases hclip : s.toInt.natAbs ≤ 32635
  · -- In range: the segment is the exponent.
    have hn : clipped s = s.toInt.natAbs := Nat.min_eq_left hclip
    have hseven := le_exponent 7 (s.toInt.natAbs + 132)
    have hlt := lt_of_exponent 7 (s.toInt.natAbs + 132)
    rcases exponent_biased s.toInt.natAbs hclip with ⟨hexp, hle⟩
    rw [hn, segment_eq _ _ hseven hexp hlt (Or.inr hle), if_neg (by omega),
      code_of_shift _ _ _ (by omega), show exponent 7 (s.toInt.natAbs + 132) - 7 + 3 =
        exponent 7 (s.toInt.natAbs + 132) - 4 by omega]
  · -- Out of range: the code is that of the largest magnitude in range.
    have hn : clipped s = 32635 := Nat.min_eq_right (by omega)
    have hmax : exponent 7 (32635 + 132) = 14 := exponent_eq 7 _ 14 (by decide) (by decide)
      (Or.inr (by decide))
    rw [segment_out _ (by omega), if_pos (le_refl 8), hn, hmax]
    rfl

/-- The mu-law table on the codes of positive samples. -/
theorem PcmUDeCoder.round_pos : ∀ seg < 8, ∀ r < 16,
    (PcmUDeCoder.round (BitVec.ofNat 8 (16 * seg + r) ^^^ 0xFF)).toInt = expand seg r - 132 := by
  decide +kernel

/-- And of negative samples. -/
theorem PcmUDeCoder.round_neg : ∀ seg < 8, ∀ r < 16,
    (PcmUDeCoder.round (BitVec.ofNat 8 (16 * seg + r) ^^^ 0x7F)).toInt =
      -((expand seg r : Int) - 132) := by
  decide +kernel

/-- The mu-law on one sample. -/
theorem PcmUDeCoder.round_round (s : BitVec 16) :
    (PcmUDeCoder.round (PcmUEnCoder.round s)).toInt =
      sign s * ((quantize 4 7 (clipped s + 132) : Int) - 132) := by
  have hseven := le_exponent 7 (clipped s + 132)
  have hlt := lt_of_exponent 7 (clipped s + 132)
  rcases exponent_biased (clipped s) (Nat.min_le_right _ _) with ⟨hexp, hle⟩
  have hcell := expand_eq (clipped s + 132) _ hseven hlt hle
  have hbits := Nat.mod_lt ((clipped s + 132) / 2 ^ (exponent 7 (clipped s + 132) - 4))
    (show 16 > 0 by omega)
  rw [PcmUEnCoder.round_eq, quantize, step, ← hcell]
  unfold sign
  split
  · rw [PcmUDeCoder.round_neg _ (by omega) _ hbits, Int.neg_one_mul]
  · rw [PcmUDeCoder.round_pos _ (by omega) _ hbits, Int.one_mul]

/-- The magnitude of a sample that the A-law sees: of a negative one 8 less, and
    never less than zero. -/
def shifted (s : BitVec 16) : Nat :=
  if s.toInt < 0 then s.toInt.natAbs - 8 else s.toInt.natAbs

theorem shifted_lt (s : BitVec 16) : shifted s < 2 ^ 15 := by
  have habs := natAbs_toInt_le s
  have hlt := BitVec.toInt_lt (x := s)
  unfold shifted
  split
  · omega
  · omega

namespace PcmAEnCoder

/-- The code of a sample. -/
def code (s : BitVec 16) : Byte :=
  combine (magnitude s).1 (segment (magnitude s).1.toInt) ^^^ (magnitude s).2

theorem toInt_magnitude (s : BitVec 16) : (magnitude s).1.toInt = shifted s := by
  have habs := natAbs_toInt_le s
  unfold magnitude shifted
  by_cases hs : s.toInt < 0
  · have hcast : (BitVec.ofInt 16 (-s.toInt - 8)).toInt = -s.toInt - 8 := by
      rw [BitVec.toInt_ofInt]
      refine Int.bmod_eq_of_le ?_ ?_
      · omega
      · omega
    rw [if_neg (by omega), if_pos hs]
    simp only [hcast]
    split
    · change (0 : Int) = _
      omega
    · rw [hcast]
      omega
  · rw [if_pos (by omega), if_neg hs]
    change s.toInt = _
    omega

theorem mask_magnitude (s : BitVec 16) :
    (magnitude s).2 = if s.toInt < 0 then 0x55 else 0xD5 := by
  unfold magnitude
  by_cases hs : s.toInt < 0
  · rw [if_neg (by omega), if_pos hs]
  · rw [if_pos (by omega), if_neg hs]

/-- The A-law looks for a segment as the mu-law does, and finds one for every
    sample. -/
theorem segment_magnitude (s : BitVec 16) :
    segment (magnitude s).1.toInt = exponent 7 (shifted s) - 7 ∧ exponent 7 (shifted s) < 15 := by
  have hlt := shifted_lt s
  have hseven := le_exponent 7 (shifted s)
  have hexp : exponent 7 (shifted s) < 15 := by
    by_contra hc
    have hle := le_of_exponent 7 (shifted s) (by omega)
    have hpow : 2 ^ 15 ≤ 2 ^ exponent 7 (shifted s) := Nat.pow_le_pow_right (by omega) (by omega)
    omega
  refine ⟨?_, hexp⟩
  rw [toInt_magnitude]
  refine segment_eq _ _ hseven hexp (lt_of_exponent 7 _) ?_
  by_cases h7 : exponent 7 (shifted s) = 7
  · exact Or.inl h7
  · exact Or.inr (le_of_exponent 7 _ (by omega))

/-- In the first segment the four bits count the cells from zero. -/
theorem code_linear (s : BitVec 16) (h : exponent 7 (shifted s) = 7) :
    code s = BitVec.ofNat 8 (16 * 0 + shifted s / 16) ^^^ if s.toInt < 0 then 0x55 else 0xD5 := by
  have hlt := lt_of_exponent 7 (shifted s)
  rw [h] at hlt
  have hcode := code_of_shift (shifted s) 0 4 (by omega)
  rw [Nat.mod_eq_of_lt (show shifted s / 2 ^ 4 < 16 by omega)] at hcode
  unfold code combine
  rw [(segment_magnitude s).1, toInt_magnitude, mask_magnitude, h, if_pos (by omega)]
  exact congrArg (· ^^^ _) hcode

/-- In the others they are those behind the leading one. -/
theorem code_segment (s : BitVec 16) (h : exponent 7 (shifted s) ≠ 7) :
    code s = BitVec.ofNat 8 (16 * (exponent 7 (shifted s) - 7) +
        shifted s / 2 ^ (exponent 7 (shifted s) - 4) % 16) ^^^
      if s.toInt < 0 then 0x55 else 0xD5 := by
  have hseven := le_exponent 7 (shifted s)
  rcases segment_magnitude s with ⟨hseg, hexp⟩
  unfold code combine
  rw [hseg, toInt_magnitude, mask_magnitude, ← code_of_shift _ _ _ (by omega)]
  by_cases h8 : exponent 7 (shifted s) = 8
  · -- The second segment is shifted by four as well.
    rw [h8, if_pos (by omega)]
    rfl
  · rw [if_neg (by omega), show exponent 7 (shifted s) - 7 + 3 =
      exponent 7 (shifted s) - 4 by omega]
    rfl

/-- The loop runs to its end: every sample is in a segment. -/
theorem loop_eq (l : List (BitVec 16)) :
    loop l = (l.map fun s => (magnitude s).1, l.map code, none) := by
  induction l with
  | nil => rfl
  | cons s l ih =>
      rcases segment_magnitude s with ⟨hseg, hexp⟩
      unfold loop
      simp only [ih]
      rw [if_neg (by omega)]
      rfl

end PcmAEnCoder

/-- Below the smallest exponent the cells of the A-law are sixteen wide. -/
theorem quantize_linear (n : Nat) (h : exponent 7 n = 7) : quantize 4 8 n = 16 * (n / 16) + 8 := by
  have hlt := lt_of_exponent 7 n
  rw [h] at hlt
  rw [quantize_eq 4 8 n 8 (exponent_eq 8 n 8 (by omega) (le_refl 8) (Or.inl rfl))]
  unfold mid
  omega

/-- From there on they are those of the bits behind the leading one. -/
theorem quantize_segment (n : Nat) (h : exponent 7 n ≠ 7) :
    quantize 4 8 n = expand (exponent 7 n - 7) (n / 2 ^ (exponent 7 n - 4) % 16) := by
  have hseven := le_exponent 7 n
  have hlt := lt_of_exponent 7 n
  have hle := le_of_exponent 7 n (by omega)
  rw [expand_eq n _ hseven hlt hle]
  exact quantize_eq 4 8 n _ (exponent_eq 8 n _ hlt (by omega) (Or.inr hle))

namespace PcmADeCoder

/-- The A-law table on the codes of the first segment. -/
theorem round_linear : ∀ r < 16,
    (round (BitVec.ofNat 8 (16 * 0 + r) ^^^ 0xD5)).toInt = 16 * r + 8 ∧
      (round (BitVec.ofNat 8 (16 * 0 + r) ^^^ 0x55)).toInt = -(16 * r + 8) := by
  decide +kernel

/-- And on those of the others. -/
theorem round_segment : ∀ seg < 8, seg ≠ 0 → ∀ r < 16,
    (round (BitVec.ofNat 8 (16 * seg + r) ^^^ 0xD5)).toInt = expand seg r ∧
      (round (BitVec.ofNat 8 (16 * seg + r) ^^^ 0x55)).toInt = -(expand seg r : Int) := by
  decide +kernel

/-- The A-law on one sample. -/
theorem round_code (s : BitVec 16) :
    (round (PcmAEnCoder.code s)).toInt = sign s * quantize 4 8 (shifted s) := by
  have hseven := le_exponent 7 (shifted s)
  have hexp := (PcmAEnCoder.segment_magnitude s).2
  unfold sign
  by_cases h7 : exponent 7 (shifted s) = 7
  · have hlt := lt_of_exponent 7 (shifted s)
    rw [h7] at hlt
    rcases round_linear (shifted s / 16) (by omega) with ⟨hpos, hneg⟩
    rw [PcmAEnCoder.code_linear s h7, quantize_linear _ h7]
    split
    · rw [hneg]
      push_cast
      omega
    · rw [hpos]
      push_cast
      omega
  · have hbits := Nat.mod_lt (shifted s / 2 ^ (exponent 7 (shifted s) - 4))
      (show 16 > 0 by omega)
    rcases round_segment (exponent 7 (shifted s) - 7) (by omega) (by omega) _ hbits with
      ⟨hpos, hneg⟩
    rw [PcmAEnCoder.code_segment s h7, quantize_segment _ h7]
    split
    · rw [hneg, Int.neg_one_mul]
    · rw [hpos, Int.one_mul]

end PcmADeCoder

end CodecChanger
