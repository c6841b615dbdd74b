import CodecChanger.Theory.G711.Quantization

/-!
# The Error of the Mu-Law, and Order

The mu-law rounds a magnitude, clipped and with the bias, to the middle of its cell,
and takes the bias off again, on both signs alike. The bias is the middle of its own
cell, so nothing falls below zero, and the error is half a step at most.

Rounding keeps the order of magnitudes. So each law keeps the order of samples, the
A-law with what it takes from negative ones notwithstanding.

## Main definitions

* `Companded`: The error of the mu-law on a sample.
* `KeepsOrder`: Larger samples stay larger.

## Theorems

* `companded_sample`, `companded`: The error of the mu-law.
* `sampleA_mono`, `sampleU_mono`: Each law on two samples.
* `companding_monotone`: Both laws keep the order.
-/

namespace CodecChanger

open Bytes Quantizer

/-- The error of the mu-law on a sample: with `e` the segment of the clipped magnitude
    and the bias, the magnitude is at most half of that segment's step off, and the
    sign is kept if anything is left of the sample. -/
def Companded (s d : BitVec 16) : Prop :=
  ∃ e, 2 ^ (e + 7) ≤ clipped s + 132 ∧ clipped s + 132 < 2 ^ (e + 8) ∧
    ((d.toInt.natAbs : Int) - clipped s).natAbs ≤ 4 * 2 ^ e ∧
    (d.toInt = 0 ∨ (0 < d.toInt ∧ 0 < s.toInt) ∨ (d.toInt < 0 ∧ s.toInt < 0))

/-- The bias is the middle of its own cell. -/
theorem quantize_bias : quantize 4 7 132 = 132 :=
  quantize_eq 4 7 132 7 (exponent_eq 7 132 7 (by decide) (le_refl 7) (Or.inl rfl))

/-- So taking it off leaves no magnitude below zero. -/
theorem bias_le_quantize (m : Nat) : 132 ≤ quantize 4 7 (m + 132) := by
  have hmono := quantize_mono 4 7 132 (m + 132) (by omega) (by omega)
  rw [quantize_bias] at hmono
  exact hmono

theorem companded_sample (s : BitVec 16) : Companded s (sampleU s) := by
  have hround := PcmUDeCoder.round_round s
  have hseven := le_exponent 7 (clipped s + 132)
  have hlt := lt_of_exponent 7 (clipped s + 132)
  have hge := (exponent_biased (clipped s) (Nat.min_le_right _ _)).2
  have hbias := bias_le_quantize (clipped s)
  have hup := quantize_le 4 7 (clipped s + 132)
  have hdown := le_quantize 4 7 (clipped s + 132)
  have hhalf : step 4 7 (clipped s + 132) / 2 = 4 * 2 ^ (exponent 7 (clipped s + 132) - 7) := by
    rw [step, show exponent 7 (clipped s + 132) - 4 =
      2 + (exponent 7 (clipped s + 132) - 7) + 1 by omega, Nat.pow_succ,
      Nat.mul_div_cancel _ (by omega), Nat.pow_add]
  rw [hhalf] at hup hdown
  -- The segments are counted from the first, where the exponent is 7.
  refine ⟨exponent 7 (clipped s + 132) - 7, ?_, ?_, ?_, ?_⟩
  · rw [show exponent 7 (clipped s + 132) - 7 + 7 = exponent 7 (clipped s + 132) by omega]
    exact hge
  · rw [show exponent 7 (clipped s + 132) - 7 + 8 = exponent 7 (clipped s + 132) + 1 by omega]
    exact hlt
  · unfold sampleU
    rw [hround]
    unfold sign
    split
    · omega
    · omega
  · unfold sampleU
    rw [hround]
    unfold sign
    by_cases hzero : s.toInt = 0
    · -- Of zero nothing is left.
      have hclip : clipped s = 0 := by
        unfold clipped
        rw [hzero]
        rfl
      rw [hclip, Nat.zero_add, quantize_bias]
      exact Or.inl (by omega)
    · split
      · omega
      · omega

/-- Every sample of a buffer comes back from the mu-law encoder and decoder with an
    error of at most half a step, the clip level and the smallest sample included. -/
theorem companded (pcm : List Byte) (codeRoom pcmRoom : Int) (hc : pcm.length / 2 ≤ codeRoom)
    (hp : pcm.length ≤ pcmRoom) :
    List.Forall₂ Companded (words16 pcm) (decodedU pcm codeRoom pcmRoom) := by
  rw [decodedU_eq pcm codeRoom pcmRoom hc hp, List.forall₂_map_right_iff, List.forall₂_same]
  exact fun s _ => companded_sample s

/-- The smallest sample and a small one. -/
theorem companded_smallest :
    List.Forall₂ Companded (words16 [0x00, 0x80, 0x05, 0x00])
      (decodedU [0x00, 0x80, 0x05, 0x00] 2 4) :=
  companded [0x00, 0x80, 0x05, 0x00] 2 4 (by decide) (by decide)

/-- The second list is as long as the first, and where that has no smaller sample,
    neither has it. -/
structure KeepsOrder (l l' : List (BitVec 16)) : Prop where
  length_eq : l'.length = l.length
  le_of_le : ∀ (i j : Nat) (s t d e : BitVec 16), l[i]? = some s → l[j]? = some t →
    l'[i]? = some d → l'[j]? = some e → s.toInt ≤ t.toInt → d.toInt ≤ e.toInt

/-- What keeps the order of samples keeps that of a list. -/
theorem keepsOrder_map (f : BitVec 16 → BitVec 16)
    (hf : ∀ s t, s.toInt ≤ t.toInt → (f s).toInt ≤ (f t).toInt) (l : List (BitVec 16)) :
    KeepsOrder l (l.map f) := by
  refine ⟨List.length_map _, fun i j s t d e hs ht hd he hst => ?_⟩
  rw [List.getElem?_map, hs, Option.map_some, Option.some.injEq] at hd
  rw [List.getElem?_map, ht, Option.map_some, Option.some.injEq] at he
  rw [← hd, ← he]
  exact hf s t hst

theorem sampleA_mono (s t : BitVec 16) (h : s.toInt ≤ t.toInt) :
    (sampleA s).toInt ≤ (sampleA t).toInt := by
  have hmono := fun v w => quantize_mono 4 8 v w (by omega)
  have hpos := hmono (shifted s) (shifted t)
  have hneg := hmono (shifted t) (shifted s)
  unfold sampleA
  rw [PcmADeCoder.round_code, PcmADeCoder.round_code]
  unfold sign shifted at *
  split_ifs at * with hs ht
  · -- Two negative samples: the magnitudes are the other way round.
    have hle := hneg (by omega)
    omega
  · omega
  · omega
  · have hle := hpos (by omega)
    omega

theorem sampleU_mono (s t : BitVec 16) (h : s.toInt ≤ t.toInt) :
    (sampleU s).toInt ≤ (sampleU t).toInt := by
  have hmono := fun v w => quantize_mono 4 7 v w (by omega)
  have hs := bias_le_quantize (clipped s)
  have ht := bias_le_quantize (clipped t)
  have hpos := hmono (clipped s + 132) (clipped t + 132)
  have hneg := hmono (clipped t + 132) (clipped s + 132)
  unfold sampleU
  rw [PcmUDeCoder.round_round, PcmUDeCoder.round_round]
  unfold sign
  -- As for the A-law, with the bias keeping the two signs apart.
  by_cases hs0 : s.toInt < 0
  · by_cases ht0 : t.toInt < 0
    · have hle := hneg (by unfold clipped; omega)
      rw [if_pos hs0, if_pos ht0]
      omega
    · rw [if_pos hs0, if_neg ht0]
      omega
  · have hle := hpos (by unfold clipped; omega)
    rw [if_neg hs0, if_neg (by omega)]
    omega

/-- Both laws keep the order of the samples of a buffer. -/
theorem companding_monotone (pcm : List Byte) (codeRoom pcmRoom : Int)
    (hc : pcm.length / 2 ≤ codeRoom) (hp : pcm.length ≤ pcmRoom) :
    KeepsOrder (words16 pcm) (decodedU pcm codeRoom pcmRoom) ∧
      KeepsOrder (words16 pcm) (decodedA pcm codeRoom pcmRoom) := by
  rw [decodedU_eq pcm codeRoom pcmRoom hc hp, decodedA_eq pcm codeRoom pcmRoom hc hp]
  exact ⟨keepsOrder_map sampleU sampleU_mono _, keepsOrder_map sampleA sampleA_mono _⟩

/-- Two samples on either side of zero. -/
theorem companding_monotone_pair :
    KeepsOrder (words16 [0xEF, 0xFF, 0x05, 0x00]) (decodedU [0xEF, 0xFF, 0x05, 0x00] 2 4) ∧
      KeepsOrder (words16 [0xEF, 0xFF, 0x05, 0x00]) (decodedA [0xEF, 0xFF, 0x05, 0x00] 2 4) :=
  companding_monotone [0xEF, 0xFF, 0x05, 0x00] 2 4 (by decide) (by decide)

end CodecChanger
