import CodecChanger.Theory.G711.RoundTrip

/-!
# The Quantisation Error of the A-Law

What the A-law makes of a sample, encoded and decoded. A positive sample is rounded
to the middle of its cell, and the error is half a step at most. From the magnitude
of a negative one the encoder takes 8 before it looks for the cell, where taking 1
would make the cells of the two signs mirror images. A negative sample that lies
less than 8 above a boundary is therefore rounded into the cell below, and the
error is more than half a step, unless it lies on the boundary or the boundary is a
power of two, where the cell below is half as wide.

## Main definitions

* `decodedA`, `decodedU`: The samples of a buffer after encoding and decoding.
* `sampleA`, `sampleU`: What becomes of one sample.
* `stepA`: The step of the A-law.
* `HalfStep`: An error of at most half a step.
* `Spared`: What the 8 does no harm to.

## Theorems

* `decodedA_eq`, `decodedU_eq`: Sample by sample.
* `quantize_same_cell`, `quantize_cell_below`, `quantize_below_power`: The cell of a
  magnitude less 8.
* `sub_eight_iff`: When that is half a step away.
* `halfStep_sample_iff`, `halfStep_iff`: The exact condition for half a step.
-/

namespace CodecChanger

open Bytes Quantizer

/-- The samples of a buffer after the A-law encoder and decoder. -/
def decodedA (pcm : List Byte) (codeRoom pcmRoom : Int) : List (BitVec 16) :=
  let codes := (PcmAEnCoder.codec pcm pcm.length codeRoom).2.written
  words16 (PcmADeCoder.codec codes codes.length pcmRoom).written

/-- The samples of a buffer after the mu-law encoder and decoder. -/
def decodedU (pcm : List Byte) (codeRoom pcmRoom : Int) : List (BitVec 16) :=
  let codes := (PcmUEnCoder.codec pcm pcm.length codeRoom).written
  words16 (PcmUDeCoder.codec codes codes.length pcmRoom).written

/-- What the A-law makes of a sample. -/
def sampleA (s : BitVec 16) : BitVec 16 := PcmADeCoder.round (PcmAEnCoder.code s)

/-- What the mu-law makes of a sample. -/
def sampleU (s : BitVec 16) : BitVec 16 := PcmUDeCoder.round (PcmUEnCoder.round s)

theorem decodedA_eq (pcm : List Byte) (codeRoom pcmRoom : Int)
    (hc : pcm.length / 2 ≤ codeRoom) (hp : pcm.length ≤ pcmRoom) :
    decodedA pcm codeRoom pcmRoom = (words16 pcm).map sampleA :=
  redecoded _ _ _ _ PcmAEnCoder.encodesBy PcmADeCoder.decodesBy pcm codeRoom pcmRoom hc hp

theorem decodedU_eq (pcm : List Byte) (codeRoom pcmRoom : Int)
    (hc : pcm.length / 2 ≤ codeRoom) (hp : pcm.length ≤ pcmRoom) :
    decodedU pcm codeRoom pcmRoom = (words16 pcm).map sampleU :=
  redecoded _ _ _ _ PcmUEnCoder.encodesBy PcmUDeCoder.decodesBy pcm codeRoom pcmRoom hc hp

/-- The step of the A-law at a sample. -/
def stepA (s : BitVec 16) : Nat :=
  if s.toInt.natAbs < 512 then 16 else 2 ^ (Nat.log2 s.toInt.natAbs - 4)

/-- The sample `d` is at most half a step from the sample `s`. -/
def HalfStep (s d : BitVec 16) : Prop := (s.toInt - d.toInt).natAbs ≤ stepA s / 2

/-- The 8 does no harm: the sample is not negative, or it lies on a boundary or at
    least 8 above one, or the boundary is zero or a power of two from 512 on. -/
def Spared (s : BitVec 16) : Prop :=
  0 ≤ s.toInt ∨ s.toInt.natAbs % stepA s = 0 ∨ 8 ≤ s.toInt.natAbs % stepA s ∨
    s.toInt.natAbs < 8 ∨ 512 ≤ s.toInt.natAbs ∧ s.toInt.natAbs / stepA s = 16

instance (s d : BitVec 16) : Decidable (HalfStep s d) := inferInstanceAs (Decidable (_ ≤ _))

instance (s : BitVec 16) : Decidable (Spared s) := inferInstanceAs (Decidable (_ ∨ _))

/-- The step of the A-law is the quantiser's. -/
theorem stepA_eq (s : BitVec 16) : stepA s = step 4 8 s.toInt.natAbs := by
  unfold stepA step
  by_cases h : s.toInt.natAbs < 512
  · have hstep : (16 : Nat) = 2 ^ (8 - 4) := rfl
    rw [if_pos h, exponent_eq 8 _ 8 h (le_refl 8) (Or.inl rfl), ← hstep]
  · have hlog : 9 ≤ Nat.log2 s.toInt.natAbs := (Nat.le_log2 (by omega)).mpr (by omega)
    rw [if_neg h, exponent, max_eq_left (by omega)]

/-- The powers of two around an exponent, in units of a sixteenth of the step. -/
theorem pow_exponent (k : Nat) (hk : 8 ≤ k) :
    ∃ w, 0 < w ∧ 2 ^ (k - 4) = 16 * w ∧ 2 ^ k = 256 * w ∧ 2 ^ (k + 1) = 512 * w := by
  refine ⟨2 ^ (k - 8), Nat.two_pow_pos _, ?_, ?_, ?_⟩
  · rw [show k - 4 = 4 + (k - 8) by omega, Nat.pow_add]
  · rw [show 256 = 2 ^ 8 by rfl, ← Nat.pow_add, show 8 + (k - 8) = k by omega]
  · rw [show 512 = 2 ^ 9 by rfl, ← Nat.pow_add, show 9 + (k - 8) = k + 1 by omega]

/-- At least 8 above a boundary, the magnitude less 8 is in the same cell. -/
theorem quantize_same_cell (k c r : Nat) (hk : 8 ≤ k) (hr : r < 2 ^ (k - 4))
    (hlt : c * 2 ^ (k - 4) + r < 2 ^ (k + 1)) (hle : k = 8 ∨ 16 ≤ c) (h8 : 8 ≤ r) :
    quantize 4 8 (c * 2 ^ (k - 4) + r - 8) = c * 2 ^ (k - 4) + 2 ^ (k - 4) / 2 := by
  rcases pow_exponent k hk with ⟨w, -, hstep, hlead, hnext⟩
  have hcells : 16 ≤ c → 16 * 2 ^ (k - 4) ≤ c * 2 ^ (k - 4) := Nat.mul_le_mul_right _
  have hexp : exponent 8 (c * 2 ^ (k - 4) + r - 8) = k :=
    exponent_eq 8 _ k (by omega) hk (by omega)
  rw [quantize_eq 4 8 _ k hexp, Nat.add_sub_assoc h8, mid_of_cell _ _ _ (by omega)]

/-- Less than 8 above one, it is in the cell below. -/
theorem quantize_cell_below (k c r : Nat) (hk : 8 ≤ k)
    (hlt : c * 2 ^ (k - 4) + r < 2 ^ (k + 1)) (hc : 1 ≤ c) (hle : k = 8 ∨ 17 ≤ c)
    (h8 : r < 8) :
    quantize 4 8 (c * 2 ^ (k - 4) + r - 8) = c * 2 ^ (k - 4) - 2 ^ (k - 4) / 2 := by
  rcases pow_exponent k hk with ⟨w, hw, hstep, hlead, hnext⟩
  have hcells : 17 ≤ c → 17 * 2 ^ (k - 4) ≤ c * 2 ^ (k - 4) := Nat.mul_le_mul_right _
  have hbelow : (c - 1) * 2 ^ (k - 4) + 2 ^ (k - 4) = c * 2 ^ (k - 4) := by
    rw [← Nat.succ_mul, Nat.succ_eq_add_one, Nat.sub_add_cancel hc]
  have hexp : exponent 8 (c * 2 ^ (k - 4) + r - 8) = k :=
    exponent_eq 8 _ k (by omega) hk (by omega)
  rw [quantize_eq 4 8 _ k hexp, ← hbelow, show (c - 1) * 2 ^ (k - 4) + 2 ^ (k - 4) + r - 8 =
    (c - 1) * 2 ^ (k - 4) + (2 ^ (k - 4) + r - 8) by omega, mid_of_cell _ _ _ (by omega)]
  omega

/-- Below a power of two, that cell is half as wide. -/
theorem quantize_below_power (k r : Nat) (hk : 9 ≤ k) (h8 : r < 8) :
    quantize 4 8 (16 * 2 ^ (k - 4) + r - 8) = 16 * 2 ^ (k - 4) - 2 ^ (k - 4) / 4 := by
  rcases pow_exponent (k - 1) (by omega) with ⟨w, hw, hstep, hlead, hnext⟩
  have hwide : 2 ^ (k - 4) = 32 * w := by
    rw [show k - 4 = k - 1 - 4 + 1 by omega, Nat.pow_succ]
    omega
  have hexp : exponent 8 (16 * 2 ^ (k - 4) + r - 8) = k - 1 :=
    exponent_eq 8 _ (k - 1) (by omega) (by omega) (by omega)
  rw [quantize_eq 4 8 _ (k - 1) hexp, hstep, show 16 * 2 ^ (k - 4) + r - 8 =
    31 * (16 * w) + (16 * w + r - 8) by omega, mid_of_cell _ _ _ (by omega)]
  omega

/-- Rounding a magnitude less 8 is off by at most half a step of the magnitude in the
    cases named, and in no others. -/
theorem sub_eight_iff (n : Nat) :
    n ≤ quantize 4 8 (n - 8) + step 4 8 n / 2 ↔
      n % step 4 8 n = 0 ∨ 8 ≤ n % step 4 8 n ∨ n < 8 ∨ 512 ≤ n ∧ n / step 4 8 n = 16 := by
  have hk := le_exponent 8 n
  have hlt := lt_of_exponent 8 n
  -- The magnitude is `r` above the boundary `c` of steps, and `w` is a sixteenth of a step.
  have hlead : exponent 8 n = 8 ∨ 2 ^ exponent 8 n ≤ n := by
    by_cases h : exponent 8 n = 8
    · exact Or.inl h
    · exact Or.inr (le_of_exponent 8 n (by omega))
  unfold step
  generalize exponent 8 n = k at hk hlt hlead ⊢
  rcases pow_exponent k hk with ⟨w, hw, hstep, hpow, hnext⟩
  have hsplit := Nat.div_add_mod n (2 ^ (k - 4))
  have hr := Nat.mod_lt n (Nat.two_pow_pos (k - 4))
  rw [Nat.mul_comm] at hsplit
  generalize n / 2 ^ (k - 4) = c at hsplit ⊢
  generalize n % 2 ^ (k - 4) = r at hsplit hr ⊢
  have hfew : c ≤ 15 → c * 2 ^ (k - 4) ≤ 15 * 2 ^ (k - 4) := Nat.mul_le_mul_right _
  have hsome : 1 ≤ c → 1 * 2 ^ (k - 4) ≤ c * 2 ^ (k - 4) := Nat.mul_le_mul_right _
  have hcells : k = 8 ∨ 16 ≤ c := by omega
  -- Where the 8 takes it: to the same cell, to zero, or to the cell below.
  by_cases h8 : 8 ≤ r
  · have hq := quantize_same_cell k c r hk hr (by omega) hcells h8
    rw [hsplit] at hq
    omega
  · by_cases hn : n < 8
    · omega
    · have hc : 1 ≤ c := by
        by_contra hzero
        rw [show c = 0 by omega, Nat.zero_mul] at hsplit
        omega
      by_cases hedge : k = 8 ∨ 17 ≤ c
      · have hq := quantize_cell_below k c r hk (by omega) hc hedge (by omega)
        have hsmall : k = 8 → 2 ^ (k + 1) = 512 := by
          intro h
          rw [h]
          rfl
        rw [hsplit] at hq
        omega
      · -- The boundary is a power of two, and not the smallest.
        have hq := quantize_below_power k r (by omega) (by omega)
        have hnine : 2 ^ 9 ≤ 2 ^ k := Nat.pow_le_pow_right (by omega) (by omega)
        rw [show c = 16 by omega] at hsplit ⊢
        rw [hsplit] at hq
        omega

/-- The A-law is off by at most half a step on exactly the samples that are spared. -/
theorem halfStep_sample_iff (s : BitVec 16) : HalfStep s (sampleA s) ↔ Spared s := by
  have hround := PcmADeCoder.round_code s
  have hle := quantize_le 4 8 s.toInt.natAbs
  have hge := le_quantize 4 8 s.toInt.natAbs
  unfold HalfStep Spared sampleA
  rw [hround, stepA_eq]
  unfold sign shifted
  by_cases hs : s.toInt < 0
  · -- A negative sample: the error on the side of zero is the one that matters.
    have hmono := quantize_mono 4 8 (s.toInt.natAbs - 8) s.toInt.natAbs (by omega) (by omega)
    rw [if_pos hs, if_pos hs, ← sub_eight_iff]
    omega
  · rw [if_neg hs, if_neg hs]
    refine ⟨fun _ => Or.inl (by omega), fun _ => by omega⟩

/-- The samples of a buffer are at most half a step off after the A-law encoder and
    decoder exactly when every one of them is spared. -/
theorem halfStep_iff (pcm : List Byte) (codeRoom pcmRoom : Int)
    (hc : pcm.length / 2 ≤ codeRoom) (hp : pcm.length ≤ pcmRoom) :
    List.Forall₂ HalfStep (words16 pcm) (decodedA pcm codeRoom pcmRoom) ↔
      ∀ s, s ∈ words16 pcm → Spared s := by
  rw [decodedA_eq pcm codeRoom pcmRoom hc hp, List.forall₂_map_right_iff, List.forall₂_same]
  exact forall₂_congr fun s _ => halfStep_sample_iff s

/-- The sample -24 lies 8 above a boundary. -/
theorem halfStep_iff_spared :
    List.Forall₂ HalfStep (words16 [0xE8, 0xFF]) (decodedA [0xE8, 0xFF] 1 2) := by
  refine (halfStep_iff [0xE8, 0xFF] 1 2 (by decide) (by decide)).mpr ?_
  have hpcm : words16 [0xE8, 0xFF] = [BitVec.ofInt 16 (-24)] := by decide +kernel
  rw [hpcm, List.forall_mem_singleton]
  decide +kernel

/-- The sample -17 lies one above a boundary, and comes back as -8. -/
theorem halfStep_fails :
    words16 [0xEF, 0xFF] = [BitVec.ofInt 16 (-17)] ∧
      decodedA [0xEF, 0xFF] 1 2 = [BitVec.ofInt 16 (-8)] ∧
      ¬ List.Forall₂ HalfStep (words16 [0xEF, 0xFF]) (decodedA [0xEF, 0xFF] 1 2) := by
  have hpcm : words16 [0xEF, 0xFF] = [BitVec.ofInt 16 (-17)] := by decide +kernel
  have hdecoded : decodedA [0xEF, 0xFF] 1 2 = [BitVec.ofInt 16 (-8)] := by decide +kernel
  refine ⟨hpcm, hdecoded, ?_⟩
  rw [hpcm, hdecoded]
  intro h
  exact absurd (List.forall₂_cons.mp h).1 (by decide +kernel)

end CodecChanger
