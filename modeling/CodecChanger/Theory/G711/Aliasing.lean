import CodecChanger.Theory.G711.Samples

/-!
# What the A-Law Encoder Leaves of Its Input

The mu-law encoder copies each sample and leaves its input alone. In the A-law
encoder the same variable is a reference to the sample, and where it is replaced by
a magnitude, so is the sample in the caller's buffer. That happens to every
negative sample, and to no other. A buffer with one is changed, and encoded a second
time its negative samples are taken for positive ones.

## Main definitions

* `LeavesInput`: A call leaves its input alone, and can be made again.

## Theorems

* `magnitude_eq_iff`: When a sample is left alone.
* `codec_input`: The input after a call.
* `leavesInput_iff`: The exact condition for the input to be left alone.
-/

namespace CodecChanger

open Bytes

namespace PcmAEnCoder

/-- After the call the input is as it was, and the same call made again returns and
    writes the same. -/
def LeavesInput (input : List Byte) (length outputLength : Int) : Prop :=
  (codec input length outputLength).1 = input ∧
    (codec (codec input length outputLength).1 length outputLength).2 =
      (codec input length outputLength).2

/-- A sample is left alone when it is not negative. -/
theorem magnitude_eq_iff (s : BitVec 16) : (magnitude s).1 = s ↔ 0 ≤ s.toInt := by
  have hmag := toInt_magnitude s
  constructor
  · intro h
    rw [h] at hmag
    omega
  · intro h
    unfold magnitude
    rw [if_pos h]

/-- The input after a call with room: of the samples that were encoded there are the
    magnitudes. -/
theorem codec_input (input : List Byte) (length outputLength : Int)
    (hroom : length / 2 ≤ outputLength) :
    (codec input length outputLength).1 =
      (((words16 input).take (length / 2).toNat).map fun s => (magnitude s).1).flatMap bytes16 ++
        input.drop (2 * (length / 2).toNat) := by
  unfold codec
  rw [if_neg (by omega)]
  simp only [loop_eq]

/-- A call leaves its input alone exactly when none of the samples it encodes is
    negative. -/
theorem leavesInput_iff (input : List Byte) (length outputLength : Int)
    (hlength : length ≤ input.length) (hroom : length / 2 ≤ outputLength) :
    LeavesInput input length outputLength ↔
      ∀ s, s ∈ (words16 input).take (length / 2).toNat → 0 ≤ s.toInt := by
  have hinput := codec_input input length outputLength hroom
  have hback := flatMap_words16_take input (length / 2).toNat (by omega)
  constructor
  · rintro ⟨hsame, -⟩ s hs
    -- The bytes in front are those of the magnitudes and those of the samples.
    rw [hinput] at hsame
    have hfront := congrArg (List.take (2 * (length / 2).toNat)) hsame
    rw [List.take_left' (by
      rw [length_flatMap_bytes16, List.length_map, List.length_take, length_words16]
      omega), ← hback] at hfront
    have hwords := congrArg words16 hfront
    rw [words16_flatMap, words16_flatMap] at hwords
    have hid := List.map_inj_left.mp (hwords.trans (List.map_id _).symm)
    exact (magnitude_eq_iff s).mp (hid s hs)
  · intro hpos
    have hsame : (codec input length outputLength).1 = input := by
      rw [hinput, List.map_congr_left (fun s hs => (magnitude_eq_iff s).mpr (hpos s hs)),
        List.map_id', hback, List.take_append_drop]
    unfold LeavesInput
    rw [hsame]
    exact ⟨rfl, rfl⟩

/-- A positive sample. -/
theorem leavesInput_positive : LeavesInput [0x34, 0x12] 2 1 := by
  refine (leavesInput_iff [0x34, 0x12] 2 1 (by decide) (by decide)).mpr ?_
  have hpcm : (words16 [0x34, 0x12]).take ((2 : Int) / 2).toNat = [0x1234] := by decide +kernel
  rw [hpcm, List.forall_mem_singleton]
  decide +kernel

/-- The sample -100 is left as 92, and then encoded as that. -/
theorem leavesInput_fails :
    codec [0x9C, 0xFF] 2 1 = ([0x5C, 0x00], { ret := 1, written := [0x50] }) ∧
      codec [0x5C, 0x00] 2 1 = ([0x5C, 0x00], { ret := 1, written := [0xD0] }) ∧
      ¬ LeavesInput [0x9C, 0xFF] 2 1 := by
  refine ⟨by decide +kernel, by decide +kernel, ?_⟩
  intro h
  exact absurd h.1 (by decide +kernel)

end PcmAEnCoder

end CodecChanger
