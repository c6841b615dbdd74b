import CodecChanger.Core.White
import CodecChanger.Theory.G711.RoundTrip

/-!
# The Silence of the G.711 Coders

What `GetWhite` of a G.711 coder makes for some frames, a frame being 160 samples
as the interface of the coders has it, and what silence of that length is: to an
encoder the code of every zero sample, to a decoder the zero samples.

An encoder makes one byte for a frame, where 160 are wanted, and a decoder two,
where 320 are. The bytes are zeros, too, which is the code of silence by neither
law. So nothing but no frames at all comes out right.

## Main definitions

* `silence`: The PCM of some silent frames.
* `WhiteIsSilence`: The white frames of the four coders are silence.

## Theorems

* `codec_silence`: The code of silence.
* `encoder_iff`, `decoder_iff`: When zeros of the size made are what is wanted.
* `whiteIsSilence_iff`: Only of no frames.
-/

namespace CodecChanger

open Bytes

/-- The bytes of `frames` frames of 160 zero samples. -/
def silence (frames : Nat) : List Byte := List.replicate (320 * frames) 0

/-- The encoders' white frames are what their `Codec` makes of silence, and the
    decoders' are silence. The encoders' output has room for `length` bytes, the
    decoders' for `pcmLength`. -/
structure WhiteIsSilence (frames : Nat) (length pcmLength : Int) : Prop where
  pcmU_encoder : PcmUEnCoder.getWhite length frames =
    PcmUEnCoder.codec (silence frames) (silence frames).length length
  pcmA_encoder : PcmAEnCoder.getWhite length frames =
    (PcmAEnCoder.codec (silence frames) (silence frames).length length).2
  pcmU_decoder : PcmUDeCoder.getWhite pcmLength frames =
    { ret := ((silence frames).length : Int), written := silence frames }
  pcmA_decoder : PcmADeCoder.getWhite pcmLength frames =
    { ret := ((silence frames).length : Int), written := silence frames }

theorem length_silence (frames : Nat) : (silence frames).length = 320 * frames :=
  List.length_replicate

/-- The words of silence are zeros. -/
theorem words16_silence (frames : Nat) :
    words16 (silence frames) = List.replicate (160 * frames) 0 := by
  have hbytes : ∀ n, (List.replicate n (0 : BitVec 16)).flatMap bytes16 =
      List.replicate (2 * n) 0 := by
    intro n
    induction n with
    | zero => rfl
    | succ n ih =>
        rw [List.replicate_succ, List.flatMap_cons, ih]
        rfl
  rw [silence, show 320 * frames = 2 * (160 * frames) by omega, ← hbytes, words16_flatMap]

/-- An encoder makes the code of zero of every silent sample. -/
theorem codec_silence (enc : List Byte → Int → Int → Coded) (f : BitVec 16 → Byte)
    (he : EncodesBy enc f) (frames : Nat) (length : Int) (h : 160 * frames ≤ length) :
    enc (silence frames) (silence frames).length length =
      { ret := ((160 * frames : Nat) : Int), written := List.replicate (160 * frames) (f 0) } := by
  have hroom : ((silence frames).length : Int) / 2 ≤ length := by
    rw [length_silence]
    omega
  rw [he _ length hroom, words16_silence, List.length_replicate, List.map_replicate]

theorem zerosOfSize_eq_iff (length size n : Int) (l : List Byte) (h : size ≤ length) :
    zerosOfSize length size = { ret := n, written := l } ↔
      size = n ∧ List.replicate size.toNat 0 = l := by
  rw [zerosOfSize, if_neg (by omega), Coded.mk.injEq]

/-- The white frames of an encoder are the code of silence only when there are
    none, whatever that code is. -/
theorem encoder_iff (frames : Nat) (length : Int) (code : Byte) (h : 160 * frames ≤ length) :
    zerosOfSize length frames =
      { ret := ((160 * frames : Nat) : Int), written := List.replicate (160 * frames) code } ↔
        frames = 0 := by
  rw [zerosOfSize_eq_iff _ _ _ _ (by omega)]
  constructor
  · rintro ⟨hsize, -⟩
    omega
  · intro hzero
    rw [hzero]
    exact ⟨rfl, rfl⟩

/-- Those of a decoder are silence only when there are none. -/
theorem decoder_iff (frames : Nat) (pcmLength : Int) (h : 320 * frames ≤ pcmLength) :
    zerosOfSize pcmLength (frames * 2) =
      { ret := ((silence frames).length : Int), written := silence frames } ↔ frames = 0 := by
  rw [zerosOfSize_eq_iff _ _ _ _ (by omega), length_silence]
  constructor
  · rintro ⟨hsize, -⟩
    omega
  · intro hzero
    rw [hzero]
    exact ⟨rfl, rfl⟩

/-- With room for silence, white frames are silence exactly when none are asked
    for. -/
theorem whiteIsSilence_iff (frames : Nat) (length pcmLength : Int)
    (hcode : 160 * frames ≤ length) (hpcm : 320 * frames ≤ pcmLength) :
    WhiteIsSilence frames length pcmLength ↔ frames = 0 := by
  constructor
  · intro h
    -- One of the four is enough.
    exact (decoder_iff frames pcmLength hpcm).mp h.pcmU_decoder
  · intro hzero
    refine ⟨?_, ?_, ?_, ?_⟩
    · rw [codec_silence _ _ PcmUEnCoder.encodesBy frames length hcode]
      exact (encoder_iff frames length _ hcode).mpr hzero
    · exact ((encoder_iff frames length _ hcode).mpr hzero).trans
        (codec_silence _ _ PcmAEnCoder.encodesBy frames length hcode).symm
    · exact (decoder_iff frames pcmLength hpcm).mpr hzero
    · exact (decoder_iff frames pcmLength hpcm).mpr hzero

/-- No frames. -/
theorem whiteIsSilence_none : WhiteIsSilence 0 0 0 :=
  (whiteIsSilence_iff 0 0 0 (by decide) (by decide)).mpr rfl

/-- For one frame the encoders make one zero, and the decoders two. -/
theorem whiteIsSilence_fails :
    PcmUEnCoder.getWhite 160 1 = { ret := 1, written := [0] } ∧
      PcmAEnCoder.getWhite 160 1 = { ret := 1, written := [0] } ∧
      PcmUDeCoder.getWhite 320 1 = { ret := 2, written := [0, 0] } ∧
      PcmADeCoder.getWhite 320 1 = { ret := 2, written := [0, 0] } ∧
      ¬ WhiteIsSilence 1 160 320 := by
  refine ⟨rfl, rfl, rfl, rfl, ?_⟩
  intro h
  exact absurd ((decoder_iff 1 320 (by decide)).mp h.pcmU_decoder) (by decide)

end CodecChanger
