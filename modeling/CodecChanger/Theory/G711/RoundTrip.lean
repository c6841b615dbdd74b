import CodecChanger.Theory.G711.Samples

/-!
# G.711 Codes Through the Decoder and Back

A string of codes that is decoded and encoded again comes back. By the A-law every
code does. By the mu-law the two codes for zero have one sample between them, and
the negative zero comes back as the positive one; the sample is the same.

Each coder is its loop's body on every byte or sample, so that the strings follow
from the single codes, of which there are 256. The return inside the loop of the
A-law encoder is never taken.

## Main definitions

* `EncodesBy`, `DecodesBy`: A coder works sample by sample, byte by byte.
* `positiveZero`: A mu-law code without the negative zero.

## Theorems

* `PcmAEnCoder.encodesBy`, `PcmUEnCoder.encodesBy`, `PcmADeCoder.decodesBy`,
  `PcmUDeCoder.decodesBy`: The coders do.
* `recoded`, `redecoded`: What such coders make of codes and of samples.
* `PcmADeCoder.code_round`, `PcmUDeCoder.round_round_code`: One code.
* `recoded_aLaw`, `recoded_muLaw`: Strings of codes, encoded again.
* `codes_survive`: Strings of codes survive.
-/

namespace CodecChanger

open Bytes

/-- The calls of an encoder that makes the byte `f` of every sample, given room. -/
def EncodesBy (codec : List Byte → Int → Int → Coded) (f : BitVec 16 → Byte) : Prop :=
  ∀ (input : List Byte) (outputLength : Int), input.length / 2 ≤ outputLength →
    codec input input.length outputLength =
      { ret := ((words16 input).length : Int), written := (words16 input).map f }

/-- The calls of a decoder that makes the sample `g` of every byte, given room. -/
def DecodesBy (codec : List Byte → Int → Int → Coded) (g : Byte → BitVec 16) : Prop :=
  ∀ (input : List Byte) (outputLength : Int), input.length * 2 ≤ outputLength →
    codec input input.length outputLength =
      { ret := (input.length : Int) * 2, written := (input.map g).flatMap bytes16 }

/-- The encoders count the samples by halving the number of bytes. -/
theorem half_length (input : List Byte) :
    (input.length : Int) / 2 = ((words16 input).length : Int) := by
  rw [length_words16]
  omega

/-- The A-law encoder makes a byte of every sample. -/
theorem PcmAEnCoder.encodesBy :
    EncodesBy (fun input length outputLength => (codec input length outputLength).2) code := by
  intro input outputLength h
  change (codec input input.length outputLength).2 = _
  unfold PcmAEnCoder.codec
  rw [if_neg (by omega)]
  simp only [half_length, Int.toNat_natCast, List.take_length, loop_eq, Option.getD_none]

/-- And so does the mu-law encoder. -/
theorem PcmUEnCoder.encodesBy : EncodesBy codec round := by
  intro input outputLength h
  unfold PcmUEnCoder.codec
  rw [if_neg (by omega)]
  simp only [half_length, Int.toNat_natCast, List.take_length]

/-- The A-law decoder makes a sample of every byte. -/
theorem PcmADeCoder.decodesBy : DecodesBy codec round := by
  intro input outputLength h
  unfold PcmADeCoder.codec
  rw [if_neg (by omega), Int.toNat_natCast, List.take_length, List.flatMap_map]

/-- And so does the mu-law decoder. -/
theorem PcmUDeCoder.decodesBy : DecodesBy codec round := by
  intro input outputLength h
  unfold PcmUDeCoder.codec
  rw [if_neg (by omega), Int.toNat_natCast, List.take_length, List.flatMap_map]

section

variable (enc dec : List Byte → Int → Int → Coded) (f : BitVec 16 → Byte) (g : Byte → BitVec 16)

/-- Codes that are decoded and encoded again, code by code. -/
theorem recoded (he : EncodesBy enc f) (hd : DecodesBy dec g) (w : List Byte)
    (pcmRoom codeRoom : Int) (hp : w.length * 2 ≤ pcmRoom) (hc : w.length ≤ codeRoom) :
    enc (dec w w.length pcmRoom).written (dec w w.length pcmRoom).written.length codeRoom =
      { ret := (w.length : Int), written := w.map (f ∘ g) } := by
  -- Two bytes of PCM for each code, of which the encoder makes one again.
  have hlen := length_flatMap_bytes16 (w.map g)
  rw [List.length_map] at hlen
  rw [hd w pcmRoom hp]
  simp only []
  rw [he _ codeRoom (by rw [hlen]; push_cast; omega), words16_flatMap, List.map_map,
    List.length_map]

/-- Samples that are encoded and decoded again, sample by sample. -/
theorem redecoded (he : EncodesBy enc f) (hd : DecodesBy dec g) (pcm : List Byte)
    (codeRoom pcmRoom : Int) (hc : pcm.length / 2 ≤ codeRoom) (hp : pcm.length ≤ pcmRoom) :
    words16 (dec (enc pcm pcm.length codeRoom).written (enc pcm pcm.length codeRoom).written.length
      pcmRoom).written = (words16 pcm).map (g ∘ f) := by
  have hlen : (((words16 pcm).map f).length : Int) * 2 ≤ pcmRoom := by
    rw [List.length_map, length_words16]
    omega
  rw [he pcm codeRoom hc]
  simp only []
  rw [hd _ pcmRoom hlen, words16_flatMap, List.map_map]

end

/-- A mu-law code with the positive zero for the negative one. -/
def positiveZero (b : Byte) : Byte := if b = 0x7F then 0xFF else b

/-- An A-law code comes back. -/
theorem PcmADeCoder.code_round (b : Byte) : PcmAEnCoder.code (PcmADeCoder.round b) = b := by
  -- All the codes, one by one.
  have hall : ∀ n < 256, PcmAEnCoder.code (PcmADeCoder.round (BitVec.ofNat 8 n)) =
      BitVec.ofNat 8 n := by decide +kernel
  have hb := hall b.toNat b.isLt
  rw [BitVec.ofNat_toNat, BitVec.setWidth_eq] at hb
  exact hb

/-- A mu-law code comes back as the same code or as the positive zero, and is decoded
    alike. -/
theorem PcmUDeCoder.round_round_code (b : Byte) :
    PcmUEnCoder.round (PcmUDeCoder.round b) = positiveZero b ∧
      PcmUDeCoder.round (positiveZero b) = PcmUDeCoder.round b := by
  have hall : ∀ n < 256, PcmUEnCoder.round (PcmUDeCoder.round (BitVec.ofNat 8 n)) =
        positiveZero (BitVec.ofNat 8 n) ∧
      PcmUDeCoder.round (positiveZero (BitVec.ofNat 8 n)) =
        PcmUDeCoder.round (BitVec.ofNat 8 n) := by decide +kernel
  have hb := hall b.toNat b.isLt
  rw [BitVec.ofNat_toNat, BitVec.setWidth_eq] at hb
  exact hb

/-- Codes that are decoded by the A-law and encoded again. -/
theorem recoded_aLaw (w : List Byte) (pcmRoom codeRoom : Int) (hp : w.length * 2 ≤ pcmRoom)
    (hc : w.length ≤ codeRoom) :
    (PcmAEnCoder.codec (PcmADeCoder.codec w w.length pcmRoom).written
        (PcmADeCoder.codec w w.length pcmRoom).written.length codeRoom).2 =
      { ret := (w.length : Int), written := w } := by
  have hid : PcmAEnCoder.code ∘ PcmADeCoder.round = id := funext PcmADeCoder.code_round
  have hrec := recoded _ _ _ _ PcmAEnCoder.encodesBy PcmADeCoder.decodesBy w pcmRoom codeRoom hp hc
  rw [hid, List.map_id] at hrec
  exact hrec

/-- Codes that are decoded by the mu-law and encoded again. -/
theorem recoded_muLaw (w : List Byte) (pcmRoom codeRoom : Int) (hp : w.length * 2 ≤ pcmRoom)
    (hc : w.length ≤ codeRoom) :
    PcmUEnCoder.codec (PcmUDeCoder.codec w w.length pcmRoom).written
        (PcmUDeCoder.codec w w.length pcmRoom).written.length codeRoom =
      { ret := (w.length : Int), written := w.map positiveZero } := by
  have hzero : PcmUEnCoder.round ∘ PcmUDeCoder.round = positiveZero :=
    funext fun b => (PcmUDeCoder.round_round_code b).1
  rw [← hzero]
  exact recoded _ _ _ _ PcmUEnCoder.encodesBy PcmUDeCoder.decodesBy w pcmRoom codeRoom hp hc

/-- Without the negative zero a string of mu-law codes is decoded alike. -/
theorem decoded_positiveZero (w : List Byte) (pcmRoom : Int) (hp : w.length * 2 ≤ pcmRoom) :
    PcmUDeCoder.codec (w.map positiveZero) (w.map positiveZero).length pcmRoom =
      PcmUDeCoder.codec w w.length pcmRoom := by
  have hround : PcmUDeCoder.round ∘ positiveZero = PcmUDeCoder.round :=
    funext fun b => (PcmUDeCoder.round_round_code b).2
  rw [PcmUDeCoder.decodesBy w pcmRoom hp, PcmUDeCoder.decodesBy _ pcmRoom (by
    rw [List.length_map]
    exact hp), List.map_map, List.length_map, hround]

/-- Strings of codes survive being decoded and encoded again, but for the negative
    zero of the mu-law, and are then decoded to the same samples. And the A-law encoder
    makes a byte of every sample of any buffer. -/
theorem codes_survive (w pcm : List Byte) (pcmRoom codeRoom room : Int)
    (hp : w.length * 2 ≤ pcmRoom) (hc : w.length ≤ codeRoom) (heven : pcm.length % 2 = 0)
    (hroom : pcm.length / 2 ≤ room) :
    let a := PcmADeCoder.codec w w.length pcmRoom
    let a' := (PcmAEnCoder.codec a.written a.written.length codeRoom).2
    let u := PcmUDeCoder.codec w w.length pcmRoom
    let u' := PcmUEnCoder.codec u.written u.written.length codeRoom
    let e := (PcmAEnCoder.codec pcm pcm.length room).2
    a' = { ret := (w.length : Int), written := w } ∧
      u' = { ret := (w.length : Int), written := w.map positiveZero } ∧
      PcmADeCoder.codec a'.written a'.written.length pcmRoom = a ∧
      PcmUDeCoder.codec u'.written u'.written.length pcmRoom = u ∧
      2 * e.ret = pcm.length ∧ 2 * e.written.length = pcm.length := by
  have hpcm := PcmAEnCoder.encodesBy pcm room hroom
  simp only [] at hpcm ⊢
  rw [recoded_aLaw w pcmRoom codeRoom hp hc, recoded_muLaw w pcmRoom codeRoom hp hc, hpcm]
  refine ⟨rfl, rfl, rfl, decoded_positiveZero w pcmRoom hp, ?_, ?_⟩
  · simp only [length_words16]
    omega
  · simp only [List.length_map, length_words16]
    omega

/-- The two zeros of the mu-law and two other codes, and one sample. -/
theorem codes_survive_zeros :
    let a := PcmADeCoder.codec [0x7F, 0xFF, 0x00, 0xD5] 4 8
    let a' := (PcmAEnCoder.codec a.written a.written.length 4).2
    let u := PcmUDeCoder.codec [0x7F, 0xFF, 0x00, 0xD5] 4 8
    let u' := PcmUEnCoder.codec u.written u.written.length 4
    let e := (PcmAEnCoder.codec [0x34, 0x12] 2 1).2
    a' = { ret := 4, written := [0x7F, 0xFF, 0x00, 0xD5] } ∧
      u' = { ret := 4, written := [0xFF, 0xFF, 0x00, 0xD5] } ∧
      PcmADeCoder.codec a'.written a'.written.length 8 = a ∧
      PcmUDeCoder.codec u'.written u'.written.length 8 = u ∧
      2 * e.ret = 2 ∧ 2 * e.written.length = 2 :=
  codes_survive [0x7F, 0xFF, 0x00, 0xD5] [0x34, 0x12] 8 4 1 (by decide) (by decide) (by decide)
    (by decide)

end CodecChanger
