import CodecChanger.Core.Upload
import CodecChanger.Theory.G711.RoundTrip

/-!
# The G.711 Coders of a Session

The four G.711 coders as a library for sessions. They have no state, so a session's coder is
just which of the four it is.

What a session relies on, they keep: they look at no more of the input than they are told, and
a call that does not fail returns the length of what it writes, which is at most the room. And
a session that decodes one law and encodes the same, as every session does that is set up with
one law on both sides, sends the codes on that it gets, but for the negative zero of the
mu-law, which stands for the same sample as the positive one.

## Main definitions

* `CoderLib.Keeps`: What a session relies on.
* `G711`, `g711`: The four coders.
* `inMemory`: Input of a length, with zeros where it is too short.
* `Law`: The two laws.
* `Law.kept`: What comes back of a code.

## Theorems

* `encode_eq`, `decode_eq`: What the coders make of their input.
* `g711_keeps`: The coders keep what a session relies on.
* `recoded_law`, `decode_kept`: Decoding and encoding again.
-/

namespace CodecChanger

open Bytes

/-- What a session relies on: `Codec` looks at no more of the input than it is told, and when it
    does not fail it returns the length of what it has written, at most that of the output. -/
structure CoderLib.Keeps {χ : Type*} (lib : CoderLib χ) : Prop where
  codec_take : ∀ q input (n : Nat) room,
    lib.codec q (input.take n) n room = lib.codec q input n room
  ret_eq : ∀ q input n room, 0 ≤ (lib.codec q input n room).2.ret →
    (lib.codec q input n room).2.ret = (lib.codec q input n room).2.written.length
  ret_le : ∀ q input n room, 0 ≤ (lib.codec q input n room).2.ret →
    (lib.codec q input n room).2.ret ≤ room

/-- Input as it lies in memory, with zeros behind it. -/
def inMemory (input : List Byte) (n : Int) : List Byte :=
  (input ++ List.replicate n.toNat 0).take n.toNat

theorem length_inMemory (input : List Byte) (n : Int) : (inMemory input n).length = n.toNat := by
  unfold inMemory
  rw [List.length_take, List.length_append, List.length_replicate]
  omega

/-- Only the bytes that are asked for matter. -/
theorem inMemory_take (input : List Byte) (n : Nat) :
    inMemory (input.take n) n = inMemory input n := by
  unfold inMemory
  rw [Int.toNat_natCast, List.take_append, List.take_append, List.take_take, Nat.min_self,
    List.length_take]
  congr 2
  omega

/-- Input of just the length is as it is. -/
theorem inMemory_self (input : List Byte) : inMemory input input.length = input := by
  unfold inMemory
  rw [Int.toNat_natCast, List.take_left' rfl]

/-- The two laws. -/
inductive Law where
  | pcmA
  | pcmU
  deriving DecidableEq, Repr

/-- The coders: an encoder and a decoder for each law. -/
inductive G711 where
  | en (law : Law)
  | de (law : Law)
  deriving DecidableEq, Repr

/-- `Codec` of the encoder of a law, with its input no longer looked at. -/
def Law.encode : Law → List Byte → Int → Int → Coded
  | .pcmA, input, length, outputLength => (PcmAEnCoder.codec input length outputLength).2
  | .pcmU, input, length, outputLength => PcmUEnCoder.codec input length outputLength

/-- `Codec` of the decoder. -/
def Law.decode : Law → List Byte → Int → Int → Coded
  | .pcmA, input, length, outputLength => PcmADeCoder.codec input length outputLength
  | .pcmU, input, length, outputLength => PcmUDeCoder.codec input length outputLength

/-- The library. -/
def g711 : CoderLib G711 where
  codec q input length outputLength := (q, match q with
    | .en law => law.encode (inMemory input length) length outputLength
    | .de law => law.decode (inMemory input length) length outputLength)

namespace Law

variable (law : Law) (input : List Byte) (n room : Int)

/-- The byte of a sample. -/
def code : Law → BitVec 16 → Byte
  | .pcmA => PcmAEnCoder.code
  | .pcmU => PcmUEnCoder.round

/-- The sample of a byte. -/
def sample : Law → Byte → BitVec 16
  | .pcmA => PcmADeCoder.round
  | .pcmU => PcmUDeCoder.round

theorem encodesBy : EncodesBy law.encode law.code := by
  cases law with
  | pcmA => exact PcmAEnCoder.encodesBy
  | pcmU => exact PcmUEnCoder.encodesBy

theorem decodesBy : DecodesBy law.decode law.sample := by
  cases law with
  | pcmA => exact PcmADeCoder.decodesBy
  | pcmU => exact PcmUDeCoder.decodesBy

/-- An encoder makes a byte of every sample, or fails for want of room. -/
theorem encode_eq : law.encode input n room = if room < n / 2 then { ret := -1, written := [] }
    else { ret := n / 2, written := ((words16 input).take (n / 2).toNat).map law.code } := by
  cases law with
  | pcmA =>
      change (PcmAEnCoder.codec input n room).2 = _
      unfold PcmAEnCoder.codec
      by_cases hroom : room < n / 2
      · rw [if_pos hroom, if_pos hroom]
      · rw [if_neg hroom, if_neg hroom]
        simp only [PcmAEnCoder.loop_eq, Option.getD_none]
        rfl
  | pcmU => rfl

/-- A decoder makes a sample of every byte, or fails for want of room. -/
theorem decode_eq : law.decode input n room = if room < n * 2 then { ret := -1, written := [] }
    else { ret := n * 2, written := ((input.take n.toNat).map law.sample).flatMap bytes16 } := by
  rw [List.flatMap_map]
  cases law with
  | pcmA => rfl
  | pcmU => rfl

/-- On as many bytes as it is told an encoder fails, or returns the length of what it writes. -/
theorem encode_cases (hlen : input.length = n.toNat) :
    (law.encode input n room).ret < 0 ∨
      (law.encode input n room).ret = (law.encode input n room).written.length ∧
        (law.encode input n room).ret ≤ room := by
  rw [encode_eq]
  by_cases hroom : room < n / 2
  · rw [if_pos hroom]
    exact Or.inl (by decide)
  · rw [if_neg hroom, List.length_map, List.length_take, length_words16]
    simp only []
    omega

/-- And so does a decoder. -/
theorem decode_cases (hlen : input.length = n.toNat) :
    (law.decode input n room).ret < 0 ∨
      (law.decode input n room).ret = (law.decode input n room).written.length ∧
        (law.decode input n room).ret ≤ room := by
  rw [decode_eq]
  by_cases hroom : room < n * 2
  · rw [if_pos hroom]
    exact Or.inl (by decide)
  · rw [if_neg hroom, length_flatMap_bytes16, List.length_map, List.length_take]
    simp only []
    omega

/-- What comes back of a code that is decoded and encoded again. -/
def kept : Law → Byte → Byte
  | .pcmA => id
  | .pcmU => positiveZero

/-- The code comes back, but for the negative zero of the mu-law, and it stands for the same
    sample. -/
theorem code_sample (b : Byte) :
    law.code (law.sample b) = law.kept b ∧ law.sample (law.kept b) = law.sample b := by
  cases law with
  | pcmA => exact ⟨PcmADeCoder.code_round b, rfl⟩
  | pcmU => exact PcmUDeCoder.round_round_code b

end Law

/-- The coders keep what a session relies on. -/
theorem g711_keeps : g711.Keeps := by
  have hcases : ∀ q input n room, (g711.codec q input n room).2.ret < 0 ∨
      (g711.codec q input n room).2.ret = (g711.codec q input n room).2.written.length ∧
        (g711.codec q input n room).2.ret ≤ room := by
    intro q input n room
    cases q with
    | en law => exact Law.encode_cases law _ n room (length_inMemory input n)
    | de law => exact Law.decode_cases law _ n room (length_inMemory input n)
  refine ⟨fun q input n room => ?_, fun q input n room h => ?_, fun q input n room h => ?_⟩
  · unfold g711
    simp only [inMemory_take]
  · rcases hcases q input n room with hneg | ⟨heq, -⟩
    · exact absurd h (Int.not_le.mpr hneg)
    · exact heq
  · rcases hcases q input n room with hneg | ⟨-, hle⟩
    · exact absurd h (Int.not_le.mpr hneg)
    · exact hle

/-- Codes that are decoded and encoded again. -/
theorem recoded_law (law : Law) (w : List Byte) (pcmRoom codeRoom : Int)
    (hp : w.length * 2 ≤ pcmRoom) (hc : w.length ≤ codeRoom) :
    law.encode (law.decode w w.length pcmRoom).written
        (law.decode w w.length pcmRoom).written.length codeRoom =
      { ret := (w.length : Int), written := w.map law.kept } := by
  have hkept : law.code ∘ law.sample = law.kept := funext fun b => (law.code_sample b).1
  rw [← hkept]
  exact recoded _ _ _ _ law.encodesBy law.decodesBy w pcmRoom codeRoom hp hc

/-- What comes back is decoded alike. -/
theorem decode_kept (law : Law) (w : List Byte) (room : Int) :
    law.decode (w.map law.kept) (w.map law.kept).length room = law.decode w w.length room := by
  have hsample : law.sample ∘ law.kept = law.sample := funext fun b => (law.code_sample b).2
  rw [Law.decode_eq, Law.decode_eq, List.length_map, Int.toNat_natCast, List.take_length,
    ← List.length_map law.kept, List.take_length, List.length_map, List.map_map, hsample]

end CodecChanger
