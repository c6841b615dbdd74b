import CodecChanger.Core.Upload
import CodecChanger.Lib.Framing
import CodecChanger.Lib.MachineInt

/-!
# The Codec2 Coders

`Codec2EnCoder` and `Codec2DeCoder` of `codec.cpp`, in the mode of 2400 bits a second. A
frame of PCM becomes 6 bytes and 6 bytes become a frame, and the coder of libcodec2 carries
its state from frame to frame.

libcodec2 is not part of the repository and is taken as a parameter: the two calls that the
coders make, with the sizes that go with the mode. `Init` has created the coder before.

`length` is an `int` that is divided as the machine does, so a negative number of frames is
possible, for which the loops have no rounds. Products are `int`s, which wrap around. Where
the length of the output does, so do the offsets in a loop, and the frames behind lie
elsewhere; what is written is given frame after frame all the same. Buffers do not overlap.

## Main definitions

* `kCodec2FrameLength`: The bytes of a frame.
* `Codec2Lib`: The library.
* `codecFrames`: What `Codec` of the two coders has in common.
* `Codec2EnCoder.codec`, `Codec2EnCoder.getWhite`: The encoder.
* `Codec2DeCoder.codec`, `Codec2DeCoder.getWhite`: The decoder.
* `Codec2.Call`: The calls of a coder.
-/

namespace CodecChanger

open Bytes MachineInt

/-- The bytes of a frame in the mode of 2400 bits a second. -/
def kCodec2FrameLength : Nat := 6

/-- The functions of libcodec2 that the coders call, from the state of a coder. A frame has
    48 bits and 160 samples. -/
structure Codec2Lib (σ : Type*) where
  codec2Encode : σ → List Sample → σ × List Byte
  codec2Decode : σ → List Byte → σ × List Sample
  length_codec2Encode : ∀ q speech, (codec2Encode q speech).2.length = kCodec2FrameLength
  length_codec2Decode : ∀ q bits, (codec2Decode q bits).2.length = kPcmFrameSample

variable {σ : Type*}

/-- `Codec` of the two coders, with `n` bytes to a frame of the input and `m` to one of the
    output. -/
def codecFrames (f : σ → List Byte → σ × List Byte) (n m : Nat) (coderBase : σ)
    (input : List Byte) (length outputLength : Int) : σ × Coded :=
  if length.tmod n ≠ 0 then (coderBase, { ret := -1, written := [] })
  else
    let frames := length.tdiv n
    if outputLength < wrap (frames * m) then (coderBase, { ret := -1, written := [] })
    else
      let (coderBase, output) := Framing.code f n frames.toNat coderBase input
      (coderBase, { ret := wrap (frames * m), written := output })

namespace Codec2EnCoder

/-- The body of the loop: the samples of a frame are encoded. -/
def frame (lib : Codec2Lib σ) (coderBase : σ) (input : List Byte) : σ × List Byte :=
  lib.codec2Encode coderBase (words16 input)

/-- `Codec`. -/
def codec (lib : Codec2Lib σ) : σ → List Byte → Int → Int → σ × Coded :=
  codecFrames (frame lib) kPcmFrameLength kCodec2FrameLength

/-- The zeros that `empty_buff` holds. -/
def emptyBuff : List Sample := List.replicate 160 0

/-- The loop of `GetWhite`. -/
def whiteLoop (lib : Codec2Lib σ) : Nat → σ → σ × List Byte
  | 0, coderBase => (coderBase, [])
  | frames + 1, coderBase =>
      let (coderBase, bits) := lib.codec2Encode coderBase emptyBuff
      let (coderBase, output) := whiteLoop lib frames coderBase
      (coderBase, bits ++ output)

/-- `GetWhite`. Silence is encoded as any frame is. -/
def getWhite (lib : Codec2Lib σ) (coderBase : σ) (length frames : Int) : σ × Coded :=
  if length < wrap (kCodec2FrameLength * frames) then (coderBase, { ret := -1, written := [] })
  else
    let (coderBase, output) := whiteLoop lib frames.toNat coderBase
    (coderBase, { ret := wrap (frames * kCodec2FrameLength), written := output })

end Codec2EnCoder

namespace Codec2DeCoder

/-- The body of the loop: the samples that a frame is decoded to. -/
def frame (lib : Codec2Lib σ) (coderBase : σ) (input : List Byte) : σ × List Byte :=
  let (coderBase, speech) := lib.codec2Decode coderBase input
  (coderBase, speech.flatMap bytes16)

/-- `Codec`. -/
def codec (lib : Codec2Lib σ) : σ → List Byte → Int → Int → σ × Coded :=
  codecFrames (frame lib) kCodec2FrameLength kPcmFrameLength

/-- `GetWhite`. The coder is left alone, and without room nothing is no error. -/
def getWhite (length frames : Int) : Coded :=
  if length < wrap (frames * kPcmFrameLength) then { ret := 0, written := [] }
  else
    { ret := wrap (kPcmFrameLength * frames)
      written := List.replicate (toSize (wrap (kPcmFrameLength * frames))) 0 }

end Codec2DeCoder

/-- What a session calls a coder with. -/
inductive Codec2.Call where
  | codec (input : List Byte) (length outputLength : Int)
  | getWhite (length frames : Int)
  deriving DecidableEq, Repr

/-- A call of an encoder. -/
def Codec2EnCoder.call (lib : Codec2Lib σ) (coderBase : σ) : Codec2.Call → σ × Coded
  | .codec input length outputLength => codec lib coderBase input length outputLength
  | .getWhite length frames => getWhite lib coderBase length frames

/-- A call of a decoder. -/
def Codec2DeCoder.call (lib : Codec2Lib σ) (coderBase : σ) : Codec2.Call → σ × Coded
  | .codec input length outputLength => codec lib coderBase input length outputLength
  | .getWhite length frames => (coderBase, getWhite length frames)

end CodecChanger
