import CodecChanger.Core.AmrWb
import CodecChanger.Core.G711
import CodecChanger.Lib.MachineInt

/-!
# White Frames

`GetWhite` of the G.711 and the AMR-WB coders in `codec.cpp`, which a session
calls when packets are lost: `frames` frames of silence are wanted, and the output
has room for `length` bytes.

For the G.711 coders `frames` is not negative where it becomes the size of a `memset`,
and its double stays in an `int`.

The AMR-WB encoder has no use for `frames`. The AMR-WB decoder lets `D_IF_decode`
write to the output and then clears a part of it; the model gives the writes. The
length it compares and clears is a product of `int`s, which wraps around, and one that
has become negative is a huge size for `memset`.

## Main definitions

* `PcmUEnCoder.getWhite`, `PcmUDeCoder.getWhite`, `PcmAEnCoder.getWhite`,
  `PcmADeCoder.getWhite`: The G.711 coders.
* `AmrWbEnCoder.getWhite`: The AMR-WB encoder.
* `AmrWbDeCoder.getWhite`: The AMR-WB decoder.
* `Write.bytes`, `applied`: What writes leave in memory.
-/

namespace CodecChanger

open Bytes MachineInt

/-- `GetWhite` of the G.711 coders: zeros, `size` of them, when there is room. -/
def zerosOfSize (length size : Int) : Coded :=
  if length < size then { ret := -1, written := [] }
  else { ret := size, written := List.replicate size.toNat 0 }

/-- `PcmUEnCoder::GetWhite`. -/
def PcmUEnCoder.getWhite (length frames : Int) : Coded := zerosOfSize length frames

/-- `PcmUDeCoder::GetWhite`. -/
def PcmUDeCoder.getWhite (length frames : Int) : Coded := zerosOfSize length (frames * 2)

/-- `PcmAEnCoder::GetWhite`. -/
def PcmAEnCoder.getWhite (length frames : Int) : Coded := zerosOfSize length frames

/-- `PcmADeCoder::GetWhite`. -/
def PcmADeCoder.getWhite (length frames : Int) : Coded := zerosOfSize length (frames * 2)

variable {γ σ : Type*}

namespace AmrWbEnCoder

/-- The zeros that `white_buff` holds. -/
def whiteBuff : List Sample := List.replicate 640 0

/-- `for (int i = 0; i < length; ++i)`, with the number of rounds that are left. -/
def whiteLoop (lib : EncodeLib γ σ) (length : Int) :
    Nat → AmrWbEnCoder γ σ → Int → List Byte → AmrWbEnCoder γ σ × Coded
  | 0, q, totalLength, output => (q, { ret := totalLength, written := output })
  | rounds + 1, q, totalLength, output =>
      let (coderBase, frame) := lib.eIfEncode q.coderBase kAmrEncodeMode
        (whiteBuff.take kAmrWbFrameSample) kAmrAllowDtx
      let q := { q with
        coderBase := coderBase
        amrBuff := frame ++ q.amrBuff.drop frame.length }
      let codedSize : Int := frame.length
      if codedSize < 0 then (q, { ret := -1, written := output })
      else if totalLength + codedSize > length then (q, { ret := -1, written := output })
      else whiteLoop lib length rounds q (totalLength + codedSize)
        (output ++ q.amrBuff.take frame.length)

/-- `AmrWbEnCoder::GetWhite`. The loop goes up to `length`, and nothing depends on
    `frames`. -/
def getWhite (lib : EncodeLib γ σ) (q : AmrWbEnCoder γ σ) (length _frames : Int) :
    AmrWbEnCoder γ σ × Coded :=
  whiteLoop lib length length.toNat q 0 []

end AmrWbEnCoder

/-- The bytes a write puts into memory. -/
def Write.bytes : Write → List Byte
  | .samples _ l => l.flatMap bytes16
  | .zeros _ count => List.replicate count 0

/-- The memory at `output` after some writes. -/
def applied (out : Memory) (writes : List Write) : Memory :=
  writes.foldl (fun out w => out.store w.start.toNat w.bytes) out

namespace AmrWbDeCoder

def kAmrLostFrame : Int := 2

/-- `AmrWbDeCoder::GetWhite`, with the member `amr_buff_`, which `Codec` does not
    use: the new state and buffer, the value returned and the writes. -/
def getWhite (lib : DecodeLib γ σ) (q : AmrWbDeCoder γ σ) (amrBuff : List Byte)
    (length frames : Int) : AmrWbDeCoder γ σ × List Byte × Int × List Write :=
  if frames ≤ 0 then (q, amrBuff, 0, [])
  else
    let outputLength := wrap (frames * kPcmFrameLength)
    if length < wrap (frames * kPcmFrameLength) then (q, amrBuff, -1, [])
    else
      let amrBuff := List.replicate 64 0 ++ amrBuff.drop 64
      -- The samples go to `output`, all that `D_IF_decode` makes.
      let (coderBase, decoded) := lib.dIfDecode q.coderBase amrBuff kAmrLostFrame
      ({ q with coderBase := coderBase }, amrBuff, outputLength,
        [.samples 0 decoded, .zeros 0 (toSize outputLength)])

end AmrWbDeCoder

end CodecChanger
