import CodecChanger.Core.Upload

/-!
# The G.711 Coders

The coders of `codec.cpp` that turn 16-bit samples into bytes and back,
logarithmically, by the mu-law and by the A-law. An encoder finds the segment of
a sample's magnitude and takes four bits behind its leading one; a decoder looks
the byte up in a table.

The A-law encoder works on its input in place: `pcm_val` is a reference to the
sample in the buffer, where the mu-law encoder has a copy. Its model gives the
input as the call leaves it.

`length` is halved by a shift, which rounds down. Buffers do not overlap.

## Main definitions

* `segEnd`, `segment`: The segments.
* `PcmUEnCoder.codec`, `PcmUDeCoder.codec`: The mu-law coders.
* `PcmAEnCoder.codec`, `PcmADeCoder.codec`: The A-law coders.
-/

namespace CodecChanger

open Bytes

/-- `seg_end`, which both encoders have. -/
def segEnd : List Int := [0xFF, 0x1FF, 0x3FF, 0x7FF, 0xFFF, 0x1FFF, 0x3FFF, 0x7FFF]

/-- The loop that looks for the segment: the first that ends at or behind the value,
    or 8. -/
def segment (pcmVal : Int) : Nat := segEnd.findIdx fun e => decide (pcmVal ≤ e)

namespace PcmUEnCoder

def kBIAS : Int := 0x84

/-- The body of the loop: the byte for a sample. -/
def round (speech : BitVec 16) : Byte :=
  let pcmVal := speech.toInt
  let mask : Byte := if pcmVal < 0 then 0x7F else 0xFF
  let pcmVal := if pcmVal < 0 then kBIAS - pcmVal else pcmVal + kBIAS
  let seg := segment pcmVal
  -- Out of range, the maximum value.
  if seg ≥ 8 then 0x7F ^^^ mask
  else
    let uval := BitVec.ofNat 8 (seg <<< 4) ||| (BitVec.ofInt 8 (pcmVal >>> (seg + 3)) &&& 0xF)
    uval ^^^ mask

/-- `Codec`. -/
def codec (input : List Byte) (length outputLength : Int) : Coded :=
  if outputLength < length / 2 then { ret := -1, written := [] }
  else
    let frames := length / 2
    { ret := frames, written := ((words16 input).take frames.toNat).map round }

end PcmUEnCoder

namespace PcmUDeCoder

def ulawTable : List Int :=
  [-32124, -31100, -30076, -29052, -28028, -27004, -25980, -24956, -23932, -22908, -21884, -20860,
   -19836, -18812, -17788, -16764, -15996, -15484, -14972, -14460, -13948, -13436, -12924, -12412,
   -11900, -11388, -10876, -10364, -9852, -9340, -8828, -8316, -7932, -7676, -7420, -7164, -6908,
   -6652, -6396, -6140, -5884, -5628, -5372, -5116, -4860, -4604, -4348, -4092, -3900, -3772,
   -3644, -3516, -3388, -3260, -3132, -3004, -2876, -2748, -2620, -2492, -2364, -2236, -2108,
   -1980, -1884, -1820, -1756, -1692, -1628, -1564, -1500, -1436, -1372, -1308, -1244, -1180,
   -1116, -1052, -988, -924, -876, -844, -812, -780, -748, -716, -684, -652, -620, -588, -556,
   -524, -492, -460, -428, -396, -372, -356, -340, -324, -308, -292, -276, -260, -244, -228, -212,
   -196, -180, -164, -148, -132, -120, -112, -104, -96, -88, -80, -72, -64, -56, -48, -40, -32,
   -24, -16, -8, 0, 32124, 31100, 30076, 29052, 28028, 27004, 25980, 24956, 23932, 22908, 21884,
   20860, 19836, 18812, 17788, 16764, 15996, 15484, 14972, 14460, 13948, 13436, 12924, 12412,
   11900, 11388, 10876, 10364, 9852, 9340, 8828, 8316, 7932, 7676, 7420, 7164, 6908, 6652, 6396,
   6140, 5884, 5628, 5372, 5116, 4860, 4604, 4348, 4092, 3900, 3772, 3644, 3516, 3388, 3260, 3132,
   3004, 2876, 2748, 2620, 2492, 2364, 2236, 2108, 1980, 1884, 1820, 1756, 1692, 1628, 1564, 1500,
   1436, 1372, 1308, 1244, 1180, 1116, 1052, 988, 924, 876, 844, 812, 780, 748, 716, 684, 652,
   620, 588, 556, 524, 492, 460, 428, 396, 372, 356, 340, 324, 308, 292, 276, 260, 244, 228, 212,
   196, 180, 164, 148, 132, 120, 112, 104, 96, 88, 80, 72, 64, 56, 48, 40, 32, 24, 16, 8, 0]

/-- The body of the loop: the sample for a byte. -/
def round (input : Byte) : BitVec 16 := BitVec.ofInt 16 (ulawTable.getD input.toNat 0)

/-- `Codec`. -/
def codec (input : List Byte) (length outputLength : Int) : Coded :=
  if outputLength < length * 2 then { ret := -1, written := [] }
  else
    { ret := length * 2
      written := (input.take length.toNat).flatMap fun b => bytes16 (round b) }

end PcmUDeCoder

namespace PcmAEnCoder

def kSegShift : Nat := 4
def kQuantMask : Byte := 0x0f

/-- The start of the body of the loop: the sample as it is left in the input, which
    is the magnitude, and the mask. -/
def magnitude (pcmVal : BitVec 16) : BitVec 16 × Byte :=
  if 0 ≤ pcmVal.toInt then (pcmVal, 0xD5)
  else
    let pcmVal := BitVec.ofInt 16 (-pcmVal.toInt - 8)
    (if pcmVal.toInt < 0 then 0 else pcmVal, 0x55)

/-- The sign, segment and quantisation bits combined, without the mask. -/
def combine (pcmVal : BitVec 16) (seg : Nat) : Byte :=
  let aval := BitVec.ofNat 8 (seg <<< kSegShift)
  if seg < 2 then aval ||| (BitVec.ofInt 8 (pcmVal.toInt >>> (4 : Nat)) &&& kQuantMask)
  else aval ||| (BitVec.ofInt 8 (pcmVal.toInt >>> (seg + 3)) &&& kQuantMask)

/-- The loop over the samples: the samples as it leaves them, the bytes written, and
    the value if it returns from inside. -/
def loop : List (BitVec 16) → List (BitVec 16) × List Byte × Option Int
  | [] => ([], [], none)
  | speech :: l =>
      let (pcmVal, mask) := magnitude speech
      let seg := segment pcmVal.toInt
      -- Out of range; the source returns where a maximum is meant to be written.
      if seg ≥ 8 then (pcmVal :: l, [], some (0x7F ^^^ mask).toNat)
      else
        let (l, output, ret) := loop l
        (pcmVal :: l, (combine pcmVal seg ^^^ mask) :: output, ret)

/-- `Codec`: the input as it is left, and what is returned and written. -/
def codec (input : List Byte) (length outputLength : Int) : List Byte × Coded :=
  if outputLength < length / 2 then (input, { ret := -1, written := [] })
  else
    let frames := length / 2
    let (speech, written, ret) := loop ((words16 input).take frames.toNat)
    (speech.flatMap bytes16 ++ input.drop (2 * frames.toNat),
      { ret := ret.getD frames, written := written })

end PcmAEnCoder

namespace PcmADeCoder

def aLawTable : List Int :=
  [-5504, -5248, -6016, -5760, -4480, -4224, -4992, -4736, -7552, -7296, -8064, -7808, -6528,
   -6272, -7040, -6784, -2752, -2624, -3008, -2880, -2240, -2112, -2496, -2368, -3776, -3648,
   -4032, -3904, -3264, -3136, -3520, -3392, -22016, -20992, -24064, -23040, -17920, -16896,
   -19968, -18944, -30208, -29184, -32256, -31232, -26112, -25088, -28160, -27136, -11008, -10496,
   -12032, -11520, -8960, -8448, -9984, -9472, -15104, -14592, -16128, -15616, -13056, -12544,
   -14080, -13568, -344, -328, -376, -360, -280, -264, -312, -296, -472, -456, -504, -488, -408,
   -392, -440, -424, -88, -72, -120, -104, -24, -8, -56, -40, -216, -200, -248, -232, -152, -136,
   -184, -168, -1376, -1312, -1504, -1440, -1120, -1056, -1248, -1184, -1888, -1824, -2016, -1952,
   -1632, -1568, -1760, -1696, -688, -656, -752, -720, -560, -528, -624, -592, -944, -912, -1008,
   -976, -816, -784, -880, -848, 5504, 5248, 6016, 5760, 4480, 4224, 4992, 4736, 7552, 7296, 8064,
   7808, 6528, 6272, 7040, 6784, 2752, 2624, 3008, 2880, 2240, 2112, 2496, 2368, 3776, 3648, 4032,
   3904, 3264, 3136, 3520, 3392, 22016, 20992, 24064, 23040, 17920, 16896, 19968, 18944, 30208,
   29184, 32256, 31232, 26112, 25088, 28160, 27136, 11008, 10496, 12032, 11520, 8960, 8448, 9984,
   9472, 15104, 14592, 16128, 15616, 13056, 12544, 14080, 13568, 344, 328, 376, 360, 280, 264,
   312, 296, 472, 456, 504, 488, 408, 392, 440, 424, 88, 72, 120, 104, 24, 8, 56, 40, 216, 200,
   248, 232, 152, 136, 184, 168, 1376, 1312, 1504, 1440, 1120, 1056, 1248, 1184, 1888, 1824, 2016,
   1952, 1632, 1568, 1760, 1696, 688, 656, 752, 720, 560, 528, 624, 592, 944, 912, 1008, 976, 816,
   784, 880, 848]

/-- The body of the loop: the sample for a byte. -/
def round (input : Byte) : BitVec 16 := BitVec.ofInt 16 (aLawTable.getD input.toNat 0)

/-- `Codec`. -/
def codec (input : List Byte) (length outputLength : Int) : Coded :=
  if outputLength < length * 2 then { ret := -1, written := [] }
  else
    { ret := length * 2
      written := (input.take length.toNat).flatMap fun b => bytes16 (round b) }

end PcmADeCoder

end CodecChanger
