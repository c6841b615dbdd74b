import CodecChanger.Core.RateConverter
import CodecChanger.Lib.Loop

/-!
# The AMR-WB Coders

`AmrWbEnCoder::Codec` and `AmrWbDeCoder::Codec` of `codec.cpp`. Both are loops
around a third-party codec, which is a parameter here: `E_IF_encode` turns 320
samples into one frame, `D_IF_decode` turns the frame at a pointer into 320
samples. The rate converter is a parameter too, given by its calls.

The encoder repacks each frame with `AMRNoOctetAlign` before it copies it out.
The decoder finds its way from frame to frame by the frame type in bits 6 to 3
of the byte it stands on and the table `kAmrBlockSize`. Nothing there bounds the
number of iterations, so both loops are bodies of `Lib.Loop`.

Pointers are offsets: `input` of the decoder counts the bytes it has advanced
over, `output` the bytes from the start of the caller's buffer. The second is an
integer, for a failed conversion moves it back. What a coder hands to the codec
library and what it writes to the output is logged in its state.

## Main definitions

* `kAmrBlockSize`, `frameMode`, `blockSize`: The frame table.
* `Write`: One write to the output of the decoder.
* `AmrWbDeCoder.decodeFrame`, `AmrWbDeCoder.convertFrame`: The two halves of an
  iteration of the decoder's loop.
* `AmrWbDeCoder.body`: An iteration of the decoder's loop.
* `AmrWbDeCoder.Codec`: `AmrWbDeCoder::Codec`.
* `amrNoOctetAlign`: `AMRNoOctetAlign`.
* `AmrWbEnCoder.encodeFrame`, `AmrWbEnCoder.copyFrame`: The two halves of an
  iteration of the encoder's loop.
* `AmrWbEnCoder.body`: An iteration of the encoder's loop.
* `AmrWbEnCoder.Codec`: `AmrWbEnCoder::Codec`.

## Theorems

* `blockSize_eq_zero_iff`: The frame types without a size.
* `amrNoOctetAlign_first`: The first byte of a repacked frame.
* `body_encode`: What an iteration of the encoder does.
* `AmrWbEnCoder.body_again`, `AmrWbEnCoder.body_leave`: What it comes from that
  the encoder's loop goes round again or is left.
* `convertFrame_of_bounded`: What a conversion that does not fail writes.
* `body_done`, `body_short`, `body_full`, `body_frame`: What an iteration of the
  decoder does, case by case.
* `AmrWbDeCoder.body_again`, `AmrWbDeCoder.body_leave`: What it comes from that
  the decoder's loop goes round again or is left.
-/

namespace CodecChanger

open Bytes Loop

def kAmrWbFrameSample : Nat := 320
def kAmrAllowDtx : Int := 1
def kAmrEncodeMode : Int := 8
def kAmrGoodFrame : Int := 0

/-- The frame sizes by frame type, as built without `__AMR_IF2__`. -/
def kAmrBlockSize : List Nat := [18, 24, 33, 37, 41, 47, 51, 59, 61, 6, 6, 0, 0, 0, 1, 1]

/-- `*input >> 3 & 0x0f`, the frame type of the frame that starts with this byte. -/
def frameMode (b : Byte) : Nat := b.toNat >>> 3 &&& 0x0f

/-- `kAmrBlockSize[mode]` for the frame that starts with this byte. -/
def blockSize (b : Byte) : Nat := kAmrBlockSize.getD (frameMode b) 0

/-- A write of the decoder: samples from the converter, or the zeros of the
    `memset` after a failed conversion. -/
inductive Write where
  | samples (start : Int) (l : List Sample)
  | zeros (start : Int) (count : Nat)
  deriving DecidableEq, Repr

/-- The offset of the first byte written. -/
def Write.start : Write → Int
  | .samples start _ => start
  | .zeros start _ => start

/-- The number of bytes written. -/
def Write.size : Write → Nat
  | .samples _ l => 2 * l.length
  | .zeros _ count => count

/-- A write of the converter. -/
def Write.isSamples : Write → Bool
  | .samples _ _ => true
  | .zeros _ _ => false

/-- What the decoder calls: `D_IF_decode`, from its state, the bytes at its
    pointer and the frame quality to the 320 samples, and the rate converter. -/
structure DecodeLib (γ σ : Type*) where
  dIfDecode : γ → List Byte → Int → γ × List Sample
  convert : Convert σ

variable {γ σ : Type*}

/-- The members of `AmrWbDeCoder` that `Codec` uses. -/
structure AmrWbDeCoder (γ σ : Type*) where
  coderBase : γ
  converter : σ

namespace AmrWbDeCoder

/-- The members and locals of `Codec` between two iterations. `handed` and
    `writes` log what `D_IF_decode` was given and what was written. -/
structure Locals (γ σ : Type*) where
  coderBase : γ
  converter : σ
  input : Nat
  remainLength : Int
  output : Int
  outputSize : Int
  handed : List (List Byte)
  writes : List Write

/-- The iteration up to the comfort noise: the frame at `input` is decoded into
    `speech_` and passed over. -/
def decodeFrame (lib : DecodeLib γ σ) (data : List Byte) (s : Locals γ σ) :
    Locals γ σ × List Sample :=
  let b := data.getD s.input 0
  let (coderBase, decoded) := lib.dIfDecode s.coderBase (data.drop s.input) kAmrGoodFrame
  -- Comfort noise is replaced by silence.
  let speech := if frameMode b > 8 then List.replicate 320 0 else decoded
  ({ s with
    coderBase := coderBase
    handed := s.handed ++ [data.drop s.input]
    remainLength := s.remainLength - blockSize b
    input := s.input + blockSize b }, speech)

/-- The rest of the iteration: `speech_` is converted to the output. -/
def convertFrame (lib : DecodeLib γ σ) (outputLength : Int) (s : Locals γ σ)
    (speech : List Sample) : Locals γ σ :=
  let (converter, c) := lib.convert s.converter speech kAmrWbFrameSample (outputLength / 2)
  let written := s.writes ++ [.samples s.output c.written]
  { s with
    converter := converter
    -- The size of the `memset` is a negative `int` taken for a `size_t`.
    writes := if c.ret < 0 then
        written ++ [.zeros s.output ((2 : Int) ^ 64 + 2 * c.ret).toNat]
      else written
    output := s.output + 2 * c.ret
    outputSize := s.outputSize + 2 * c.ret }

/-- One round of `while (remain_length > 0)`, the test included. -/
def body (lib : DecodeLib γ σ) (data : List Byte) (outputLength : Int) (s : Locals γ σ) :
    Next (Locals γ σ) (Int × Locals γ σ) :=
  if ¬ s.remainLength > 0 then .leave (s.outputSize, s)
  else if s.remainLength < blockSize (data.getD s.input 0) then .leave (s.outputSize, s)
  else
    -- A frame is decoded and passed over before the room for it is looked at.
    let (s, speech) := decodeFrame lib data s
    if outputLength < kPcmFrameLength then .leave (-1, s)
    else .again (convertFrame lib outputLength s speech)

/-- The locals before the loop. -/
def enter (q : AmrWbDeCoder γ σ) (length : Int) : Locals γ σ where
  coderBase := q.coderBase
  converter := q.converter
  input := 0
  remainLength := length
  output := 0
  outputSize := 0
  handed := []
  writes := []

/-- `AmrWbDeCoder::Codec`: the call can end with the given return value and
    locals. -/
def Codec (lib : DecodeLib γ σ) (q : AmrWbDeCoder γ σ) (data : List Byte) (length : Int)
    (outputLength : Int) (r : Int × Locals γ σ) : Prop :=
  if length < 0 then r = (-1, enter q length)
  else Gives (body lib data outputLength) (enter q length) r

end AmrWbDeCoder

/-- `AMRNoOctetAlign`: the buffer `tar` after the call, and the value returned. -/
def amrNoOctetAlign (tar src : List Byte) (len : Nat) : List Byte × Nat :=
  let tar := tar.set 0 (0xf0 ||| src.getD 0 0 >>> 4)
  let tar := tar.set 1 (src.getD 0 0 <<< 4 &&& 0xc0)
  let tar := (List.range' 1 (len - 1)).foldl (fun tar offset =>
    (tar.set offset (tar.getD offset 0 ||| src.getD offset 0 >>> 2)).set (offset + 1)
      (src.getD offset 0 <<< 6 &&& 0xc0)) tar
  (tar, if tar.getD len 0 = 0 then len else len + 1)

/-- What the encoder calls: `E_IF_encode`, from its state, the mode, the samples
    at its pointer and the DTX flag to the bytes it puts into `amr_buff_`, and
    the rate converter. -/
structure EncodeLib (γ σ : Type*) where
  eIfEncode : γ → Int → List Sample → Int → γ × List Byte
  convert : Convert σ

/-- The members of `AmrWbEnCoder`. -/
structure AmrWbEnCoder (γ σ : Type*) where
  coderBase : γ
  converter : σ
  amrBuff : List Byte

namespace AmrWbEnCoder

/-- The members and locals of `Codec` between two iterations. `encoded` logs the
    frames `E_IF_encode` produced, `written` the bytes copied to the output. -/
structure Locals (γ σ : Type*) where
  coderBase : γ
  converter : σ
  amrBuff : List Byte
  inFrame : Nat
  lastFrames : Int
  outputLength : Int
  totalSize : Int
  encoded : List (List Byte)
  written : List Byte

/-- The call of `E_IF_encode` on the samples at `in_frame`, and the frame it
    leaves at the start of `amr_buff_`. -/
def encodeFrame (lib : EncodeLib γ σ) (buff : List Sample) (s : Locals γ σ) :
    Locals γ σ × List Byte :=
  let (coderBase, frame) := lib.eIfEncode s.coderBase kAmrEncodeMode
    ((buff.drop s.inFrame).take kAmrWbFrameSample) kAmrAllowDtx
  ({ s with
    coderBase := coderBase
    amrBuff := frame ++ s.amrBuff.drop frame.length
    encoded := s.encoded ++ [frame] }, frame)

/-- The `memcpy` to the output and the moves to the next frame. -/
def copyFrame (s : Locals γ σ) (alignBuff : List Byte) (codecSize : Nat) : Locals γ σ :=
  { s with
    written := s.written ++ alignBuff.take codecSize
    outputLength := s.outputLength - codecSize
    totalSize := s.totalSize + codecSize
    inFrame := s.inFrame + kAmrWbFrameSample
    lastFrames := s.lastFrames - kAmrWbFrameSample }

/-- One round of `while (last_frames >= kAmrWbFrameSample)`, the test included. -/
def body (lib : EncodeLib γ σ) (buff : List Sample) (s : Locals γ σ) :
    Next (Locals γ σ) (Int × Locals γ σ) :=
  if ¬ s.lastFrames ≥ kAmrWbFrameSample then .leave (s.totalSize, s)
  else
    let (s, frame) := encodeFrame lib buff s
    let (alignBuff, alignLen) :=
      amrNoOctetAlign (List.replicate 128 0) s.amrBuff frame.length
    -- `align_len++`: one byte more than the repacked frame was found to need.
    let codecSize := alignLen + 1
    -- For want of room the loop ends with what has been copied so far.
    if s.outputLength < codecSize then .leave (s.totalSize, s)
    else .again (copyFrame s alignBuff codecSize)

/-- The locals before the loop. -/
def enter (q : AmrWbEnCoder γ σ) (converter : σ) (length outputLength : Int) : Locals γ σ where
  coderBase := q.coderBase
  converter := converter
  amrBuff := q.amrBuff
  inFrame := 0
  lastFrames := length
  outputLength := outputLength
  totalSize := 0
  encoded := []
  written := []

/-- `buff` after the conversion: what the converter wrote, then what the memory
    held before. -/
def converted (fresh : Nat → Sample) (length : Nat) (written : List Sample) : List Sample :=
  written ++ ((List.range length).map fresh).drop written.length

/-- `AmrWbEnCoder::Codec`: the call can end with the given return value and
    locals. `fresh` is what the new array `buff` holds. -/
def Codec (lib : EncodeLib γ σ) (fresh : Nat → Sample) (q : AmrWbEnCoder γ σ)
    (data : List Byte) (length outputLength : Int) (r : Int × Locals γ σ) : Prop :=
  if length ≤ 0 then r = (-1, enter q q.converter length outputLength)
  else
    let (converter, c) := lib.convert q.converter (words16 data) (length / 2) length
    if c.ret < 0 then r = (-1, enter q converter length outputLength)
    else Gives (body lib (converted fresh length.toNat c.written))
      (enter q converter length outputLength) r

end AmrWbEnCoder

/-- Three frame types have no size. -/
theorem blockSize_eq_zero_iff (b : Byte) :
    blockSize b = 0 ↔ 11 ≤ frameMode b ∧ frameMode b ≤ 13 := by
  have hlt : frameMode b < 16 := Nat.and_lt_two_pow _ (by decide : 0x0f < 2 ^ 4)
  have htable : ∀ mode < 16, kAmrBlockSize.getD mode 0 = 0 ↔ 11 ≤ mode ∧ mode ≤ 13 := by
    decide
  exact htable (frameMode b) hlt

/-- Repacking puts four set bits and the upper half of the frame's first byte
    first, whatever the rest of the frame is. -/
theorem amrNoOctetAlign_first (tar src : List Byte) (len : Nat) (ht : tar ≠ []) :
    (amrNoOctetAlign tar src len).1[0]? = some (0xf0 ||| src.getD 0 0 >>> 4) := by
  -- The loop writes at offset one and behind.
  have hloop : ∀ (offsets : List Nat) (l : List Byte), (∀ i ∈ offsets, 1 ≤ i) →
      (offsets.foldl (fun tar offset =>
        (tar.set offset (tar.getD offset 0 ||| src.getD offset 0 >>> 2)).set (offset + 1)
          (src.getD offset 0 <<< 6 &&& 0xc0)) l)[0]? = l[0]? := by
    intro offsets
    induction offsets with
    | nil => intro l _; rfl
    | cons i offsets ih =>
        intro l hi
        have h1 := hi i List.mem_cons_self
        rw [List.foldl_cons, ih _ fun j hj => hi j (List.mem_cons_of_mem i hj),
          List.getElem?_set_ne (by omega), List.getElem?_set_ne (by omega)]
  unfold amrNoOctetAlign
  simp only []
  rw [hloop _ _ fun i hi => (List.mem_range'_1.mp hi).1, List.getElem?_set_ne (by omega),
    List.getElem?_set_self (List.length_pos_iff.mpr ht)]

namespace AmrWbEnCoder

variable (lib : EncodeLib γ σ) (buff : List Sample) (s : Locals γ σ)

/-- What `E_IF_encode` makes of the samples at `in_frame`. -/
@[simp] theorem encodeFrame_encoded :
    (encodeFrame lib buff s).1.encoded = s.encoded ++ [(encodeFrame lib buff s).2] := rfl

@[simp] theorem encodeFrame_written : (encodeFrame lib buff s).1.written = s.written := rfl

@[simp] theorem encodeFrame_totalSize : (encodeFrame lib buff s).1.totalSize = s.totalSize := rfl

@[simp] theorem encodeFrame_lastFrames :
    (encodeFrame lib buff s).1.lastFrames = s.lastFrames := rfl

@[simp] theorem encodeFrame_outputLength :
    (encodeFrame lib buff s).1.outputLength = s.outputLength := rfl

/-- The frame lies at the start of `amr_buff_`. -/
theorem encodeFrame_amrBuff (h : (encodeFrame lib buff s).2 ≠ []) :
    (encodeFrame lib buff s).1.amrBuff.getD 0 0 = (encodeFrame lib buff s).2.getD 0 0 := by
  have happ : (encodeFrame lib buff s).1.amrBuff = (encodeFrame lib buff s).2 ++
      s.amrBuff.drop (encodeFrame lib buff s).2.length := rfl
  rw [happ, List.getD_eq_getElem?_getD, List.getElem?_append_left (List.length_pos_iff.mpr h),
    ← List.getD_eq_getElem?_getD]

theorem body_done (h : ¬ s.lastFrames ≥ kAmrWbFrameSample) :
    body lib buff s = .leave (s.totalSize, s) := by
  rw [body, if_pos h]

/-- An iteration encodes one more frame, and then stops for want of room or
    copies the repacked frame. -/
theorem body_encode (h : s.lastFrames ≥ kAmrWbFrameSample) :
    body lib buff s = .leave (s.totalSize, (encodeFrame lib buff s).1) ∨
      ∃ alignBuff codecSize, 0 < codecSize ∧
        ((encodeFrame lib buff s).2 ≠ [] → alignBuff[0]? =
          some (0xf0 ||| (encodeFrame lib buff s).2.getD 0 0 >>> 4)) ∧
        body lib buff s = .again (copyFrame (encodeFrame lib buff s).1 alignBuff codecSize) := by
  rw [body, if_neg (not_not_intro h)]
  simp only []
  split
  · exact Or.inl rfl
  · refine Or.inr ⟨_, _, Nat.succ_pos _, fun hne => ?_, rfl⟩
    rw [amrNoOctetAlign_first _ _ _ (by decide), encodeFrame_amrBuff lib buff s hne]

/-- An iteration goes round again only after copying a frame. -/
theorem body_again (t : Locals γ σ) (h : body lib buff s = .again t) :
    s.lastFrames ≥ kAmrWbFrameSample ∧ ∃ alignBuff codecSize, 0 < codecSize ∧
      ((encodeFrame lib buff s).2 ≠ [] → alignBuff[0]? =
        some (0xf0 ||| (encodeFrame lib buff s).2.getD 0 0 >>> 4)) ∧
      t = copyFrame (encodeFrame lib buff s).1 alignBuff codecSize := by
  by_cases hf : s.lastFrames ≥ kAmrWbFrameSample
  · rcases body_encode lib buff s hf with hleave | ⟨alignBuff, codecSize, hpos, hfirst, hagain⟩
    · rw [hleave] at h
      exact absurd h (by simp only [reduceCtorEq, not_false_eq_true])
    · rw [hagain, Next.again.injEq] at h
      exact ⟨hf, alignBuff, codecSize, hpos, hfirst, h.symm⟩
  · rw [body_done lib buff s hf] at h
    exact absurd h (by simp only [reduceCtorEq, not_false_eq_true])

/-- The loop is left before a frame or for want of room for one that has been
    encoded. -/
theorem body_leave (r : Int × Locals γ σ) (h : body lib buff s = .leave r) :
    r = (s.totalSize, s) ∨ r = (s.totalSize, (encodeFrame lib buff s).1) := by
  by_cases hf : s.lastFrames ≥ kAmrWbFrameSample
  · rcases body_encode lib buff s hf with hleave | ⟨alignBuff, codecSize, -, -, hagain⟩
    · rw [hleave, Next.leave.injEq] at h
      exact Or.inr h.symm
    · rw [hagain] at h
      exact absurd h (by simp only [reduceCtorEq, not_false_eq_true])
  · rw [body_done lib buff s hf, Next.leave.injEq] at h
    exact Or.inl h.symm

end AmrWbEnCoder

namespace AmrWbDeCoder

variable (lib : DecodeLib γ σ) (data : List Byte) (outputLength : Int) (s : Locals γ σ)
  (speech : List Sample)

@[simp] theorem decodeFrame_input :
    (decodeFrame lib data s).1.input = s.input + blockSize (data.getD s.input 0) := rfl

@[simp] theorem decodeFrame_remainLength :
    (decodeFrame lib data s).1.remainLength =
      s.remainLength - blockSize (data.getD s.input 0) := rfl

@[simp] theorem decodeFrame_handed :
    (decodeFrame lib data s).1.handed = s.handed ++ [data.drop s.input] := rfl

@[simp] theorem decodeFrame_writes : (decodeFrame lib data s).1.writes = s.writes := rfl

@[simp] theorem decodeFrame_output : (decodeFrame lib data s).1.output = s.output := rfl

@[simp] theorem decodeFrame_outputSize :
    (decodeFrame lib data s).1.outputSize = s.outputSize := rfl

@[simp] theorem convertFrame_input :
    (convertFrame lib outputLength s speech).input = s.input := rfl

@[simp] theorem convertFrame_remainLength :
    (convertFrame lib outputLength s speech).remainLength = s.remainLength := rfl

@[simp] theorem convertFrame_handed :
    (convertFrame lib outputLength s speech).handed = s.handed := rfl

/-- A conversion that does not fail is one write, and moves the output by it. -/
theorem convertFrame_of_bounded (c : Converted)
    (hc : (lib.convert s.converter speech kAmrWbFrameSample (outputLength / 2)).2 = c)
    (hb : c.Bounded (outputLength / 2)) :
    (convertFrame lib outputLength s speech).writes =
        s.writes ++ [.samples s.output c.written] ∧
      (convertFrame lib outputLength s speech).output = s.output + 2 * c.ret ∧
      (convertFrame lib outputLength s speech).outputSize = s.outputSize + 2 * c.ret := by
  have hret : ¬ c.ret < 0 := by
    rw [hb.1]
    omega
  unfold convertFrame
  simp only [hc, if_neg hret, and_self]

/-- Writes stay in the log. -/
theorem mem_convertFrame (w : Write) (hw : w ∈ s.writes) :
    w ∈ (convertFrame lib outputLength s speech).writes := by
  unfold convertFrame
  simp only []
  split
  · exact List.mem_append_left _ (List.mem_append_left _ hw)
  · exact List.mem_append_left _ hw

theorem body_done (h : ¬ s.remainLength > 0) :
    body lib data outputLength s = .leave (s.outputSize, s) := by
  rw [body, if_pos h]

theorem body_short (h : s.remainLength > 0)
    (hs : s.remainLength < blockSize (data.getD s.input 0)) :
    body lib data outputLength s = .leave (s.outputSize, s) := by
  rw [body, if_neg (not_not_intro h), if_pos hs]

/-- With too small a buffer the first whole frame ends the call. -/
theorem body_full (h : s.remainLength > 0)
    (hs : ¬ s.remainLength < blockSize (data.getD s.input 0))
    (ho : outputLength < kPcmFrameLength) :
    body lib data outputLength s = .leave (-1, (decodeFrame lib data s).1) := by
  rw [body, if_neg (not_not_intro h), if_neg hs]
  simp only [if_pos ho]

/-- With a buffer for one frame, a whole frame is decoded and converted. -/
theorem body_frame (h : s.remainLength > 0)
    (hs : ¬ s.remainLength < blockSize (data.getD s.input 0))
    (ho : ¬ outputLength < kPcmFrameLength) :
    body lib data outputLength s =
      .again (convertFrame lib outputLength (decodeFrame lib data s).1
        (decodeFrame lib data s).2) := by
  rw [body, if_neg (not_not_intro h), if_neg hs]
  simp only [if_neg ho]

/-- An iteration goes round again only after a whole frame. -/
theorem body_again (t : Locals γ σ) (h : body lib data outputLength s = .again t) :
    s.remainLength > 0 ∧ ¬ s.remainLength < blockSize (data.getD s.input 0) ∧
      ¬ outputLength < kPcmFrameLength ∧
      t = convertFrame lib outputLength (decodeFrame lib data s).1 (decodeFrame lib data s).2 := by
  by_cases hr : s.remainLength > 0
  · by_cases hs : s.remainLength < blockSize (data.getD s.input 0)
    · rw [body_short lib data outputLength s hr hs] at h
      exact absurd h (by simp only [reduceCtorEq, not_false_eq_true])
    · by_cases ho : outputLength < kPcmFrameLength
      · rw [body_full lib data outputLength s hr hs ho] at h
        exact absurd h (by simp only [reduceCtorEq, not_false_eq_true])
      · rw [body_frame lib data outputLength s hr hs ho, Next.again.injEq] at h
        exact ⟨hr, hs, ho, h.symm⟩
  · rw [body_done lib data outputLength s hr] at h
    exact absurd h (by simp only [reduceCtorEq, not_false_eq_true])

/-- The loop is left before a frame, or with too small a buffer behind one. -/
theorem body_leave (r : Int × Locals γ σ) (h : body lib data outputLength s = .leave r) :
    r = (s.outputSize, s) ∨ r = (-1, (decodeFrame lib data s).1) := by
  by_cases hr : s.remainLength > 0
  · by_cases hs : s.remainLength < blockSize (data.getD s.input 0)
    · rw [body_short lib data outputLength s hr hs, Next.leave.injEq] at h
      exact Or.inl h.symm
    · by_cases ho : outputLength < kPcmFrameLength
      · rw [body_full lib data outputLength s hr hs ho, Next.leave.injEq] at h
        exact Or.inr h.symm
      · rw [body_frame lib data outputLength s hr hs ho] at h
        exact absurd h (by simp only [reduceCtorEq, not_false_eq_true])
  · rw [body_done lib data outputLength s hr, Next.leave.injEq] at h
    exact Or.inl h.symm

end AmrWbDeCoder

end CodecChanger
