import CodecChanger.Lib.Bytes

/-!
# The Rate Converter

`RateConverter::Convert` of `codec.cpp`, the bridge between the 8 kHz PCM of
the sessions and the 16 kHz PCM of the AMR-WB library. Its work is done by
libsamplerate, which is not part of the repository and is taken as a parameter
here: the two conversions between `short` and `float`, and `src_process`.

A coder only sees a converter through its calls, and `Convert` is the type of
such a call: what it is given, what it returns and what it writes.

## Main definitions

* `Sample`, `kPcmFrameSample`, `kPcmFrameLength`: A PCM sample, and a frame of
  them.
* `Converted`: What a call of `Convert` returned and wrote.
* `Convert`: A converter, as its calls.
* `RateConverter`: The converter's members.
* `RateConverter.convert`: `RateConverter::Convert`.
* `RateConverter.halving`: The converter of the decoder.
* `Bounded`: The contract of a call that does not fail.

## Theorems

* `convert_spec`: A call fails and writes nothing, or keeps the contract.
* `convert_ret_nonneg`: A call does not fail when libsamplerate does its work.
-/

namespace CodecChanger

/-- `int16_t`, by its bit pattern. -/
abbrev Sample := BitVec 16

/-- The samples of a frame of PCM. -/
def kPcmFrameSample : Nat := 160

/-- The bytes of a frame of PCM. -/
def kPcmFrameLength : Nat := 320

/-- What a call of `Convert` returned, and the samples it wrote from `output`
    on. -/
structure Converted where
  ret : Int
  written : List Sample
  deriving DecidableEq, Repr

/-- A converter as its calls: from its state, the samples at `input`,
    `input_frames` and `output_frames`. -/
abbrev Convert (σ : Type*) := σ → List Sample → Int → Int → σ × Converted

/-- A call that does not fail writes as many samples as it returns, and at most
    as many as it was allowed. -/
def Converted.Bounded (c : Converted) (outputFrames : Int) : Prop :=
  c.ret = c.written.length ∧ c.ret ≤ outputFrames

/-- `SRC_DATA` of libsamplerate. -/
structure SrcData (φ : Type*) where
  dataIn : List φ
  dataOut : List φ
  inputFrames : Int
  outputFrames : Nat
  inputFramesUsed : Int
  outputFramesGen : Nat
  endOfInput : Bool

/-- The functions of libsamplerate that `Convert` calls. -/
structure SampleRate (π φ : Type*) where
  shortToFloat : Sample → φ
  floatToShort : φ → Sample
  /-- `src_process`: the new state, whether it reports an error, and the data
      record with the output and the two counts filled in. -/
  srcProcess : π → SrcData φ → π × Bool × SrcData φ

variable {π φ : Type*}

/-- The members of `RateConverter`. The rate is an `int`, so the half of the
    decoder is kept as zero. -/
structure RateConverter (π φ : Type*) where
  pState : π
  rate : Int
  data : SrcData φ

namespace RateConverter

/-- `RateConverter::kBuffSize`. -/
def kBuffSize : Nat := 1600

/-- `RateConverter::Convert`. -/
def convert [Inhabited φ] (lib : SampleRate π φ) (isEnd : Bool) :
    Convert (RateConverter π φ) := fun q input inputFrames outputFrames =>
  if inputFrames > kBuffSize ∨ inputFrames * q.rate > kBuffSize then
    (q, { ret := -1, written := [] })
  else
    let inBuff := (input.take inputFrames.toNat).map lib.shortToFloat ++
      q.data.dataIn.drop inputFrames.toNat
    let (pState, error, data) := lib.srcProcess q.pState
      { q.data with dataIn := inBuff, endOfInput := isEnd, inputFrames := inputFrames }
    let q' := { q with pState := pState, data := data }
    if error then
      (q', { ret := -1, written := [] })
    else if data.outputFramesGen > outputFrames then
      -- More came out than fits: nothing is copied.
      (q', { ret := -1, written := [] })
    else
      let gen := (List.range data.outputFramesGen).map fun i =>
        lib.floatToShort (data.dataOut.getD i default)
      (q', { ret := data.outputFramesGen, written := gen })

/-- A call of `Convert` fails and writes nothing, or returns how many samples it
    wrote, which is at most what it was allowed. -/
theorem convert_spec [Inhabited φ] (lib : SampleRate π φ) (isEnd : Bool)
    (q : RateConverter π φ) (input : List Sample) (inputFrames outputFrames : Int) :
    (convert lib isEnd q input inputFrames outputFrames).2 = { ret := -1, written := [] } ∨
      (convert lib isEnd q input inputFrames outputFrames).2.Bounded outputFrames := by
  unfold convert
  simp only []
  split
  · exact Or.inl rfl
  · split
    · exact Or.inl rfl
    · split
      · exact Or.inl rfl
      · rename_i hfit
        refine Or.inr ⟨?_, by simp only []; omega⟩
        simp only [List.length_map, List.length_range]

/-- A call leaves the rate alone. -/
theorem convert_rate [Inhabited φ] (lib : SampleRate π φ) (isEnd : Bool)
    (q : RateConverter π φ) (input : List Sample) (inputFrames outputFrames : Int) :
    (convert lib isEnd q input inputFrames outputFrames).1.rate = q.rate := by
  unfold convert
  simp only []
  split
  · rfl
  · split
    · rfl
    · split <;> rfl

/-- The converter of the decoder, whose rate of one half is kept as zero. -/
def halving [Inhabited φ] (lib : SampleRate π φ) :
    Convert { q : RateConverter π φ // q.rate = 0 } :=
  fun q input inputFrames outputFrames =>
    (⟨(convert lib false q.1 input inputFrames outputFrames).1,
      (convert_rate lib false q.1 input inputFrames outputFrames).trans q.2⟩,
      (convert lib false q.1 input inputFrames outputFrames).2)

/-- A call does not fail when its input fits, `src_process` reports no error and
    what comes out fits as well. -/
theorem convert_ret_nonneg [Inhabited φ] (lib : SampleRate π φ) (isEnd : Bool)
    (q : RateConverter π φ) (input : List Sample) (inputFrames outputFrames : Int)
    (hin : inputFrames ≤ kBuffSize) (hrate : inputFrames * q.rate ≤ kBuffSize)
    (hproc : ∀ d : SrcData φ, d.inputFrames = inputFrames →
      (lib.srcProcess q.pState d).2.1 = false ∧
        (lib.srcProcess q.pState d).2.2.outputFramesGen ≤ outputFrames) :
    0 ≤ (convert lib isEnd q input inputFrames outputFrames).2.ret := by
  unfold convert
  rw [if_neg (by omega)]
  simp only []
  rcases hproc { q.data with
    dataIn := (input.take inputFrames.toNat).map lib.shortToFloat ++
      q.data.dataIn.drop inputFrames.toNat
    endOfInput := isEnd
    inputFrames := inputFrames } rfl with ⟨herror, hfit⟩
  simp only [herror, Bool.false_eq_true, if_false, if_neg (not_lt.mpr hfit)]
  omega

end RateConverter

end CodecChanger
