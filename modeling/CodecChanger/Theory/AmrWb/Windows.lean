import CodecChanger.Theory.AmrWb.RoundTrip

/-!
# The Samples the AMR-WB Encoder Encodes

The encoder asks the rate converter for `length` samples and goes through as many,
a frame at a time, though the converter may have made fewer. What lies behind them
in the buffer is whatever the memory held.

The converter makes `c` samples, and of these `c / 320` are whole frames. The frame
behind them is encoded unless there is none up to `length`, or the output is full
before it. Up to there the encoder works on the converter's samples and on nothing
else, so the bytes that it needs for them are a matter of these.

## Main definitions

* `packFrame`, `packFrames`: Iterations with room for their frames.
* `bytesNeeded`: The room that the frames of some samples take.
* `EncodesConverted`: Only samples of the converter are encoded, and the result is a
  matter of these.

## Theorems

* `visits_packFrames`, `packFrames_visited`: The states that the loop visits.
* `packFrames_converted`: Whole frames of converted samples do not depend on what
  lies behind these.
* `encodesConverted_iff`: The exact condition.
-/

namespace CodecChanger

open Bytes Loop

namespace AmrWbEnCoder

variable {γ σ : Type*}

/-- An iteration that has room for its frame. -/
def packFrame (lib : EncodeLib γ σ) (buff : List Sample) (s : Locals γ σ) : Locals γ σ :=
  let (s, frame) := encodeFrame lib buff s
  let (alignBuff, alignLen) := amrNoOctetAlign (List.replicate 128 0) s.amrBuff frame.length
  copyFrame s alignBuff (alignLen + 1)

/-- Some such iterations. -/
def packFrames (lib : EncodeLib γ σ) (buff : List Sample) (s : Locals γ σ) : Nat → Locals γ σ
  | 0 => s
  | n + 1 => packFrame lib buff (packFrames lib buff s n)

/-- The bytes that the first `n` frames of some samples take in the output. -/
def bytesNeeded (lib : EncodeLib γ σ) (q : AmrWbEnCoder γ σ) (samples : List Sample) (n : Nat) :
    Int :=
  (packFrames lib samples (enter q q.converter 0 0) n).totalSize

/-- Whatever the new array holds, each frame that is encoded lies inside the samples
    that the converter made, so that there are at most as many frames as these
    have, and the call ends in the same way. -/
def EncodesConverted (lib : EncodeLib γ σ) (q : AmrWbEnCoder γ σ) (data : List Byte)
    (length outputLength : Int) : Prop :=
  let (converter, c) := lib.convert q.converter (words16 data) (length / 2) length
  (∀ fresh s, Visits (body lib (converted fresh length.toNat c.written))
      (enter q converter length outputLength) s →
    s.lastFrames ≥ kAmrWbFrameSample → s.inFrame + kAmrWbFrameSample ≤ c.ret) ∧
  (∀ fresh r, Codec lib fresh q data length outputLength r →
    (r.2.encoded.length : Int) ≤ c.ret / kAmrWbFrameSample) ∧
  ∃ r, ∀ fresh, Codec lib fresh q data length outputLength r

section

variable (lib : EncodeLib γ σ) (buff : List Sample) (s : Locals γ σ)

theorem packFrame_inFrame : (packFrame lib buff s).inFrame = s.inFrame + 320 := rfl

theorem packFrame_lastFrames : (packFrame lib buff s).lastFrames = s.lastFrames - 320 := rfl

theorem packFrame_encoded :
    (packFrame lib buff s).encoded = s.encoded ++ [(encodeFrame lib buff s).2] := rfl

/-- What a frame takes of the room is added to the total. -/
theorem packFrame_room :
    (packFrame lib buff s).outputLength + (packFrame lib buff s).totalSize =
        s.outputLength + s.totalSize ∧
      s.totalSize < (packFrame lib buff s).totalSize := by
  unfold packFrame copyFrame
  simp only [encodeFrame_totalSize]
  have hroom : (encodeFrame lib buff s).1.outputLength = s.outputLength := rfl
  rw [hroom]
  omega

/-- An iteration with a frame to encode has room for it, or leaves. -/
theorem body_packFrame (h : s.lastFrames ≥ kAmrWbFrameSample) :
    body lib buff s =
      if (packFrame lib buff s).outputLength < 0 then
        .leave (s.totalSize, (encodeFrame lib buff s).1)
      else .again (packFrame lib buff s) := by
  rw [body, if_neg (not_not_intro h)]
  unfold packFrame copyFrame
  simp only [encodeFrame_totalSize]
  -- The loop asks for the room before it takes it, `packFrame` takes it first.
  by_cases hroom : (encodeFrame lib buff s).1.outputLength <
      ((amrNoOctetAlign (List.replicate 128 0) (encodeFrame lib buff s).1.amrBuff
        (encodeFrame lib buff s).2.length).2 + 1 : Nat)
  · rw [if_pos hroom, if_pos (by omega)]
  · rw [if_neg hroom, if_neg (by omega)]

/-- An iteration depends on the samples at `in_frame` only. -/
theorem body_congr (buff' : List Sample)
    (h : (buff'.drop s.inFrame).take kAmrWbFrameSample =
      (buff.drop s.inFrame).take kAmrWbFrameSample) : body lib buff' s = body lib buff s := by
  unfold body encodeFrame
  rw [h]

theorem packFrame_congr (buff' : List Sample)
    (h : (buff'.drop s.inFrame).take kAmrWbFrameSample =
      (buff.drop s.inFrame).take kAmrWbFrameSample) :
    packFrame lib buff' s = packFrame lib buff s := by
  unfold packFrame encodeFrame
  rw [h]

/-- The moves of some iterations. -/
theorem packFrames_moves (n : Nat) :
    (packFrames lib buff s n).inFrame = s.inFrame + 320 * n ∧
      (packFrames lib buff s n).lastFrames = s.lastFrames - 320 * n ∧
      (packFrames lib buff s n).encoded.length = s.encoded.length + n := by
  induction n with
  | zero => exact ⟨rfl, by rw [packFrames]; omega, rfl⟩
  | succ n ih =>
      rcases ih with ⟨hin, hlast, henc⟩
      rw [packFrames, packFrame_inFrame, packFrame_lastFrames, packFrame_encoded,
        List.length_append, hin, hlast, henc, List.length_singleton]
      omega

/-- What some iterations take of the room is added to the total. -/
theorem packFrames_room (n : Nat) :
    (packFrames lib buff s n).outputLength + (packFrames lib buff s n).totalSize =
      s.outputLength + s.totalSize := by
  induction n with
  | zero => rfl
  | succ n ih => rw [packFrames, (packFrame_room lib buff _).1, ih]

/-- The total grows with the iterations. -/
theorem packFrames_mono (m n : Nat) (h : m ≤ n) :
    (packFrames lib buff s m).totalSize ≤ (packFrames lib buff s n).totalSize := by
  induction n, h using Nat.le_induction with
  | base => exact Int.le_refl _
  | succ n _ ih =>
      -- Each iteration copies a byte at least.
      have hmore := (packFrame_room lib buff (packFrames lib buff s n)).2
      rw [packFrames]
      omega

/-- The loop has had room for all frames before a state it visits. -/
theorem visits_packFrames (t : Locals γ σ) (h : Visits (body lib buff) s t) :
    ∃ n, t = packFrames lib buff s n ∧ (n = 0 ∨ 0 ≤ t.outputLength) := by
  induction h with
  | start => exact ⟨0, rfl, Or.inl rfl⟩
  | again t u _ hbody ih =>
      rcases ih with ⟨n, rfl, -⟩
      have hframe : (packFrames lib buff s n).lastFrames ≥ kAmrWbFrameSample :=
        (body_again lib buff _ u hbody).1
      rw [body_packFrame lib buff _ hframe] at hbody
      by_cases hroom : (packFrame lib buff (packFrames lib buff s n)).outputLength < 0
      · rw [if_pos hroom] at hbody
        exact absurd hbody (by simp only [reduceCtorEq, not_false_eq_true])
      · rw [if_neg hroom, Next.again.injEq] at hbody
        exact ⟨n + 1, hbody.symm, Or.inr (by rw [← hbody]; omega)⟩

/-- With frames to encode and room for them, the loop gets there. -/
theorem packFrames_visited (n : Nat) (hframes : 320 * n ≤ s.lastFrames)
    (hroom : n = 0 ∨ 0 ≤ (packFrames lib buff s n).outputLength) :
    Visits (body lib buff) s (packFrames lib buff s n) := by
  induction n with
  | zero => exact .start
  | succ n ih =>
      rcases hroom with hzero | hroom
      · exact absurd hzero (Nat.succ_ne_zero n)
      · have hfits := packFrame_room lib buff (packFrames lib buff s n)
        rw [packFrames] at hroom ⊢
        refine .again _ _ (ih (by omega) (Or.inr (by omega))) ?_
        rw [body_packFrame lib buff _ ?_, if_neg (by omega)]
        rw [(packFrames_moves lib buff s n).2.1]
        unfold kAmrWbFrameSample
        omega

/-- Iterations that agree in the samples they encode agree. -/
theorem packFrames_congr (buff' : List Sample) (n : Nat)
    (h : ∀ j < n, (buff'.drop (s.inFrame + 320 * j)).take kAmrWbFrameSample =
      (buff.drop (s.inFrame + 320 * j)).take kAmrWbFrameSample) :
    packFrames lib buff' s n = packFrames lib buff s n := by
  induction n with
  | zero => rfl
  | succ n ih =>
      rw [packFrames, packFrames, ih fun j hj => h j (Nat.lt_succ_of_lt hj)]
      refine packFrame_congr lib buff _ buff' ?_
      rw [(packFrames_moves lib buff s n).1]
      exact h n (Nat.lt_succ_self n)

/-- What a frame takes does not depend on the room there is for it. -/
theorem packFrames_totalSize (t : Locals γ σ) (n : Nat) (hbase : t.coderBase = s.coderBase)
    (hbuff : t.amrBuff = s.amrBuff) (hin : t.inFrame = s.inFrame)
    (htotal : t.totalSize = s.totalSize) :
    (packFrames lib buff t n).totalSize = (packFrames lib buff s n).totalSize := by
  -- The four members go through the iterations together.
  suffices h : (packFrames lib buff t n).coderBase = (packFrames lib buff s n).coderBase ∧
      (packFrames lib buff t n).amrBuff = (packFrames lib buff s n).amrBuff ∧
      (packFrames lib buff t n).inFrame = (packFrames lib buff s n).inFrame ∧
      (packFrames lib buff t n).totalSize = (packFrames lib buff s n).totalSize from h.2.2.2
  induction n with
  | zero => exact ⟨hbase, hbuff, hin, htotal⟩
  | succ n ih =>
      rcases ih with ⟨hbase', hbuff', hin', htotal'⟩
      simp only [packFrames, packFrame, copyFrame, encodeFrame, hbase', hbuff', hin', htotal',
        and_self]

end

section

variable (lib : EncodeLib γ σ) (fresh : Nat → Sample) (length : Nat) (written : List Sample)

/-- A frame of converted samples does not depend on what lies behind these. -/
theorem window_converted (i : Nat) (h : i + 320 ≤ written.length) :
    ((converted fresh length written).drop i).take kAmrWbFrameSample =
      (written.drop i).take kAmrWbFrameSample := by
  unfold converted kAmrWbFrameSample
  rw [List.drop_append_of_le_length (by omega), List.take_append_of_le_length]
  rw [List.length_drop]
  omega

/-- Nor do some of them, one behind the other. -/
theorem packFrames_converted (s : Locals γ σ) (n : Nat)
    (h : s.inFrame + 320 * n ≤ written.length) :
    packFrames lib (converted fresh length written) s n = packFrames lib written s n := by
  refine packFrames_congr lib written s _ n fun j hj => ?_
  exact window_converted fresh length written _ (by omega)

end

section

variable (lib : EncodeLib γ σ) (q : AmrWbEnCoder γ σ) (converter : σ) (c : Converted)
  (length outputLength : Int)

/-- The room that is left behind the whole frames of converted samples. -/
theorem outputLength_converted (fresh : Nat → Sample) (n : Nat)
    (h : 320 * n ≤ c.written.length) :
    (packFrames lib (converted fresh length.toNat c.written)
        (enter q converter length outputLength) n).outputLength =
      outputLength - bytesNeeded lib q c.written n := by
  have hroom := packFrames_room lib c.written (enter q converter length outputLength) n
  have htotal := packFrames_totalSize lib c.written (enter q q.converter 0 0)
    (enter q converter length outputLength) n rfl rfl rfl rfl
  have hstart : (enter q converter length outputLength).outputLength +
      (enter q converter length outputLength).totalSize = outputLength := Int.add_zero _
  have hin : (enter q converter length outputLength).inFrame + 320 * n ≤ c.written.length :=
    (Nat.zero_add _).le.trans h
  rw [packFrames_converted lib fresh _ _ _ n hin]
  unfold bytesNeeded
  omega

/-- The frame behind the whole ones is never reached: there is none up to `length`,
    or no room before it. -/
def StopsBefore (length outputLength : Int) : Prop :=
  length < 320 * (c.written.length / 320 + 1) ∨
    0 < c.written.length / 320 ∧
      outputLength < bytesNeeded lib q c.written (c.written.length / 320)

/-- Then every frame that is encoded lies inside the converted samples. -/
theorem inside_of_stopsBefore (hstops : StopsBefore lib q c length outputLength)
    (fresh : Nat → Sample) (s : Locals γ σ)
    (hs : Visits (body lib (converted fresh length.toNat c.written))
      (enter q converter length outputLength) s) (hframe : s.lastFrames ≥ kAmrWbFrameSample) :
    s.inFrame + 320 ≤ c.written.length ∧ 320 * s.encoded.length = s.inFrame := by
  rcases visits_packFrames lib _ _ s hs with ⟨n, hn, hroom⟩
  rcases packFrames_moves lib (converted fresh length.toNat c.written)
    (enter q converter length outputLength) n with ⟨hin, hlast, henc⟩
  rw [← hn] at hin hlast henc
  have hstart : (enter q converter length outputLength).inFrame = 0 ∧
      (enter q converter length outputLength).lastFrames = length ∧
      (enter q converter length outputLength).encoded.length = 0 := ⟨rfl, rfl, rfl⟩
  unfold kAmrWbFrameSample at hframe
  -- It is one of the whole frames.
  suffices hlt : n < c.written.length / 320 by omega
  by_contra hge
  rcases hstops with hshort | ⟨hpos, hfull⟩
  · omega
  · -- The frames so far need more room than the whole ones, for which there is none.
    have hmono := packFrames_mono lib (converted fresh length.toNat c.written)
      (enter q converter length outputLength) (c.written.length / 320) n (by omega)
    have hwhole := packFrames_room lib (converted fresh length.toNat c.written)
      (enter q converter length outputLength) (c.written.length / 320)
    have hall := packFrames_room lib (converted fresh length.toNat c.written)
      (enter q converter length outputLength) n
    rw [outputLength_converted lib q converter c length outputLength fresh _
      (Nat.mul_div_le _ _)] at hwhole
    rw [← hn] at hmono hall
    omega

/-- Then there are at most as many frames as the converted samples have. -/
theorem length_encoded_of_stopsBefore (hstops : StopsBefore lib q c length outputLength)
    (fresh : Nat → Sample) (r : Int × Locals γ σ)
    (hr : Gives (body lib (converted fresh length.toNat c.written))
      (enter q converter length outputLength) r) :
    r.2.encoded.length ≤ c.written.length / 320 := by
  have hinside := inside_of_stopsBefore lib q converter c length outputLength hstops fresh
  have hstep : ∀ s t, (Visits (body lib (converted fresh length.toNat c.written))
      (enter q converter length outputLength) s ∧ s.encoded.length ≤ c.written.length / 320) →
      body lib (converted fresh length.toNat c.written) s = .again t →
      Visits (body lib (converted fresh length.toNat c.written))
        (enter q converter length outputLength) t ∧
          t.encoded.length ≤ c.written.length / 320 := by
    rintro s t ⟨hs, -⟩ hbody
    rcases body_again lib _ s t hbody with ⟨hframe, alignBuff, codecSize, -, -, rfl⟩
    have hin := hinside s hs hframe
    refine ⟨.again s _ hs hbody, ?_⟩
    change (s.encoded ++ [_]).length ≤ c.written.length / 320
    rw [List.length_append, List.length_singleton]
    omega
  have hleave : ∀ s r, (Visits (body lib (converted fresh length.toNat c.written))
      (enter q converter length outputLength) s ∧ s.encoded.length ≤ c.written.length / 320) →
      body lib (converted fresh length.toNat c.written) s = .leave r →
      r.2.encoded.length ≤ c.written.length / 320 := by
    rintro s r ⟨hs, hle⟩ hbody
    by_cases hframe : s.lastFrames ≥ kAmrWbFrameSample
    · have hin := hinside s hs hframe
      rcases body_leave lib _ s r hbody with rfl | rfl
      · exact hle
      · rw [encodeFrame_encoded, List.length_append, List.length_singleton]
        omega
    · rw [body_done lib _ s hframe, Next.leave.injEq] at hbody
      rw [← hbody]
      exact hle
  -- Both carry that the state is visited, for the frame of the round is inside then.
  exact gives_invariant _ (fun r => r.2.encoded.length ≤ c.written.length / 320) hstep hleave _ r
    ⟨.start, Nat.zero_le _⟩ hr

/-- Then the call ends in the same way, whatever the new array holds. -/
theorem gives_of_stopsBefore (hstops : StopsBefore lib q c length outputLength)
    (fresh fresh' : Nat → Sample) (r : Int × Locals γ σ)
    (hr : Gives (body lib (converted fresh length.toNat c.written))
      (enter q converter length outputLength) r) :
    Gives (body lib (converted fresh' length.toNat c.written))
      (enter q converter length outputLength) r := by
  refine gives_congr _ _ r (fun s hs => ?_) hr
  -- In every state visited the iteration reads converted samples only, or none.
  by_cases hframe : s.lastFrames ≥ kAmrWbFrameSample
  · have hin := (inside_of_stopsBefore lib q converter c length outputLength hstops fresh s hs
      hframe).1
    exact body_congr lib _ s _ ((window_converted fresh' _ _ _ hin).trans
      (window_converted fresh _ _ _ hin).symm)
  · rw [body_done lib _ s hframe, body_done lib _ s hframe]

/-- Otherwise the frame behind the whole ones is encoded. -/
theorem beyond_of_not_stopsBefore
    (hgoes : ¬ StopsBefore lib q c length outputLength) (fresh : Nat → Sample) :
    ∃ s, Visits (body lib (converted fresh length.toNat c.written))
        (enter q converter length outputLength) s ∧
      s.lastFrames ≥ kAmrWbFrameSample ∧ c.written.length < s.inFrame + 320 := by
  have hreached := packFrames_visited lib (converted fresh length.toNat c.written)
    (enter q converter length outputLength) (c.written.length / 320)
  have hmoves := packFrames_moves lib (converted fresh length.toNat c.written)
    (enter q converter length outputLength) (c.written.length / 320)
  have hroom := outputLength_converted lib q converter c length outputLength fresh
    (c.written.length / 320) (Nat.mul_div_le _ _)
  have hstart : (enter q converter length outputLength).inFrame = 0 ∧
      (enter q converter length outputLength).lastFrames = length := ⟨rfl, rfl⟩
  unfold StopsBefore at hgoes
  unfold kAmrWbFrameSample
  exact ⟨_, hreached (by omega) (by omega), by omega, by omega⟩

end

/-- The encoder encodes converted samples only exactly when it stops before the frame
    behind the whole ones. -/
theorem encodesConverted_iff (lib : EncodeLib γ σ) (q : AmrWbEnCoder γ σ) (data : List Byte)
    (length outputLength : Int) (converter : σ) (c : Converted) (hpos : 0 < length)
    (hconv : lib.convert q.converter (words16 data) (length / 2) length = (converter, c))
    (hb : c.Bounded length) :
    EncodesConverted lib q data length outputLength ↔
      StopsBefore lib q c length outputLength := by
  have hret := hb.1
  have hcodec : ∀ fresh r, Codec lib fresh q data length outputLength r ↔
      Gives (body lib (converted fresh length.toNat c.written))
        (enter q converter length outputLength) r := by
    intro fresh r
    rw [Codec, if_neg (by omega), hconv]
    simp only []
    rw [if_neg (by omega)]
  unfold EncodesConverted
  rw [hconv]
  simp only [hcodec]
  unfold kAmrWbFrameSample
  constructor
  · rintro ⟨hinside, -, -⟩
    by_contra hc
    -- Whatever the array holds, the loop gets there.
    rcases beyond_of_not_stopsBefore lib q converter c length outputLength hc
      (fun _ => 0) with ⟨s, hs, hframe, hbeyond⟩
    have hin := hinside (fun _ => 0) s hs hframe
    omega
  · intro hstops
    refine ⟨fun fresh s hs hframe => ?_, fun fresh r hr => ?_, ?_⟩
    · have hin := (inside_of_stopsBefore lib q converter c length outputLength hstops fresh s hs
        hframe).1
      omega
    · have hcount := length_encoded_of_stopsBefore lib q converter c length outputLength hstops
        fresh r hr
      omega
    · rcases encoder_returns lib (converted (fun _ => 0) length.toNat c.written)
        (enter q converter length outputLength) with ⟨r, hr⟩
      exact ⟨r, fun fresh => gives_of_stopsBefore lib q converter c length outputLength hstops
        (fun _ => 0) fresh r hr⟩

/-- With a converter that makes all the samples it is asked for, one frame. -/
theorem encodesConverted_iff_whole :
    EncodesConverted steady ⟨(), (), []⟩ (List.replicate 320 0) 320 2048 :=
  (encodesConverted_iff steady ⟨(), (), []⟩ (List.replicate 320 0) 320 2048 ()
    { ret := 320, written := List.replicate 320 0 } (by decide) rfl
    ⟨by rw [List.length_replicate]; rfl, by decide⟩).mpr
      (Or.inl (by rw [List.length_replicate]; decide))

/-- A converter that is 20 samples behind, and a codec whose frames have the low byte
    of the last sample. -/
def lagging : EncodeLib Unit Unit where
  eIfEncode _ _ samples _ := ((), [byte (samples.getD 319 0) 0])
  convert _ _ _ max := ((), { ret := max - 20, written := List.replicate (max - 20).toNat 0 })

/-- One frame in a buffer of which the last 20 samples are not converted. -/
def laggingFrame (fresh : Nat → Sample) : Locals Unit Unit :=
  packFrame lagging (converted fresh 320 (List.replicate 300 0))
    (enter ⟨(), (), []⟩ () 320 2048)

theorem codec_lagging (fresh : Nat → Sample) (hroom : ¬ (laggingFrame fresh).outputLength < 0) :
    Codec lagging fresh ⟨(), (), []⟩ (List.replicate 320 0) 320 2048
      ((laggingFrame fresh).totalSize, laggingFrame fresh) := by
  rw [Codec, if_neg (by decide)]
  change Gives (body lagging (converted fresh 320 (List.replicate 300 0)))
    (enter ⟨(), (), []⟩ () 320 2048) _
  have hagain := body_packFrame lagging (converted fresh 320 (List.replicate 300 0))
    (enter ⟨(), (), []⟩ () 320 2048) (Int.le_refl 320)
  unfold laggingFrame at hroom ⊢
  rw [if_neg hroom] at hagain
  refine (gives_again _ _ _ hagain).mpr ((gives_leave _ _ _ (body_done lagging _ _ ?_)).mpr rfl)
  rw [packFrame_lastFrames]
  exact (by decide : ¬ (320 - 320 : Int) ≥ kAmrWbFrameSample)

/-- One frame, of which the converter makes 300 samples: the frame has a byte of what
    the memory held. -/
theorem encodesConverted_fails :
    (Codec lagging (fun _ => 0) ⟨(), (), []⟩ (List.replicate 320 0) 320 2048
        (2, laggingFrame fun _ => 0) ∧
      Codec lagging (fun _ => 4) ⟨(), (), []⟩ (List.replicate 320 0) 320 2048
        (3, laggingFrame fun _ => 4)) ∧
    ¬ EncodesConverted lagging ⟨(), (), []⟩ (List.replicate 320 0) 320 2048 := by
  have hzero := codec_lagging (fun _ => 0) (by decide +kernel)
  have hfour := codec_lagging (fun _ => 4) (by decide +kernel)
  have htotal : (laggingFrame fun _ => 0).totalSize = 2 := by decide +kernel
  have htotal' : (laggingFrame fun _ => 4).totalSize = 3 := by decide +kernel
  rw [htotal] at hzero
  rw [htotal'] at hfour
  refine ⟨⟨hzero, hfour⟩, ?_⟩
  rintro ⟨hinside, -, -⟩
  have hin := hinside (fun _ => 0) _ .start (Int.le_refl _)
  simp only [enter, kAmrWbFrameSample] at hin
  omega

end AmrWbEnCoder

end CodecChanger
