import CodecChanger.Core.Codec2
import CodecChanger.Theory.G711.Silence

/-!
# Codec2 Over a Run of Calls

A coder of Codec2 carries its state from frame to frame. So it matters that every call takes
up where the one before has stopped, and that a call that fails leaves no trace.

An encoder codes one stream: the PCM of the calls that succeed, one after the other, with
silence where a session asked for white frames. It makes of them what it would make of the
stream in one call. A decoder decodes the packets alone. Its white frames are zeros that it
does not hear itself, so they do not disturb what the packets behind them are decoded to,
but neither do they fade.

## Main definitions

* `Codec2.Call.Within`: The input holds what the call says, and the lengths are `int`s.
* `Codec2.taken`: What `Codec` takes of its input.
* `Codec2.Call.asked`, `Codec2.Answered`: The frames a call is for, and what it answers.
* `Codec2EnCoder.heard`: What an encoder is to hear of a call.
* `Codec2DeCoder.packet`: What a decoder is to decode of a call.
* `Codec2.Call.decoded`: What it makes of that.
* `Codec2DeCoder.Answered`: What it answers, white frames being zeros.

## Theorems

* `codecFrames_taken`: One call of `Codec`.
* `getWhite_heard`: White frames of an encoder are silence encoded.
* `getWhite_answered`: White frames of a decoder are zeros.
* `encodes_stream`: A run of an encoder.
* `decodes_stream`: A run of a decoder.
-/

namespace CodecChanger

open Bytes Framing MachineInt

variable {σ : Type*}

namespace Codec2

/-- The input is at least as long as the call says, and with `n` bytes to a frame of it and
    `m` to one of the output the length of the output is an `int`. -/
def Call.Within (n m : Nat) : Call → Prop
  | .codec input length _ => length ≤ input.length ∧ Fits (length.tdiv n * m)
  | .getWhite _ frames => Fits (frames * m)

/-- What `Codec` takes of its input: nothing when it fails. -/
def taken (n m : Nat) (input : List Byte) (length outputLength : Int) : List Byte :=
  if length.tmod n ≠ 0 ∨ outputLength < length.tdiv n * m then [] else input.take length.toNat

/-- The number of frames that a call is for, if its length is one of whole frames and there
    is room for what they make. It is negative when the length is. -/
def Call.asked (n m : Nat) : Call → Option Int
  | .codec _ length outputLength =>
      if length.tmod n ≠ 0 ∨ outputLength < length.tdiv n * m then none
      else some (length.tdiv n)
  | .getWhite length frames => if length < frames * m then none else some frames

/-- A call fails with nothing written when it is for no frames, and otherwise returns the
    length of its frames and writes as many as there are. -/
structure Answered (m : Nat) (asked : Option Int) (a : Coded) : Prop where
  refused : asked = none → a = { ret := -1, written := [] }
  accepted : ∀ frames, asked = some frames →
    a.ret = frames * m ∧ a.written.length = m * frames.toNat

theorem answered_none (m : Nat) : Answered m none { ret := -1, written := [] } :=
  ⟨fun _ => rfl, fun _ h => absurd h (by simp only [reduceCtorEq, not_false_eq_true])⟩

theorem answered_some (m : Nat) (frames : Int) (a : Coded) (hret : a.ret = frames * m)
    (hwritten : a.written.length = m * frames.toNat) : Answered m (some frames) a :=
  ⟨fun h => absurd h (by simp only [reduceCtorEq, not_false_eq_true]), fun k h => by
    rw [← Option.some.inj h]
    exact ⟨hret, hwritten⟩⟩

/-- What of an answer a decoder has made of a packet. -/
def Call.decoded : Call → Coded → List Byte
  | .codec _ _ _, a => a.written
  | .getWhite _ _, _ => []

/-- What a coder takes in a call has whole frames. -/
theorem dvd_taken (n m : Nat) (input : List Byte) (length outputLength : Int)
    (h : length ≤ input.length) : n ∣ (taken n m input length outputLength).length := by
  unfold taken
  split
  · exact Nat.dvd_zero n
  · rename_i hok
    rcases not_or.mp hok with ⟨hmod, -⟩
    rw [List.length_take_of_le (by omega)]
    have hdvd : (n : Int) ∣ length := Int.dvd_of_tmod_eq_zero (not_not.mp hmod)
    by_cases hneg : length < 0
    · rw [Int.toNat_of_nonpos (by omega)]
      exact Nat.dvd_zero n
    · rw [← Int.natCast_dvd_natCast, Int.toNat_of_nonneg (by omega)]
      exact hdvd

/-- A call with the wrong lengths takes nothing and does nothing. -/
theorem codecFrames_refused (f : σ → List Byte → σ × List Byte) (n m : Nat) (q : σ)
    (input : List Byte) (length outputLength : Int) (hfits : Fits (length.tdiv n * m))
    (h : length.tmod n ≠ 0 ∨ outputLength < length.tdiv n * m) :
    codecFrames f n m q input length outputLength = (q, { ret := -1, written := [] }) ∧
      taken n m input length outputLength = [] := by
  refine ⟨?_, if_pos h⟩
  unfold codecFrames
  simp only [wrap_of_fits _ hfits]
  by_cases hmod : length.tmod n ≠ 0
  · rw [if_pos hmod]
  · rw [if_neg hmod]
    exact if_pos (h.resolve_left hmod)

/-- A call with the right lengths codes a number of frames. -/
theorem codecFrames_accepted (f : σ → List Byte → σ × List Byte) (n m : Nat) (q : σ)
    (input : List Byte) (length outputLength : Int) (hfits : Fits (length.tdiv n * m))
    (h : ¬ (length.tmod n ≠ 0 ∨ outputLength < length.tdiv n * m)) :
    codecFrames f n m q input length outputLength =
        ((code f n (length.tdiv n).toNat q input).1,
          { ret := length.tdiv n * m
            written := (code f n (length.tdiv n).toNat q input).2 }) ∧
      taken n m input length outputLength = input.take length.toNat ∧
      (n : Int) * length.tdiv n = length := by
  rcases not_or.mp h with ⟨hmod, hroom⟩
  refine ⟨?_, if_neg h, Int.mul_tdiv_cancel_of_dvd (Int.dvd_of_tmod_eq_zero (not_not.mp hmod))⟩
  unfold codecFrames
  simp only [wrap_of_fits _ hfits]
  rw [if_neg hmod]
  exact if_neg hroom

/-- One call of `Codec` codes the frames that it takes. -/
theorem codecFrames_taken (f : σ → List Byte → σ × List Byte) (n m : Nat) (hn : 0 < n)
    (hf : ∀ q b, b.length = n → (f q b).2.length = m) (q : σ) (input : List Byte)
    (length outputLength : Int) (h : (Call.codec input length outputLength).Within n m) :
    (step f n q (taken n m input length outputLength) =
        ((codecFrames f n m q input length outputLength).1,
          (codecFrames f n m q input length outputLength).2.written)) ∧
      Answered m ((Call.codec input length outputLength).asked n m)
        (codecFrames f n m q input length outputLength).2 := by
  rcases h with ⟨h, hfits⟩
  unfold Call.asked
  by_cases hok : length.tmod n ≠ 0 ∨ outputLength < length.tdiv n * m
  · rcases codecFrames_refused f n m q input length outputLength hfits hok with
      ⟨hcodec, htaken⟩
    simp only [hcodec, htaken, if_pos hok]
    exact ⟨step_nil f n q, answered_none m⟩
  · rcases codecFrames_accepted f n m q input length outputLength hfits hok with
      ⟨hcodec, htaken, hmul⟩
    simp only [hcodec, htaken, if_neg hok]
    generalize length.tdiv n = frames at hmul ⊢
    by_cases hneg : frames < 0
    · -- The loop has no rounds for a negative number of frames.
      have hlen : length < 0 := hmul ▸ Int.mul_neg_of_pos_of_neg (by omega) hneg
      rw [Int.toNat_of_nonpos (by omega), Int.toNat_of_nonpos (by omega), List.take_zero]
      exact ⟨step_nil f n q, answered_some m frames _ rfl (by
        rw [Int.toNat_of_nonpos (by omega)]
        rfl)⟩
    · rcases Int.eq_ofNat_of_zero_le (Int.not_lt.mp hneg) with ⟨k, hk⟩
      have hlength : length = ((n * k : Nat) : Int) := by
        rw [← hmul, hk, Int.natCast_mul]
      have hin : n * k ≤ input.length := by omega
      rw [hk, hlength, Int.toNat_natCast, Int.toNat_natCast]
      refine ⟨step_take f n hn k q input hin, answered_some m k _ rfl ?_⟩
      rw [Int.toNat_natCast]
      exact length_code f n m k q input hin hf

end Codec2

namespace Codec2EnCoder

variable (lib : Codec2Lib σ)

/-- The PCM that an encoder is to hear of a call: what `Codec` takes, and silence for white
    frames that there is room for. -/
def heard : Codec2.Call → List Byte
  | .codec input length outputLength =>
      Codec2.taken kPcmFrameLength kCodec2FrameLength input length outputLength
  | .getWhite length frames =>
      if length < frames * kCodec2FrameLength then [] else silence frames.toNat

/-- Every frame has its size. -/
theorem length_frame (q : σ) (b : List Byte) : (frame lib q b).2.length = kCodec2FrameLength :=
  lib.length_codec2Encode q _

/-- The loop over white frames encodes silence. -/
theorem whiteLoop_eq (frames : Nat) (q : σ) :
    whiteLoop lib frames q = code (frame lib) kPcmFrameLength frames q (silence frames) := by
  induction frames generalizing q with
  | zero => rfl
  | succ frames ih =>
      have hsplit : silence (frames + 1) = silence 1 ++ silence frames := by
        unfold silence
        rw [List.replicate_append_replicate]
        congr 1
        omega
      have hone : (silence 1).length = kPcmFrameLength := length_silence 1
      have hframe : frame lib q (silence 1) = lib.codec2Encode q emptyBuff := by
        rw [frame, words16_silence]
        rfl
      rw [code_succ, hsplit, List.take_left' hone, List.drop_left' hone, hframe, ← ih]
      rfl

/-- White frames are what silence is encoded to. -/
theorem getWhite_heard (q : σ) (length frames : Int)
    (h : (Codec2.Call.getWhite length frames).Within kPcmFrameLength kCodec2FrameLength) :
    step (frame lib) kPcmFrameLength q (heard (.getWhite length frames)) =
        ((getWhite lib q length frames).1, (getWhite lib q length frames).2.written) ∧
      Codec2.Answered kCodec2FrameLength
        ((Codec2.Call.getWhite length frames).asked kPcmFrameLength kCodec2FrameLength)
        (getWhite lib q length frames).2 := by
  have hproduct : wrap (kCodec2FrameLength * frames) = frames * kCodec2FrameLength := by
    rw [Int.mul_comm]
    exact wrap_of_fits _ h
  unfold getWhite heard Codec2.Call.asked
  simp only [hproduct, wrap_of_fits _ h]
  by_cases hroom : length < frames * kCodec2FrameLength
  · simp only [if_pos hroom]
    exact ⟨step_nil _ _ q, Codec2.answered_none _⟩
  · simp only [if_neg hroom]
    have hlen : (silence frames.toNat).length = kPcmFrameLength * frames.toNat :=
      length_silence _
    have hstep : step (frame lib) kPcmFrameLength q (silence frames.toNat) =
        code (frame lib) kPcmFrameLength frames.toNat q (silence frames.toNat) := by
      rw [step, hlen, Nat.mul_div_cancel_left _ (by decide)]
    have hcoded := length_code (frame lib) kPcmFrameLength kCodec2FrameLength frames.toNat q
      (silence frames.toNat) (Nat.le_of_eq hlen.symm) fun q b _ => length_frame lib q b
    rw [hstep, whiteLoop_eq]
    exact ⟨rfl, Codec2.answered_some _ _ _ rfl hcoded⟩

/-- One call encodes what is to be heard of it. -/
theorem call_heard (q : σ) (c : Codec2.Call) (h : c.Within kPcmFrameLength kCodec2FrameLength) :
    step (frame lib) kPcmFrameLength q (heard c) = ((call lib q c).1, (call lib q c).2.written) ∧
      Codec2.Answered kCodec2FrameLength (c.asked kPcmFrameLength kCodec2FrameLength)
        (call lib q c).2 := by
  cases c with
  | codec input length outputLength =>
      exact Codec2.codecFrames_taken (frame lib) kPcmFrameLength kCodec2FrameLength (by decide)
        (fun q b _ => length_frame lib q b) q input length outputLength h
  | getWhite length frames => exact getWhite_heard lib q length frames h

/-- What is heard has whole frames. -/
theorem dvd_heard (c : Codec2.Call) (h : c.Within kPcmFrameLength kCodec2FrameLength) :
    kPcmFrameLength ∣ (heard c).length := by
  cases c with
  | codec input length outputLength =>
      exact Codec2.dvd_taken kPcmFrameLength kCodec2FrameLength input length outputLength h.1
  | getWhite length frames =>
      change kPcmFrameLength ∣
        (if length < frames * kCodec2FrameLength then [] else silence frames.toNat).length
      split
      · exact Nat.dvd_zero _
      · exact Dvd.intro _ (length_silence frames.toNat).symm

/-- A run of any calls of an encoder, which may fail, encodes one stream: what is to be heard
    of the calls, one after the other. A call that fails writes nothing, and the others write
    the frames they are for. -/
theorem encodes_stream (q : σ) (calls : List Codec2.Call)
    (h : ∀ c ∈ calls, c.Within kPcmFrameLength kCodec2FrameLength) :
    step (frame lib) kPcmFrameLength q (calls.flatMap heard) =
        (Trace.run (fun q c => (call lib q c).1) q calls,
          (Trace.answers (call lib) q calls).flatMap Coded.written) ∧
      List.Forall₂ (fun c => Codec2.Answered kCodec2FrameLength
        (c.asked kPcmFrameLength kCodec2FrameLength)) calls (Trace.answers (call lib) q calls) := by
  induction calls generalizing q with
  | nil => exact ⟨step_nil _ _ q, .nil⟩
  | cons c calls ih =>
      have hc := h c List.mem_cons_self
      rcases call_heard lib q c hc with ⟨hcall, hanswered⟩
      rcases ih (call lib q c).1 fun d hd => h d (List.mem_cons_of_mem c hd) with ⟨hrest, hall⟩
      refine ⟨?_, .cons hanswered hall⟩
      rw [List.flatMap_cons, step_append _ _ (by decide) q _ _ (dvd_heard c hc), hcall, hrest]
      rfl

/-- A library that counts its frames and writes the number of each. -/
def counting : Codec2Lib Byte where
  codec2Encode q _ := (q + 1, q :: List.replicate 5 0)
  codec2Decode q bits := (q + 1, List.replicate 160 (bits.getD 0 0 ++ q))
  length_codec2Encode _ _ := rfl
  length_codec2Decode _ _ := List.length_replicate

/-- A frame, a call that fails, one of a negative length and a white frame. -/
theorem encodes_stream_three :
    let calls := [.codec (silence 1) 320 6, .codec [] (-7) 6, .codec [] (-320) 0, .getWhite 6 1]
    step (frame counting) kPcmFrameLength 0 (calls.flatMap heard) =
        (2, [0, 0, 0, 0, 0, 0, 1, 0, 0, 0, 0, 0]) ∧
      (Trace.answers (call counting) 0 calls).map Coded.ret = [6, -1, -6, 6] := by
  intro calls
  have hwithin : ∀ c ∈ calls, c.Within kPcmFrameLength kCodec2FrameLength := by
    intro c hc
    rcases List.mem_cons.mp hc with rfl | hc
    · exact ⟨Int.le_of_eq (congrArg Nat.cast (length_silence 1)).symm, by decide⟩
    · rcases List.mem_cons.mp hc with rfl | hc
      · exact ⟨Int.negSucc_le_zero _, by decide⟩
      · rcases List.mem_cons.mp hc with rfl | hc
        · exact ⟨Int.negSucc_le_zero _, by decide⟩
        · rw [List.mem_singleton.mp hc]
          change Fits _
          decide
  exact ⟨(encodes_stream counting 0 calls hwithin).1.trans (by decide +kernel), by decide +kernel⟩

end Codec2EnCoder

namespace Codec2DeCoder

variable (lib : Codec2Lib σ)

/-- What a decoder is to decode of a call. White frames are no packet. -/
def packet : Codec2.Call → List Byte
  | .codec input length outputLength =>
      Codec2.taken kCodec2FrameLength kPcmFrameLength input length outputLength
  | .getWhite _ _ => []

/-- What a decoder answers: for white frames zeros, as many as their size, and without room
    nothing, which is no error. -/
def Answered : Codec2.Call → Coded → Prop
  | .codec input length outputLength, a => Codec2.Answered kPcmFrameLength
      ((Codec2.Call.codec input length outputLength).asked kCodec2FrameLength kPcmFrameLength) a
  | .getWhite length frames, a =>
      if length < frames * kPcmFrameLength then a = { ret := 0, written := [] }
      else a = { ret := frames * kPcmFrameLength
                 written := List.replicate (toSize (frames * kPcmFrameLength)) 0 }

/-- Every frame has its size. -/
theorem length_frame (q : σ) (b : List Byte) : (frame lib q b).2.length = kPcmFrameLength := by
  unfold frame
  simp only []
  rw [length_flatMap_bytes16, lib.length_codec2Decode]
  rfl

/-- White frames are zeros. -/
theorem getWhite_answered (length frames : Int)
    (h : (Codec2.Call.getWhite length frames).Within kCodec2FrameLength kPcmFrameLength) :
    Answered (.getWhite length frames) (getWhite length frames) := by
  have hproduct : wrap (kPcmFrameLength * frames) = frames * kPcmFrameLength := by
    rw [Int.mul_comm]
    exact wrap_of_fits _ h
  unfold getWhite
  rw [hproduct, wrap_of_fits _ h]
  change if length < frames * kPcmFrameLength then _ else _
  by_cases hroom : length < frames * kPcmFrameLength
  · rw [if_pos hroom, if_pos hroom]
  · rw [if_neg hroom, if_neg hroom]

/-- One call decodes what is a packet of it. -/
theorem call_packet (q : σ) (c : Codec2.Call) (h : c.Within kCodec2FrameLength kPcmFrameLength) :
    step (frame lib) kCodec2FrameLength q (packet c) =
        ((call lib q c).1, c.decoded (call lib q c).2) ∧
      Answered c (call lib q c).2 ∧ kCodec2FrameLength ∣ (packet c).length := by
  cases c with
  | codec input length outputLength =>
      rcases Codec2.codecFrames_taken (frame lib) kCodec2FrameLength kPcmFrameLength (by decide)
        (fun q b _ => length_frame lib q b) q input length outputLength h with
        ⟨hcodec, hanswered⟩
      exact ⟨hcodec, hanswered,
        Codec2.dvd_taken kCodec2FrameLength kPcmFrameLength input length outputLength h.1⟩
  | getWhite length frames =>
      exact ⟨step_nil _ _ q, getWhite_answered length frames h, Nat.dvd_zero _⟩

/-- A run of any calls of a decoder, which may fail, decodes one stream: the packets of the
    calls, one after the other, as if there were no white frames in between. These are
    zeros. -/
theorem decodes_stream (q : σ) (calls : List Codec2.Call)
    (h : ∀ c ∈ calls, c.Within kCodec2FrameLength kPcmFrameLength) :
    step (frame lib) kCodec2FrameLength q (calls.flatMap packet) =
        (Trace.run (fun q c => (call lib q c).1) q calls,
          (List.zipWith Codec2.Call.decoded calls (Trace.answers (call lib) q calls)).flatten) ∧
      List.Forall₂ Answered calls (Trace.answers (call lib) q calls) := by
  induction calls generalizing q with
  | nil => exact ⟨step_nil _ _ q, .nil⟩
  | cons c calls ih =>
      rcases call_packet lib q c (h c List.mem_cons_self) with ⟨hcall, hanswered, hdvd⟩
      rcases ih (call lib q c).1 fun d hd => h d (List.mem_cons_of_mem c hd) with ⟨hrest, hall⟩
      refine ⟨?_, .cons hanswered hall⟩
      rw [List.flatMap_cons, step_append _ _ (by decide) q _ _ hdvd, hcall, hrest]
      rfl

/-- A packet, a white frame and a packet behind it. -/
theorem decodes_stream_three :
    let calls := [.codec [7, 0, 0, 0, 0, 0] 6 320, .getWhite 320 1, .codec [8, 0, 0, 0, 0, 0] 6 320]
    step (frame Codec2EnCoder.counting) kCodec2FrameLength 0 (calls.flatMap packet) =
        (2, (List.replicate 160 [0, 7]).flatten ++ (List.replicate 160 [1, 8]).flatten) ∧
      List.Forall₂ Answered calls (Trace.answers (call Codec2EnCoder.counting) 0 calls) := by
  intro calls
  have hwithin : ∀ c ∈ calls, c.Within kCodec2FrameLength kPcmFrameLength := by
    intro c hc
    rcases List.mem_cons.mp hc with rfl | hc
    · exact ⟨Int.le_refl _, by decide⟩
    · rcases List.mem_cons.mp hc with rfl | hc
      · change Fits _
        decide
      · rw [List.mem_singleton.mp hc]
        exact ⟨Int.le_refl _, by decide⟩
  have hstream := decodes_stream Codec2EnCoder.counting 0 calls hwithin
  exact ⟨hstream.1.trans (by decide +kernel), hstream.2⟩

end Codec2DeCoder

end CodecChanger
