import CodecChanger.Lib.Framing
import CodecChanger.Theory.AmrWb.White

/-!
# The AMR-WB Encoder Over a Run of Calls

Behind the encoder the codec library hears 16 kHz PCM, 320 samples at a time. Of a call these
are the samples that the rate converter makes of the input, and where it made fewer than the
encoder counts on, what the new array held behind them, up to the last whole frame.

Over a run of calls, some of which may fail, the library hears one stream: what it is to hear
of the calls, one after the other. The calls return the wire forms of the frames it makes of
that stream, whatever the inputs were cut into, and a call that fails returns nothing. A
failed call does not leave everything as it was, though: the converter has had its input.

## Main definitions

* `Call`, `Call.Does`: The calls of an encoder.
* `resample`: What the library is to hear of a call.
* `window`: A frame, as it goes over the wire.
* `Call.Roomy`: The output has room for the frames of the input.

## Theorems

* `gives_windows`: The loop encodes the windows of its buffer.
* `does_call`: What a call does.
* `encodes_windows`: A run of calls.
-/

namespace CodecChanger

open Bytes Loop Framing

namespace AmrWbEnCoder

variable {γ σ : Type*}

/-- A call of `Codec` on this input, with what the new array `buff` holds. -/
structure Call where
  data : List Byte
  outputLength : Int
  fresh : Nat → Sample

/-- What a call can do to an encoder, return and write. -/
def Call.Does (lib : EncodeLib γ σ) (q : AmrWbEnCoder γ σ) (c : Call) (q' : AmrWbEnCoder γ σ)
    (o : Coded) : Prop :=
  ∃ r, Codec lib c.fresh q c.data c.data.length c.outputLength r ∧
    q' = ⟨r.2.coderBase, r.2.converter, r.2.amrBuff⟩ ∧ o = { ret := r.1, written := r.2.written }

/-- How many frames the encoder counts on. -/
def Call.count (c : Call) : Nat := c.data.length / kAmrWbFrameSample

/-- The converter behind a call, and the samples that the library is to hear of it. -/
def resample (lib : EncodeLib γ σ) (converter : σ) (c : Call) : σ × List Sample :=
  if c.data = [] then (converter, [])
  else
    let (converter, out) := lib.convert converter (words16 c.data) ((c.data.length : Int) / 2)
      c.data.length
    (converter, if out.ret < 0 then []
      else (converted c.fresh c.data.length out.written).take (kAmrWbFrameSample * c.count))

/-- The library hears a window of samples, and the frame it makes goes over the wire. -/
def window (lib : EncodeLib γ σ) (coderBase : γ) (samples : List Sample) : γ × List Byte :=
  let (coderBase, frame) := lib.eIfEncode coderBase kAmrEncodeMode samples kAmrAllowDtx
  (coderBase, wireForm frame)

/-- The output has room for the frames, of which none takes more than 63 bytes. -/
def Call.Roomy (c : Call) : Prop := 63 * (c.count : Int) ≤ c.outputLength

/-- A call that does not fail returns the length of what it writes. -/
def Answered (o : Coded) : Prop := o = { ret := -1, written := [] } ∨ o.ret = o.written.length

variable (lib : EncodeLib γ σ)

/-- The loop encodes the windows of its buffer, as many as it counts on. -/
theorem gives_windows (hlib : FramesBounded lib) (buff : List Sample) (k : Nat) (s : Locals γ σ)
    (hlow : (kAmrWbFrameSample * k : Int) ≤ s.lastFrames)
    (hhigh : s.lastFrames < kAmrWbFrameSample * (k + 1)) (hroom : 63 * (k : Int) ≤ s.outputLength) :
    ∃ u, Gives (body lib buff) s (u.totalSize, u) ∧ u.converter = s.converter ∧
      let coded := code (window lib) kAmrWbFrameSample k s.coderBase (buff.drop s.inFrame)
      u.coderBase = coded.1 ∧ u.written = s.written ++ coded.2 ∧
        u.totalSize = s.totalSize + coded.2.length := by
  induction k generalizing s with
  | zero =>
      refine ⟨s, (gives_leave _ _ _ (body_done lib buff s (by omega))).mpr rfl, rfl, rfl, ?_, ?_⟩
      · exact (List.append_nil _).symm
      · exact (Int.add_zero _).symm
  | succ k ih =>
      unfold kAmrWbFrameSample at hlow hhigh
      have hframe : s.lastFrames ≥ kAmrWbFrameSample := by
        unfold kAmrWbFrameSample
        push_cast at hlow
        omega
      have hbounds := hlib s.coderBase kAmrEncodeMode ((buff.drop s.inFrame).take kAmrWbFrameSample)
        kAmrAllowDtx
      have hencoded : (encodeFrame lib buff s).2 = (lib.eIfEncode s.coderBase kAmrEncodeMode
          ((buff.drop s.inFrame).take kAmrWbFrameSample) kAmrAllowDtx).2 := rfl
      rw [← hencoded] at hbounds
      have hne : (encodeFrame lib buff s).2 ≠ [] := List.length_pos_iff.mp (by omega)
      have hsize := length_wireForm (encodeFrame lib buff s).2 hne (by omega)
      have hmost : (wireForm (encodeFrame lib buff s).2).length ≤ 63 := by
        rw [hsize]
        split
        · omega
        · omega
      have hagain := body_wire lib buff s hframe hne (by omega)
      rw [if_neg (by push_cast at hroom; omega)] at hagain
      have hwindow : window lib s.coderBase ((buff.drop s.inFrame).take kAmrWbFrameSample) =
          ((encodeFrame lib buff s).1.coderBase, wireForm (encodeFrame lib buff s).2) := rfl
      generalize hnext : copyFrame (encodeFrame lib buff s).1
        (wireForm (encodeFrame lib buff s).2) (wireForm (encodeFrame lib buff s).2).length = t
        at hagain
      have hkept : t.converter = s.converter ∧ t.coderBase = (encodeFrame lib buff s).1.coderBase ∧
          t.inFrame = s.inFrame + kAmrWbFrameSample ∧
          t.lastFrames = s.lastFrames - kAmrWbFrameSample ∧
          t.outputLength = s.outputLength - (wireForm (encodeFrame lib buff s).2).length ∧
          t.totalSize = s.totalSize + (wireForm (encodeFrame lib buff s).2).length ∧
          t.written = s.written ++ wireForm (encodeFrame lib buff s).2 := by
        rw [← hnext]
        exact ⟨rfl, rfl, rfl, rfl, rfl, rfl, by rw [copyFrame, List.take_length]; rfl⟩
      rcases hkept with ⟨hconv, hbase, hin, hlast, hout, htotal, hwritten⟩
      unfold kAmrWbFrameSample at hlast
      push_cast at hlow hhigh hlast hroom
      rcases ih t (by unfold kAmrWbFrameSample; push_cast; omega)
        (by unfold kAmrWbFrameSample; push_cast; omega) (by omega) with
        ⟨u, hgives, hconv', hbase', hwritten', htotal'⟩
      refine ⟨u, (gives_again _ _ _ hagain).mpr hgives, hconv'.trans hconv, ?_⟩
      simp only []
      rw [code_succ, hwindow, List.drop_drop, hbase', hwritten', htotal', hbase, hin, hwritten,
        htotal, List.append_assoc, List.length_append]
      refine ⟨rfl, rfl, ?_⟩
      push_cast
      omega

/-- The buffer holds the samples that the encoder counts on. -/
theorem length_converted (c : Call) (written : List Sample) :
    kAmrWbFrameSample * c.count ≤ (converted c.fresh c.data.length written).length := by
  have hcount : kAmrWbFrameSample * c.count ≤ c.data.length := Nat.mul_div_le _ _
  unfold converted
  rw [List.length_append, List.length_drop, List.length_map, List.length_range]
  omega

/-- What the library is to hear of a call has whole windows. -/
theorem dvd_resample (converter : σ) (c : Call) :
    kAmrWbFrameSample ∣ (resample lib converter c).2.length := by
  unfold resample
  split
  · exact Nat.dvd_zero _
  · simp only []
    split
    · exact Nat.dvd_zero _
    · rw [List.length_take_of_le (length_converted c _)]
      exact Nat.dvd_mul_right _ _

/-- What a call does: it ends in one way, the converter has its input, and the library hears
    what it is to hear of it. -/
theorem does_call (hlib : FramesBounded lib) (q : AmrWbEnCoder γ σ) (c : Call) (hc : c.Roomy) :
    ∃ q' o, (∀ u p, c.Does lib q u p ↔ u = q' ∧ p = o) ∧
      q'.converter = (resample lib q.converter c).1 ∧
      step (window lib) kAmrWbFrameSample q.coderBase (resample lib q.converter c).2 =
        (q'.coderBase, o.written) ∧ Answered o := by
  by_cases hnil : c.data = []
  · -- There is no input, and nothing is called.
    have hlen : (c.data.length : Int) ≤ 0 := by
      rw [hnil]
      decide
    refine ⟨q, { ret := -1, written := [] }, fun u p => ?_, ?_, ?_, Or.inl rfl⟩
    · unfold Call.Does Codec
      simp only [if_pos hlen, exists_eq_left]
      exact Iff.rfl
    · rw [resample, if_pos hnil]
    · rw [resample, if_pos hnil]
      exact step_nil _ _ _
  · have hpos : 0 < c.data.length := List.length_pos_iff.mpr hnil
    have hlen : ¬ (c.data.length : Int) ≤ 0 := by omega
    generalize hout : lib.convert q.converter (words16 c.data) ((c.data.length : Int) / 2)
      c.data.length = out
    unfold Call.Does Codec resample
    simp only [if_neg hlen, if_neg hnil, hout]
    by_cases hret : out.2.ret < 0
    · simp only [if_pos hret, exists_eq_left]
      exact ⟨_, _, fun u p => Iff.rfl, rfl, step_nil _ _ _, Or.inl rfl⟩
    · simp only [if_neg hret, Int.toNat_natCast]
      have hcount := Nat.mul_div_le c.data.length kAmrWbFrameSample
      have hlt := Nat.lt_mul_div_succ c.data.length (show 0 < kAmrWbFrameSample by decide)
      change kAmrWbFrameSample * c.count ≤ _ at hcount
      have hlt' : (c.data.length : Int) < kAmrWbFrameSample * ((c.count : Int) + 1) := by
        exact_mod_cast hlt
      rcases gives_windows lib hlib (converted c.fresh c.data.length out.2.written) c.count
        (enter q out.1 c.data.length c.outputLength) (by change (_ : Int) ≤ c.data.length; omega)
        hlt' hc with
        ⟨u, hgives, hconverter, hbase, hwritten, htotal⟩
      have hstep := step_take (window lib) kAmrWbFrameSample (by decide) c.count q.coderBase
        (converted c.fresh c.data.length out.2.written) (length_converted c _)
      refine ⟨⟨u.coderBase, u.converter, u.amrBuff⟩, { ret := u.totalSize, written := u.written },
        fun v p => ?_, hconverter, ?_, ?_⟩
      · constructor
        · rintro ⟨r, hr, hv, hp⟩
          rw [gives_unique _ r _ hr hgives] at hv hp
          exact ⟨hv, hp⟩
        · rintro ⟨hv, hp⟩
          exact ⟨_, hgives, hv, hp⟩
      · rw [hstep, hbase, hwritten]
        rfl
      · refine Or.inr ?_
        simp only []
        rw [hwritten, htotal]
        exact Int.zero_add _

/-- A run of calls of an encoder that have room for what they make. It ends, in one way only.
    Whatever the inputs, the library hears one stream, and the calls return the wire forms of
    the frames that it makes of this stream. -/
theorem encodes_windows (hlib : FramesBounded lib) (calls : List Call)
    (hcalls : ∀ c ∈ calls, c.Roomy) (q : AmrWbEnCoder γ σ) :
    let stream := (Trace.answers (resample lib) q.converter calls).flatten
    ∃ u os, (∀ u' os', Trace.Runs (fun q c => Call.Does lib q c) q calls u' os' ↔
        u' = u ∧ os' = os) ∧
      u.converter = Trace.run (fun s c => (resample lib s c).1) q.converter calls ∧
      step (window lib) kAmrWbFrameSample q.coderBase stream =
        (u.coderBase, os.flatMap Coded.written) ∧ ∀ o ∈ os, Answered o := by
  induction calls generalizing q with
  | nil =>
      exact ⟨q, [], Trace.runs_nil_iff _ q, rfl, step_nil _ _ _,
        fun o ho => absurd ho List.not_mem_nil⟩
  | cons c calls ih =>
      rcases does_call lib hlib q c (hcalls c List.mem_cons_self) with
        ⟨q', o, hdoes, hconverter, hheard, hanswered⟩
      rcases ih (fun d hd => hcalls d (List.mem_cons_of_mem c hd)) q' with
        ⟨u, os, hruns, hrest, hstream, hall⟩
      refine ⟨u, o :: os, Trace.runs_cons_iff _ q q' u c o calls os hdoes hruns, ?_, ?_,
        fun p hp => ?_⟩
      · rw [hrest, hconverter]
        rfl
      · rw [hconverter] at hstream
        simp only [Trace.answers, List.flatten_cons, List.flatMap_cons]
        rw [step_append _ _ (by decide) _ _ _ (dvd_resample lib q.converter c), hheard, hstream]
      · rcases List.mem_cons.mp hp with rfl | hp
        · exact hanswered
        · exact hall p hp

/-- A library that makes a frame of one byte of the first sample and of how many frames there
    were before, and a converter that fails when it is called for the second time. -/
def ordinal : EncodeLib Byte Nat where
  eIfEncode k _ samples _ := (k + 1, [byte (samples.getD 0 0) 0 + k])
  convert n l _ _ := (n + 1, if n = 1 then { ret := -1, written := [] }
    else { ret := 2 * l.length, written := l.flatMap fun w => [w, w] })

/-- A frame of input, another one for which the converter fails, no input, and two frames. -/
theorem encodes_windows_four :
    let call (n : Nat) (b : Byte) : Call := ⟨List.replicate n b, 126, fun _ => 0⟩
    let calls := [call 320 16, call 320 16, call 0 16, call 640 32]
    ∃ u os, Trace.Runs (fun q c => Call.Does ordinal q c) ⟨0, 0, []⟩ calls u os ∧
      u.coderBase = 3 ∧ u.converter = 3 ∧
      os.flatMap Coded.written = wireForm [16] ++ wireForm [33] ++ wireForm [34] := by
  intro call calls
  have hcall : ∀ n b, n ≤ 640 → (call n b).Roomy := by
    intro n b hn
    change 63 * (((List.replicate n b).length / 320 : Nat) : Int) ≤ 126
    rw [List.length_replicate]
    omega
  have hroomy : ∀ c ∈ calls, c.Roomy := by
    intro c hc
    simp only [calls, List.mem_cons, List.not_mem_nil, or_false] at hc
    rcases hc with rfl | rfl | rfl | rfl
    · exact hcall _ _ (by decide)
    · exact hcall _ _ (by decide)
    · exact hcall _ _ (by decide)
    · exact hcall _ _ (by decide)
  have hlib : FramesBounded ordinal := fun _ _ _ _ => ⟨Nat.le_refl 1, show 1 ≤ 61 by decide⟩
  rcases encodes_windows ordinal hlib calls hroomy ⟨0, 0, []⟩ with
    ⟨u, os, hruns, hconverter, hstream, -⟩
  rcases Prod.mk.inj hstream with ⟨hbase, hwritten⟩
  refine ⟨u, os, (hruns u os).mpr ⟨rfl, rfl⟩, ?_, hconverter.trans (by decide +kernel), ?_⟩
  · rw [← hbase]
    decide +kernel
  · rw [← hwritten]
    decide +kernel

end AmrWbEnCoder

end CodecChanger
