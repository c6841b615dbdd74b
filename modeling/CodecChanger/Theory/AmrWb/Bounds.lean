import CodecChanger.Theory.AmrWb.Termination

/-!
# The Output of the AMR-WB Decoder

Where the decoder writes when it is given whole frames. Each frame is converted
with `output_length >> 1` as the room left, whatever has been written already:
`output` moves on, `output_length` stays. The encoder, a few lines up, lowers
both.

The first frame therefore fits, and the second may end up to `output_length`
bytes behind the end of the buffer. How far it goes depends on the converter,
so the question is put for all converters that keep to their contract: they
write at most as many samples as they may and return how many. Asked so, the
answer depends on the number of frames alone.

## Main definitions

* `WholeFrame`: A frame of the size its first byte says.
* `Keeps`: The converter keeps its contract.
* `Within`: A write lies inside the output.
* `Safe`: The call returns, and every write and the return value are in bounds.
* `Before`: The decoder stands before a list of whole frames.

## Theorems

* `keeps_halving`: The rate converter of the source keeps the contract.
* `before_decodeFrame`: Decoding a whole frame leaves the rest.
* `safe_of_empty`, `safe_of_full`, `safe_of_single`: The inputs that are safe.
* `not_safe_of_second`: Two frames and a converter that fills its room.
* `safe_iff`: The exact condition for all writes to be in bounds.
-/

namespace CodecChanger

open Bytes Loop

namespace AmrWbDeCoder

variable {γ σ : Type*}

/-- A frame that starts with a byte whose block size is its length. -/
def WholeFrame (f : List Byte) : Prop := f ≠ [] ∧ f.length = blockSize (f.getD 0 0)

instance (f : List Byte) : Decidable (WholeFrame f) := inferInstanceAs (Decidable (_ ∧ _))

/-- The converter keeps its contract in every call that the decoder makes: on a
    frame of its own, with room for one of 8 kHz. -/
def Keeps (lib : DecodeLib γ σ) : Prop :=
  ∀ s l (max : Int), kPcmFrameSample ≤ max →
    (lib.convert s l kAmrWbFrameSample max).2.Bounded max

/-- The write lies inside the first `outputLength` bytes of the output. -/
def Within (outputLength : Int) (w : Write) : Prop :=
  0 ≤ w.start ∧ w.start + w.size ≤ outputLength

/-- The call on these bytes ends, writes only inside the output, and returns at
    most its length when it returns no error. -/
def Safe (lib : DecodeLib γ σ) (q : AmrWbDeCoder γ σ) (data : List Byte) (outputLength : Int) :
    Prop :=
  ∃ r, Codec lib q data data.length outputLength r ∧ (∀ w ∈ r.2.writes, Within outputLength w) ∧
    (0 ≤ r.1 → r.1 ≤ outputLength)

/-- The bytes from `input` on are these frames, and the decoder knows how many. -/
def Before (data : List Byte) (s : Locals γ σ) (frames : List (List Byte)) : Prop :=
  data.drop s.input = frames.flatten ∧ s.remainLength = frames.flatten.length

/-- The decoder's own converter keeps the contract, as long as `src_process`
    reports no error and makes at most a frame of 8 kHz of one of 16 kHz. -/
theorem keeps_halving {π φ : Type*} [Inhabited φ] (lib : SampleRate π φ)
    (dIfDecode : γ → List Byte → Int → γ × List Sample)
    (hproc : ∀ p (d : SrcData φ), d.inputFrames = kAmrWbFrameSample →
      (lib.srcProcess p d).2.1 = false ∧
        (lib.srcProcess p d).2.2.outputFramesGen ≤ kPcmFrameSample) :
    Keeps ⟨dIfDecode, RateConverter.halving lib⟩ := by
  intro q l max hmax
  have hret : 0 ≤ (RateConverter.convert lib false q.1 l kAmrWbFrameSample max).2.ret := by
    refine RateConverter.convert_ret_nonneg lib false q.1 l kAmrWbFrameSample max (by decide)
      (by rw [q.2]; decide) fun d hd => ?_
    rcases hproc q.1.pState d hd with ⟨herror, hgen⟩
    exact ⟨herror, by omega⟩
  rcases RateConverter.convert_spec lib false q.1 l kAmrWbFrameSample max with hfail | hbounded
  · -- A call that fails returns `-1`.
    rw [hfail] at hret
    exact absurd hret (by decide)
  · exact hbounded

variable (lib : DecodeLib γ σ) (q : AmrWbDeCoder γ σ) (data : List Byte) (outputLength : Int)
  (s : Locals γ σ) (f : List Byte) (fs : List (List Byte))

theorem before_enter (frames : List (List Byte)) :
    Before frames.flatten (enter q frames.flatten.length) frames := ⟨rfl, rfl⟩

/-- The frame ahead is whole, and the decoder sees its size. -/
theorem before_whole (hb : Before data s (f :: fs)) (hf : WholeFrame f) :
    s.remainLength > 0 ∧ ¬ s.remainLength < blockSize (data.getD s.input 0) ∧
      blockSize (data.getD s.input 0) = f.length := by
  rcases hb with ⟨hdrop, hlen⟩
  have hpos : 0 < f.length := List.length_pos_iff.mpr hf.1
  have hhead : data.getD s.input 0 = f.getD 0 0 := by
    rw [List.getD_eq_getElem?_getD, List.getD_eq_getElem?_getD]
    have h0 : (data.drop s.input)[0]? = f[0]? := by
      rw [hdrop, List.flatten_cons, List.getElem?_append_left hpos]
    rw [List.getElem?_drop, Nat.add_zero] at h0
    rw [h0]
  rw [hhead, ← hf.2, hlen, List.flatten_cons, List.length_append]
  refine ⟨by omega, by omega, rfl⟩

/-- Decoding a whole frame leaves the frames behind it. -/
theorem before_decodeFrame (hb : Before data s (f :: fs)) (hf : WholeFrame f) :
    Before data (decodeFrame lib data s).1 fs := by
  have hsize := (before_whole data s f fs hb hf).2.2
  unfold Before
  rw [decodeFrame_input, decodeFrame_remainLength, hsize, ← List.drop_drop, hb.1, hb.2,
    List.flatten_cons, List.drop_left, List.length_append]
  exact ⟨rfl, by omega⟩

/-- A whole frame gets an iteration of its own when the output takes a frame. -/
theorem before_again (hb : Before data s (f :: fs)) (hf : WholeFrame f)
    (ho : ¬ outputLength < kPcmFrameLength) :
    body lib data outputLength s =
        .again (convertFrame lib outputLength (decodeFrame lib data s).1
          (decodeFrame lib data s).2) ∧
      Before data (convertFrame lib outputLength (decodeFrame lib data s).1
        (decodeFrame lib data s).2) fs := by
  rcases before_whole data s f fs hb hf with ⟨hr, hs, -⟩
  exact ⟨body_frame lib data outputLength s hr hs ho, before_decodeFrame lib data s f fs hb hf⟩

/-- Behind the last frame the loop ends. -/
theorem before_nil (hb : Before data s []) :
    body lib data outputLength s = .leave (s.outputSize, s) := by
  refine body_done lib data outputLength s ?_
  rw [hb.2, List.flatten_nil]
  decide

theorem codec_iff (frames : List (List Byte)) (r : Int × Locals γ σ) :
    Codec lib q frames.flatten frames.flatten.length outputLength r ↔
      Gives (body lib frames.flatten outputLength) (enter q frames.flatten.length) r := by
  unfold Codec
  rw [if_neg (by omega)]

/-- Nothing to decode, nothing written. -/
theorem safe_of_empty (ho : 0 ≤ outputLength) : Safe lib q ([] : List (List Byte)).flatten
    outputLength := by
  have hb := before_nil lib [] outputLength (enter q 0) (before_enter q [])
  refine ⟨(0, enter q 0), ?_, fun w hw => absurd hw List.not_mem_nil, fun _ => ho⟩
  exact (codec_iff lib q outputLength [] _).mpr ((gives_leave _ _ _ hb).mpr rfl)

/-- No room for a frame: the first one ends the call. -/
theorem safe_of_full (hf : WholeFrame f) (ho : outputLength < kPcmFrameLength) :
    Safe lib q (f :: fs).flatten outputLength := by
  have hb := before_enter q (f :: fs)
  rcases before_whole _ _ f fs hb hf with ⟨hr, hs, -⟩
  have hbody := body_full lib (f :: fs).flatten outputLength _ hr hs ho
  refine ⟨_, (codec_iff lib q outputLength (f :: fs) _).mpr ((gives_leave _ _ _ hbody).mpr rfl),
    ?_, ?_⟩
  · intro w hw
    exact absurd hw List.not_mem_nil
  · intro hc
    simp only [] at hc
    omega

/-- One frame, and room for it. -/
theorem safe_of_single (hlib : Keeps lib) (hf : WholeFrame f)
    (ho : ¬ outputLength < kPcmFrameLength) : Safe lib q [f].flatten outputLength := by
  have hb := before_enter q [f]
  rcases before_again lib _ outputLength _ f [] hb hf ho with ⟨hbody, hrest⟩
  generalize hs : decodeFrame lib [f].flatten (enter q [f].flatten.length) = s at hbody hrest
  have hend := before_nil lib _ outputLength _ hrest
  -- The only write is that of the one conversion, from the start of the output.
  have hmax : kPcmFrameSample ≤ outputLength / 2 := by
    unfold kPcmFrameLength at ho
    unfold kPcmFrameSample
    omega
  have hc := hlib s.1.converter s.2 (outputLength / 2) hmax
  generalize hcv : (lib.convert s.1.converter s.2 kAmrWbFrameSample (outputLength / 2)).2 = c
    at hc
  rcases convertFrame_of_bounded lib outputLength s.1 s.2 c hcv hc with ⟨hw, -, hsize⟩
  have hw0 : s.1.writes = [] := by rw [← hs, decodeFrame_writes, enter]
  have ho0 : s.1.output = 0 := by rw [← hs, decodeFrame_output, enter]
  have hs0 : s.1.outputSize = 0 := by rw [← hs, decodeFrame_outputSize, enter]
  rcases hc with ⟨hret, hle⟩
  refine ⟨_, (codec_iff lib q outputLength [f] _).mpr ((gives_again _ _ _ hbody).mpr
    ((gives_leave _ _ _ hend).mpr rfl)), ?_, ?_⟩
  · intro w hwm
    rw [hw, hw0, List.nil_append, List.mem_singleton] at hwm
    rw [hwm, ho0]
    simp only [Within, Write.start, Write.size]
    omega
  · intro _
    simp only []
    rw [hsize, hs0]
    omega

/-- A converter that fills the room it is given. -/
def filling : DecodeLib Unit Unit where
  dIfDecode _ _ _ := ((), List.replicate 320 0)
  convert _ _ _ max := ((), { ret := max.toNat, written := List.replicate max.toNat 0 })

theorem keeps_filling : Keeps filling := by
  intro s l max hmax
  simp only [filling, Converted.Bounded, List.length_replicate, true_and]
  omega

/-- A write out of bounds stays in the log to the end. -/
theorem not_safe_of_visits (t : Locals γ σ) (w : Write)
    (ht : Visits (body lib data outputLength) (enter q data.length) t) (hw : w ∈ t.writes)
    (hout : ¬ Within outputLength w) : ¬ Safe lib q data outputLength := by
  rintro ⟨r, hr, hall, -⟩
  rw [Codec, if_neg (by omega)] at hr
  refine hout (hall w ?_)
  have hkeep : ∀ u v, w ∈ u.writes → body lib data outputLength u = .again v →
      w ∈ v.writes := by
    intro u v hu hb
    rcases body_again lib data outputLength u v hb with ⟨-, -, -, rfl⟩
    exact mem_convertFrame lib outputLength _ _ w hu
  have hleave : ∀ u r, w ∈ u.writes → body lib data outputLength u = .leave r →
      w ∈ r.2.writes := by
    intro u r hu hb
    rcases body_leave lib data outputLength u r hb with rfl | rfl
    · exact hu
    · exact hu
  exact gives_invariant (fun u => w ∈ u.writes) (fun r => w ∈ r.2.writes) hkeep hleave t r hw
    ((gives_visits _ t r ht).mp hr)

/-- Of two frames, the second is written behind the end of the output when the
    converter fills its room. -/
theorem not_safe_of_second (g : List Byte) (hf : WholeFrame f) (hg : WholeFrame g)
    (ho : ¬ outputLength < kPcmFrameLength) :
    ¬ Safe filling ⟨(), ()⟩ (f :: g :: fs).flatten outputLength := by
  have hmax : kPcmFrameSample ≤ outputLength / 2 ∧ outputLength < 4 * (outputLength / 2) := by
    unfold kPcmFrameLength at ho
    unfold kPcmFrameSample
    omega
  have hb := before_enter (⟨(), ()⟩ : AmrWbDeCoder Unit Unit) (f :: g :: fs)
  rcases before_again filling _ outputLength _ f (g :: fs) hb hf ho with ⟨hbody, hb1⟩
  rcases before_again filling _ outputLength _ g fs hb1 hg ho with ⟨hbody1, -⟩
  -- The first conversion moves the output by all the room there is.
  refine not_safe_of_visits filling ⟨(), ()⟩ _ outputLength _
    (.samples (2 * (outputLength / 2).toNat) (List.replicate (outputLength / 2).toNat 0))
    (.again _ _ (.again _ _ .start hbody) hbody1) ?_ ?_
  · rw [(convertFrame_of_bounded filling outputLength _ _ _ rfl
      (keeps_filling _ _ _ hmax.1)).1, decodeFrame_output,
      (convertFrame_of_bounded filling outputLength _ _ _ rfl (keeps_filling _ _ _ hmax.1)).2.1,
      decodeFrame_output]
    simp only [filling, enter, zero_add, List.mem_append, List.mem_singleton, or_true]
  · unfold Within Write.start Write.size
    simp only [List.length_replicate]
    omega

/-- On whole frames, every converter that keeps its contract leaves the decoder
    inside the output exactly when there is at most one frame, or no room even
    for one. With no frame at all the return value is zero, and that is at most
    `output_length` unless the latter is negative. -/
theorem safe_iff (frames : List (List Byte)) (outputLength : Int)
    (hframes : ∀ f ∈ frames, WholeFrame f) :
    (∀ (γ σ : Type) (lib : DecodeLib γ σ) (q : AmrWbDeCoder γ σ), Keeps lib →
        Safe lib q frames.flatten outputLength) ↔
      if frames = [] then 0 ≤ outputLength
      else outputLength < kPcmFrameLength ∨ frames.length = 1 := by
  match frames with
  | [] =>
      rw [if_pos rfl]
      constructor
      · intro h
        rcases h Unit Unit filling ⟨(), ()⟩ keeps_filling with ⟨r, hr, -, hret⟩
        have hb := before_nil filling [] outputLength (enter ⟨(), ()⟩ 0) (before_enter _ [])
        rw [codec_iff filling ⟨(), ()⟩ outputLength [] r] at hr
        rw [(gives_leave _ r _ hb).mp hr] at hret
        exact hret (le_refl 0)
      · intro ho γ σ lib q _
        exact safe_of_empty lib q outputLength ho
  | [f] =>
      rw [if_neg (by simp only [reduceCtorEq, not_false_eq_true])]
      refine iff_of_true (fun γ σ lib q hlib => ?_) (Or.inr rfl)
      by_cases ho : outputLength < kPcmFrameLength
      · exact safe_of_full lib q outputLength f [] (hframes f List.mem_cons_self) ho
      · exact safe_of_single lib q outputLength f hlib (hframes f List.mem_cons_self) ho
  | f :: g :: fs =>
      have hf := hframes f List.mem_cons_self
      have hg := hframes g (List.mem_cons_of_mem f List.mem_cons_self)
      rw [if_neg (by simp only [reduceCtorEq, not_false_eq_true])]
      simp only [List.length_cons, Nat.add_eq_right, Nat.add_eq_zero_iff, Nat.one_ne_zero,
        and_false, or_false]
      constructor
      · intro h
        by_contra ho
        exact not_safe_of_second outputLength f fs g hf hg ho
          (h Unit Unit filling ⟨(), ()⟩ keeps_filling)
      · intro ho γ σ lib q _
        exact safe_of_full lib q outputLength f (g :: fs) hf ho

/-- One no-data frame stays inside the buffer of `UploadSession::Send`, even when
    the converter fills its room. -/
theorem safe_iff_single : Safe filling ⟨(), ()⟩ [0x7c] 2048 :=
  (safe_iff [[0x7c]] 2048 (by decide)).mpr (by decide) Unit Unit filling ⟨(), ()⟩ keeps_filling

/-- Seven no-data frames of 160 samples each do not fit the 2048 bytes that
    `UploadSession::Send` has for them. -/
theorem safe_fails : Keeps quiet ∧ ¬ Safe quiet ⟨(), ()⟩ (List.replicate 7 0x7c) 2048 := by
  constructor
  · intro s l max hmax
    simp only [quiet, Converted.Bounded, List.length_replicate]
    omega
  · rintro ⟨r, hr, -, hret⟩
    have hrun : (run (body quiet (List.replicate 7 0x7c) 2048) 8
        (enter ⟨(), ()⟩ 7)).map Prod.fst = some 2240 := by decide +kernel
    rcases Option.map_eq_some_iff.mp hrun with ⟨r', hr', hfst⟩
    rw [gives_unique _ r r' hr ⟨8, hr'⟩, hfst] at hret
    exact absurd (hret (by decide)) (by decide)

end AmrWbDeCoder

end CodecChanger
