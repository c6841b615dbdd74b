import CodecChanger.Core.White
import CodecChanger.Lib.Trace
import CodecChanger.Theory.AmrWb.Bounds

/-!
# The AMR-WB Decoder Over a Run of Calls

What a session gets of a decoder is what the calls for its datagrams return, but what is in a
datagram is frames, and the codec library and the rate converter behind the decoder only ever
see these. A run of calls feeds them one stream: the whole frames of the datagrams, one after
the other, and in between a report for every call of `GetWhite` that asks for frames there is
room for. How the frames were spread over datagrams does not matter, nor does what is left at
the end of a datagram and is no frame.

A call with no room for a frame of PCM still feeds its first frame, and the PCM of that is
lost; the frames behind it are lost as well.

## Main definitions

* `frames`: The whole frames at the start of a datagram.
* `Fed`, `feed`: What the codec library is given, and what comes of it.
* `Call`, `Call.Does`: The calls of a decoder.
* `Call.fed`: What the library is given in a call.
* `laid`: Writes one behind the other.
* `Call.Answered`: What a call returns and writes.
* `Call.Served`: What is to be shown of a call.

## Theorems

* `cut_spec`: A datagram of sized frames falls into whole frames and a rest.
* `gives_frames`: The loop feeds the frames it stands before.
* `served_call`: What a call does.
* `decodes_datagrams`: A run of calls.
-/

namespace CodecChanger

open Bytes Loop MachineInt

namespace AmrWbDeCoder

variable {γ σ : Type*}

/-- The whole frames at the start of some bytes, up to so many. -/
def cut : Nat → List Byte → List (List Byte)
  | 0, _ => []
  | fuel + 1, data =>
      let n := blockSize (data.getD 0 0)
      if data = [] ∨ n = 0 ∨ data.length < n then [] else data.take n :: cut fuel (data.drop n)

/-- The whole frames at the start of a datagram. -/
def frames (data : List Byte) : List (List Byte) := cut data.length data

/-- What `D_IF_decode` is given, and the room for what comes of it if that is converted. -/
structure Fed where
  bits : List Byte
  bfi : Int
  room : Option Int

/-- The decoder behind that, and the samples that the converter makes. -/
def feed (lib : DecodeLib γ σ) (q : AmrWbDeCoder γ σ) (e : Fed) :
    AmrWbDeCoder γ σ × List Sample :=
  let (coderBase, decoded) := lib.dIfDecode q.coderBase e.bits e.bfi
  match e.room with
  | none => ({ q with coderBase := coderBase }, [])
  | some room =>
      let speech := if frameMode (e.bits.getD 0 0) > 8 then List.replicate 320 0 else decoded
      let (converter, c) := lib.convert q.converter speech kAmrWbFrameSample room
      ({ coderBase := coderBase, converter := converter }, c.written)

/-- `D_IF_decode` does not look behind the frame it is given. -/
def ReadsFrame (lib : DecodeLib γ σ) : Prop :=
  ∀ g f rest bfi, WholeFrame f → lib.dIfDecode g (f ++ rest) bfi = lib.dIfDecode g f bfi

/-- The calls of a decoder: a datagram, or white frames. -/
inductive Call where
  | codec (data : List Byte) (outputLength : Int)
  | getWhite (length frames : Int)

/-- What a call can do to a decoder and its member `amr_buff_`, return and write. -/
def Call.Does (lib : DecodeLib γ σ) (t : AmrWbDeCoder γ σ × List Byte) :
    Call → AmrWbDeCoder γ σ × List Byte → Int × List Write → Prop
  | .codec data outputLength, t', o => ∃ r, Codec lib t.1 data data.length outputLength r ∧
      t' = (⟨r.2.coderBase, r.2.converter⟩, t.2) ∧ o = (r.1, r.2.writes)
  | .getWhite length frames, t', o =>
      let white := AmrWbDeCoder.getWhite lib t.1 t.2 length frames
      t' = (white.1, white.2.1) ∧ o = white.2.2

/-- The frames of a datagram have a size, all that the decoder gets to. -/
def Call.Ends : Call → Prop
  | .codec data _ => Sized data data.length
  | .getWhite _ _ => True

/-- Frames of a datagram, as the library is given them when there is room for PCM. -/
def fedFrames (outputLength : Int) (fs : List (List Byte)) : List Fed :=
  fs.map fun f => { bits := f, bfi := kAmrGoodFrame, room := some (outputLength / 2) }

/-- What the library is given in a call, with this behind the first bytes of `amr_buff_`. -/
def Call.fed (behind : List Byte) : Call → List Fed
  | .codec data outputLength =>
      if outputLength < kPcmFrameLength then
        ((frames data).take 1).map fun f => { bits := f, bfi := kAmrGoodFrame, room := none }
      else fedFrames outputLength (frames data)
  | .getWhite length frames =>
      if frames ≤ 0 ∨ length < wrap (frames * kPcmFrameLength) then []
      else [{ bits := List.replicate 64 0 ++ behind, bfi := kAmrLostFrame, room := none }]

/-- Some writes of the converter, one behind the other. -/
def laid : Int → List (List Sample) → List Write
  | _, [] => []
  | start, l :: ls => .samples start l :: laid (start + 2 * l.length) ls

/-- The samples of a write. -/
def pcmOf : Write → List Sample
  | .samples _ l => l
  | .zeros _ _ => []

/-- The PCM that a call for a datagram has written. -/
def Call.pcm : Call → Int × List Write → List Sample
  | .codec _ _, o => o.2.flatMap pcmOf
  | .getWhite _ _, _ => []

/-- A call for a datagram writes its PCM from the start of the output on, without gaps, and
    returns the length of it. With no room for a frame it writes nothing. -/
def Call.Answered : Call → Int × List Write → Prop
  | .codec data outputLength, o =>
      if outputLength < kPcmFrameLength then o = (if frames data = [] then 0 else -1, [])
      else ∃ pcm, o = (2 * (pcm.flatten.length : Int), laid 0 pcm)
  | .getWhite length frames, o =>
      o.1 = if frames ≤ 0 then 0 else if length < wrap (frames * kPcmFrameLength) then -1
        else wrap (frames * kPcmFrameLength)

/-- A datagram of sized frames falls into whole frames and a rest that is none. -/
theorem cut_spec (fuel : Nat) (data : List Byte) (hfuel : data.length ≤ fuel)
    (hs : Sized data data.length) :
    (∀ f ∈ cut fuel data, WholeFrame f) ∧ ∃ rest, data = (cut fuel data).flatten ++ rest ∧
      (rest = [] ∨ rest.length < blockSize (rest.getD 0 0)) := by
  induction fuel generalizing data with
  | zero =>
      have hnil : data = [] := List.eq_nil_of_length_eq_zero (by omega)
      exact ⟨fun f hf => absurd hf List.not_mem_nil, data, rfl, Or.inl hnil⟩
  | succ fuel ih =>
      unfold cut
      simp only []
      by_cases hnil : data = []
      · rw [if_pos (Or.inl hnil)]
        exact ⟨fun f hf => absurd hf List.not_mem_nil, data, rfl, Or.inl hnil⟩
      · have hpos : 0 < data.length := List.length_pos_iff.mpr hnil
        have hsize : blockSize (data.getD 0 0) ≠ 0 := fun hzero =>
          hs 0 (.first hpos) ((blockSize_eq_zero_iff _).mp hzero)
        by_cases hshort : data.length < blockSize (data.getD 0 0)
        · rw [if_pos (Or.inr (Or.inr hshort))]
          exact ⟨fun f hf => absurd hf List.not_mem_nil, data, rfl, Or.inr hshort⟩
        · rw [if_neg (by simp only [hnil, hsize, hshort, or_self, not_false_eq_true])]
          generalize hn : blockSize (data.getD 0 0) = n at hsize hshort
          have hwhole : WholeFrame (data.take n) := by
            have hlen : (data.take n).length = n := List.length_take_of_le (by omega)
            refine ⟨List.length_pos_iff.mp (by omega), ?_⟩
            rw [hlen, getD_take _ _ _ (by omega), hn]
          -- The positions behind the frame are positions of the datagram.
          have hshift : ∀ p, FrameAt (data.drop n) (data.drop n).length p →
              FrameAt data data.length (n + p) := by
            intro p hp
            induction hp with
            | first h =>
                rw [List.length_drop] at h
                have hnext := @FrameAt.next data data.length 0 (.first hpos)
                rw [hn, Nat.zero_add] at hnext
                exact hnext (by omega)
            | next p _ hlt ihp =>
                rw [getD_drop, List.length_drop] at hlt
                rw [getD_drop, ← Nat.add_assoc]
                exact .next _ ihp (by omega)
          have hs' : Sized (data.drop n) (data.drop n).length := by
            intro p hp
            rw [getD_drop]
            exact hs _ (hshift p hp)
          rcases ih (data.drop n) (by rw [List.length_drop]; omega) hs' with
            ⟨hall, rest, hdata, htail⟩
          refine ⟨fun f hf => ?_, rest, ?_, htail⟩
          · rcases List.mem_cons.mp hf with rfl | hf
            · exact hwhole
            · exact hall f hf
          · rw [List.flatten_cons, List.append_assoc, ← hdata, List.take_append_drop]

variable (lib : DecodeLib γ σ) (data : List Byte) (outputLength : Int)

/-- The bytes from `input` on are these frames and a rest that is none. -/
def Ahead (data : List Byte) (s : Locals γ σ) (fs : List (List Byte)) (rest : List Byte) : Prop :=
  data.drop s.input = fs.flatten ++ rest ∧ s.remainLength = (fs.flatten ++ rest).length ∧
    (rest = [] ∨ rest.length < blockSize (rest.getD 0 0))

/-- The byte at `input` is the first one of what is ahead. -/
theorem ahead_head (s : Locals γ σ) (l : List Byte) (h : data.drop s.input = l) :
    data.getD s.input 0 = l.getD 0 0 := by
  rw [← h, getD_drop, Nat.add_zero]

/-- In front of a rest the loop ends. -/
theorem ahead_nil (s : Locals γ σ) (rest : List Byte) (h : Ahead data s [] rest) :
    body lib data outputLength s = .leave (s.outputSize, s) := by
  rcases h with ⟨hdata, hlen, hrest⟩
  rw [List.flatten_nil, List.nil_append] at hdata hlen
  by_cases hnil : rest = []
  · refine body_done lib data outputLength s ?_
    rw [hlen, hnil]
    decide
  · have hpos : 0 < rest.length := List.length_pos_iff.mpr hnil
    have hshort := hrest.resolve_left hnil
    refine body_short lib data outputLength s (by omega) ?_
    rw [ahead_head data s rest hdata]
    omega

/-- A frame ahead is taken. -/
theorem ahead_cons (s : Locals γ σ) (f : List Byte) (fs : List (List Byte)) (rest : List Byte)
    (h : Ahead data s (f :: fs) rest) (hf : WholeFrame f) :
    s.remainLength > 0 ∧ ¬ s.remainLength < blockSize (data.getD s.input 0) ∧
      data.getD s.input 0 = f.getD 0 0 ∧ Ahead data (decodeFrame lib data s).1 fs rest := by
  rcases h with ⟨hdata, hlen, hrest⟩
  have hpos : 0 < f.length := List.length_pos_iff.mpr hf.1
  rw [List.flatten_cons, List.append_assoc] at hdata hlen
  have hhead : data.getD s.input 0 = f.getD 0 0 := by
    rw [ahead_head data s _ hdata, List.getD_append _ _ _ _ hpos]
  rw [List.length_append] at hlen
  refine ⟨by omega, by rw [hhead, ← hf.2]; omega, hhead, ?_, ?_, hrest⟩
  · rw [decodeFrame_input, hhead, ← hf.2, ← List.drop_drop, hdata, List.drop_left]
  · rw [decodeFrame_remainLength, hhead, ← hf.2]
    omega

/-- What the library is given of a frame that is ahead. -/
theorem decodeFrame_eq (hreads : ReadsFrame lib) (s : Locals γ σ) (f : List Byte)
    (fs : List (List Byte)) (rest : List Byte) (h : Ahead data s (f :: fs) rest)
    (hf : WholeFrame f) :
    (decodeFrame lib data s).1.coderBase = (lib.dIfDecode s.coderBase f kAmrGoodFrame).1 ∧
      (decodeFrame lib data s).1.converter = s.converter ∧
      (decodeFrame lib data s).2 =
        if frameMode (f.getD 0 0) > 8 then List.replicate 320 0
        else (lib.dIfDecode s.coderBase f kAmrGoodFrame).2 := by
  have hhead := (ahead_cons lib data s f fs rest h hf).2.2.1
  have hdata := h.1
  rw [List.flatten_cons, List.append_assoc] at hdata
  unfold decodeFrame
  simp only [hdata, hreads _ f _ _ hf, hhead, and_self]

/-- The decoder between two iterations. -/
def Locals.decoder (s : Locals γ σ) : AmrWbDeCoder γ σ := ⟨s.coderBase, s.converter⟩

/-- The loop feeds the frames it stands before, and lays the PCM one behind the other. -/
theorem gives_frames (hkeeps : Keeps lib) (hreads : ReadsFrame lib)
    (ho : ¬ outputLength < kPcmFrameLength) (fs : List (List Byte)) (rest : List Byte)
    (hfs : ∀ f ∈ fs, WholeFrame f) (s : Locals γ σ) (h : Ahead data s fs rest) :
    ∃ u : Locals γ σ, Gives (body lib data outputLength) s (u.outputSize, u) ∧
      u.decoder = Trace.run (fun q e => (feed lib q e).1) s.decoder (fedFrames outputLength fs) ∧
      let pcm := Trace.answers (feed lib) s.decoder (fedFrames outputLength fs)
      u.writes = s.writes ++ laid s.output pcm ∧
        u.outputSize = s.outputSize + 2 * (pcm.flatten.length : Int) := by
  induction fs generalizing s with
  | nil =>
      refine ⟨s, (gives_leave _ _ _ (ahead_nil lib data outputLength s rest h)).mpr rfl, rfl, ?_⟩
      exact ⟨(List.append_nil _).symm, (Int.add_zero _).symm⟩
  | cons f fs ih =>
      have hf := hfs f List.mem_cons_self
      rcases ahead_cons lib data s f fs rest h hf with ⟨hr, hs, -, hahead⟩
      rcases decodeFrame_eq lib data hreads s f fs rest h hf with ⟨hbase, hconverter, hspeech⟩
      have hagain := body_frame lib data outputLength s hr hs ho
      have hmax : kPcmFrameSample ≤ outputLength / 2 := by
        unfold kPcmFrameLength at ho
        unfold kPcmFrameSample
        omega
      have hkept : (decodeFrame lib data s).1.writes = s.writes ∧
          (decodeFrame lib data s).1.output = s.output ∧
          (decodeFrame lib data s).1.outputSize = s.outputSize := ⟨rfl, rfl, rfl⟩
      generalize decodeFrame lib data s = d at hahead hbase hconverter hspeech hagain hkept
      have hbounded := hkeeps d.1.converter d.2 (outputLength / 2) hmax
      rcases convertFrame_of_bounded lib outputLength d.1 d.2 _ rfl hbounded with
        ⟨hwrites, houtput, hsize⟩
      have hfed : feed lib s.decoder ⟨f, kAmrGoodFrame, some (outputLength / 2)⟩ =
          ((convertFrame lib outputLength d.1 d.2).decoder,
            (lib.convert d.1.converter d.2 kAmrWbFrameSample (outputLength / 2)).2.written) := by
        unfold feed Locals.decoder convertFrame
        simp only [hspeech, hbase, hconverter]
      rcases ih (fun g hg => hfs g (List.mem_cons_of_mem f hg))
        (convertFrame lib outputLength d.1 d.2) hahead with ⟨u, hgives, hdecoder, hlaid, htotal⟩
      have hanswers : Trace.answers (feed lib) s.decoder (fedFrames outputLength (f :: fs)) =
          (feed lib s.decoder ⟨f, kAmrGoodFrame, some (outputLength / 2)⟩).2 ::
            Trace.answers (feed lib)
              (feed lib s.decoder ⟨f, kAmrGoodFrame, some (outputLength / 2)⟩).1
              (fedFrames outputLength fs) := rfl
      have hrun : Trace.run (fun q e => (feed lib q e).1) s.decoder
          (fedFrames outputLength (f :: fs)) =
          Trace.run (fun q e => (feed lib q e).1)
            (feed lib s.decoder ⟨f, kAmrGoodFrame, some (outputLength / 2)⟩).1
            (fedFrames outputLength fs) := rfl
      refine ⟨u, (gives_again _ _ _ hagain).mpr hgives, ?_, ?_⟩
      · rw [hdecoder, hrun, hfed]
      · -- The frame's own write, and the writes of the frames behind it.
        simp only []
        rw [hanswers, hfed, hlaid, htotal, hwrites, houtput, hsize, hkept.1, hkept.2.1,
          hkept.2.2, hbounded.1, List.flatten_cons, List.length_append, laid, List.append_assoc]
        refine ⟨rfl, ?_⟩
        push_cast
        omega

/-- With room for a frame of PCM a call feeds the frames of its datagram. -/
theorem does_frames (hkeeps : Keeps lib) (hreads : ReadsFrame lib)
    (ho : ¬ outputLength < kPcmFrameLength) (hs : Sized data data.length)
    (q : AmrWbDeCoder γ σ) :
    let pcm := Trace.answers (feed lib) q (fedFrames outputLength (frames data))
    ∃ u : Locals γ σ,
      Codec lib q data data.length outputLength (2 * (pcm.flatten.length : Int), u) ∧
      u.decoder = Trace.run (fun q e => (feed lib q e).1) q
        (fedFrames outputLength (frames data)) ∧ u.writes = laid 0 pcm := by
  intro pcm
  rcases cut_spec data.length data (Nat.le_refl _) hs with ⟨hall, rest, hdata, hrest⟩
  rcases gives_frames lib data outputLength hkeeps hreads ho (frames data) rest hall
    (enter q data.length) ⟨hdata, congrArg (fun l => ((List.length l : Nat) : Int)) hdata, hrest⟩
    with ⟨u, hgives, hdecoder, hwrites, hsize⟩
  refine ⟨u, ?_, hdecoder, hwrites⟩
  have hzero : (enter q data.length).outputSize = 0 := rfl
  rw [hzero, Int.zero_add] at hsize
  rw [Codec, if_neg (by omega), ← show u.outputSize = 2 * (pcm.flatten.length : Int) from hsize]
  exact hgives

/-- With no room for one it feeds the first. -/
theorem does_first (hreads : ReadsFrame lib) (ho : outputLength < kPcmFrameLength)
    (hs : Sized data data.length) (q : AmrWbDeCoder γ σ) :
    ∃ u : Locals γ σ,
      Codec lib q data data.length outputLength (if frames data = [] then 0 else -1, u) ∧
      u.decoder = Trace.run (fun q e => (feed lib q e).1) q
        (((frames data).take 1).map fun f => ⟨f, kAmrGoodFrame, none⟩) ∧ u.writes = [] := by
  rcases cut_spec data.length data (Nat.le_refl _) hs with ⟨hall, rest, hdata, hrest⟩
  have hahead : Ahead data (enter q data.length) (frames data) rest :=
    ⟨hdata, congrArg (fun l => ((List.length l : Nat) : Int)) hdata, hrest⟩
  unfold Codec
  simp only [if_neg (show ¬ (data.length : Int) < 0 by omega)]
  rcases hfs : frames data with _ | ⟨f, fs⟩
  · rw [hfs] at hahead
    exact ⟨enter q data.length,
      (gives_leave _ _ _ (ahead_nil lib data outputLength _ rest hahead)).mpr rfl, rfl, rfl⟩
  · rw [hfs] at hahead
    have hf : WholeFrame f := hall f (by
      change f ∈ frames data
      rw [hfs]
      exact List.mem_cons_self)
    rcases ahead_cons lib data _ f fs rest hahead hf with ⟨hr, hshort, -, -⟩
    rcases decodeFrame_eq lib data hreads _ f fs rest hahead hf with ⟨hbase, hconverter, -⟩
    refine ⟨(decodeFrame lib data (enter q data.length)).1,
      (gives_leave _ _ _ (body_full lib data outputLength _ hr hshort ho)).mpr rfl, ?_, rfl⟩
    unfold Locals.decoder
    rw [hbase, hconverter]
    rfl

theorem flatMap_laid (start : Int) (pcm : List (List Sample)) :
    (laid start pcm).flatMap pcmOf = pcm.flatten := by
  induction pcm generalizing start with
  | nil => rfl
  | cons l pcm ih =>
      rw [laid, List.flatMap_cons, ih, List.flatten_cons]
      rfl

/-- What is to be shown of a call: it ends in one way, feeds the library what is in it and
    answers as it should. -/
def Call.Served (lib : DecodeLib γ σ) (t : AmrWbDeCoder γ σ × List Byte) (c : Call)
    (t' : AmrWbDeCoder γ σ × List Byte) (o : Int × List Write) : Prop :=
  (∀ u p, Call.Does lib t c u p ↔ u = t' ∧ p = o) ∧
    t'.1 = Trace.run (fun q e => (feed lib q e).1) t.1 (c.fed (t.2.drop 64)) ∧
    c.pcm o = (Trace.answers (feed lib) t.1 (c.fed (t.2.drop 64))).flatten ∧
    c.Answered o ∧ t'.2.drop 64 = t.2.drop 64

/-- There is one result of a datagram, so any one of them tells what the call does. -/
theorem does_codec_iff (t : AmrWbDeCoder γ σ × List Byte) (ret : Int) (s : Locals γ σ)
    (hcodec : Codec lib t.1 data data.length outputLength (ret, s))
    (u : AmrWbDeCoder γ σ × List Byte) (p : Int × List Write) :
    Call.Does lib t (.codec data outputLength) u p ↔
      u = (s.decoder, t.2) ∧ p = (ret, s.writes) := by
  constructor
  · rintro ⟨r, hr, hu, hp⟩
    unfold Codec at hcodec hr
    rw [if_neg (by omega)] at hcodec hr
    rw [gives_unique _ r _ hr hcodec] at hu hp
    exact ⟨hu, hp⟩
  · rintro ⟨hu, hp⟩
    exact ⟨_, hcodec, hu, hp⟩

theorem served_codec (hkeeps : Keeps lib) (hreads : ReadsFrame lib)
    (t : AmrWbDeCoder γ σ × List Byte) (hs : Sized data data.length) :
    ∃ t' o, Call.Served lib t (.codec data outputLength) t' o := by
  by_cases ho : outputLength < kPcmFrameLength
  · rcases does_first lib data outputLength hreads ho hs t.1 with ⟨u, hcodec, hdecoder, hwrites⟩
    have hfed : Call.fed (t.2.drop 64) (.codec data outputLength) =
        ((frames data).take 1).map fun f => ⟨f, kAmrGoodFrame, none⟩ := if_pos ho
    refine ⟨_, _, does_codec_iff lib data outputLength t _ u hcodec, ?_, ?_, ?_, rfl⟩
    · rw [hfed]
      exact hdecoder
    · rw [hfed]
      change u.writes.flatMap pcmOf = _
      rw [hwrites]
      rcases frames data with _ | ⟨f, fs⟩
      · rfl
      · rfl
    · change if outputLength < kPcmFrameLength then _ else _
      rw [if_pos ho, hwrites]
  · rcases does_frames lib data outputLength hkeeps hreads ho hs t.1 with
      ⟨u, hcodec, hdecoder, hwrites⟩
    have hfed : Call.fed (t.2.drop 64) (.codec data outputLength) =
        fedFrames outputLength (frames data) := if_neg ho
    refine ⟨_, _, does_codec_iff lib data outputLength t _ u hcodec, ?_, ?_, ?_, rfl⟩
    · rw [hfed]
      exact hdecoder
    · rw [hfed]
      change u.writes.flatMap pcmOf = _
      rw [hwrites, flatMap_laid]
    · change if outputLength < kPcmFrameLength then _ else _
      rw [if_neg ho, hwrites]
      exact ⟨_, rfl⟩

theorem served_getWhite (t : AmrWbDeCoder γ σ × List Byte) (length frames : Int) :
    ∃ t' o, Call.Served lib t (.getWhite length frames) t' o := by
  have hdoes : ∀ u p, Call.Does lib t (.getWhite length frames) u p ↔
      u = ((AmrWbDeCoder.getWhite lib t.1 t.2 length frames).1,
        (AmrWbDeCoder.getWhite lib t.1 t.2 length frames).2.1) ∧
      p = (AmrWbDeCoder.getWhite lib t.1 t.2 length frames).2.2 := fun _ _ => Iff.rfl
  refine ⟨_, _, hdoes, ?_⟩
  unfold AmrWbDeCoder.getWhite Call.fed Call.Answered
  by_cases hnone : frames ≤ 0
  · simp only [if_pos hnone, if_pos (Or.inl hnone)]
    exact ⟨rfl, rfl, trivial, trivial⟩
  · by_cases hroom : length < wrap (frames * kPcmFrameLength)
    · simp only [if_neg hnone, if_pos hroom, if_pos (Or.inr hroom)]
      exact ⟨rfl, rfl, trivial, trivial⟩
    · simp only [if_neg hnone, if_neg hroom, if_neg (not_or.mpr ⟨hnone, hroom⟩)]
      refine ⟨rfl, rfl, trivial, ?_⟩
      rw [List.drop_left' List.length_replicate]

/-- Every call is served. -/
theorem served_call (hkeeps : Keeps lib) (hreads : ReadsFrame lib)
    (t : AmrWbDeCoder γ σ × List Byte) (c : Call) (hc : c.Ends) :
    ∃ t' o, Call.Served lib t c t' o := by
  cases c with
  | codec data outputLength => exact served_codec lib data outputLength hkeeps hreads t hc
  | getWhite length frames => exact served_getWhite lib t length frames

/-- A run of calls of a decoder. It ends, in one way only. Whatever the datagrams, the library
    is fed their frames in one stream, with a report in it for the white frames, and the calls
    return the PCM that comes of this stream, from the start of each output on. -/
theorem decodes_datagrams (hkeeps : Keeps lib) (hreads : ReadsFrame lib) (calls : List Call)
    (hcalls : ∀ c ∈ calls, c.Ends) (t : AmrWbDeCoder γ σ × List Byte) :
    let stream := calls.flatMap (Call.fed (t.2.drop 64))
    ∃ u os, (∀ u' os', Trace.Runs (Call.Does lib) t calls u' os' ↔ u' = u ∧ os' = os) ∧
      u.1 = Trace.run (fun q e => (feed lib q e).1) t.1 stream ∧
      (List.zipWith Call.pcm calls os).flatten = (Trace.answers (feed lib) t.1 stream).flatten ∧
      List.Forall₂ Call.Answered calls os := by
  induction calls generalizing t with
  | nil => exact ⟨t, [], Trace.runs_nil_iff _ t, rfl, rfl, .nil⟩
  | cons c calls ih =>
      rcases served_call lib hkeeps hreads t c (hcalls c List.mem_cons_self) with
        ⟨t', o, hdoes, hstate, hpcm, hanswered, hbehind⟩
      rcases ih (fun d hd => hcalls d (List.mem_cons_of_mem c hd)) t' with
        ⟨u, os, hruns, hrest, hpcms, hall⟩
      rw [hbehind, hstate] at hrest hpcms
      refine ⟨u, o :: os, Trace.runs_cons_iff _ t t' u c o calls os hdoes hruns, ?_, ?_,
        .cons hanswered hall⟩
      · simp only [List.flatMap_cons, Trace.run_append]
        exact hrest
      · simp only [List.flatMap_cons, Trace.answers_append, List.zipWith_cons_cons,
          List.flatten_cons, List.flatten_append]
        rw [hpcm, hpcms]

/-- Frames of no byte without a size have a size. -/
theorem sized_of_all (h : ∀ b ∈ 0 :: data, ¬ (11 ≤ frameMode b ∧ frameMode b ≤ 13))
    (length : Nat) : Sized data length := by
  intro p _
  refine h _ ?_
  rw [List.getD_eq_getElem?_getD]
  rcases hp : data[p]? with _ | b
  · exact List.mem_cons_self
  · exact List.mem_cons_of_mem 0 (List.mem_of_getElem? hp)

/-- A `src_process` that makes of a frame its first sample. -/
def firstSample : SampleRate Unit Sample where
  shortToFloat := id
  floatToShort := id
  srcProcess p d := (p, false, { d with dataOut := d.dataIn.take 1, outputFramesGen := 1 })

/-- A library that counts its frames, and the converter of the source. -/
def tallying : DecodeLib Nat { q : RateConverter Unit Sample // q.rate = 0 } where
  dIfDecode k bits _ := (k + 1, [BitVec.ofNat 16 (k + blockSize (bits.getD 0 0))])
  convert := RateConverter.halving firstSample

/-- The decoder before its first frame. -/
def untallied : AmrWbDeCoder Nat { q : RateConverter Unit Sample // q.rate = 0 } :=
  ⟨0, ⟨⟨(), 0, ⟨[], [], 0, 0, 0, 0, false⟩⟩, rfl⟩⟩

/-- A frame of speech. -/
def speechFrame : List Byte := 0x44 :: List.replicate 60 0

/-- Speech and a frame without data in one datagram, white frames, and speech and the start of
    more in another. -/
theorem decodes_datagrams_three :
    let calls := [.codec (speechFrame ++ [0x7c]) 640, .getWhite 640 2,
      .codec (speechFrame ++ [0x44]) 640]
    ∃ u os, Trace.Runs (Call.Does tallying) (untallied, List.replicate 64 0) calls u os ∧
      u.1.coderBase = 4 ∧ (List.zipWith Call.pcm calls os).flatten = [61, 0, 64] := by
  intro calls
  have hkeeps : Keeps tallying := keeps_halving firstSample _ fun p d _ => ⟨rfl, by
    change 1 ≤ kPcmFrameSample
    decide⟩
  have hreads : ReadsFrame tallying := by
    intro g f rest bfi hf
    unfold tallying
    simp only [List.getD_append f rest 0 0 (List.length_pos_iff.mpr hf.1)]
  have hends : ∀ c ∈ calls, c.Ends := by
    intro c hc
    rcases List.mem_cons.mp hc with rfl | hc
    · exact sized_of_all _ (by decide) _
    · rcases List.mem_cons.mp hc with rfl | hc
      · trivial
      · rw [List.mem_singleton.mp hc]
        exact sized_of_all _ (by decide) _
  rcases decodes_datagrams tallying hkeeps hreads calls hends (untallied, List.replicate 64 0) with
    ⟨u, os, hruns, hstate, hpcm, -⟩
  refine ⟨u, os, (hruns u os).mpr ⟨rfl, rfl⟩, ?_, ?_⟩
  · rw [hstate]
    decide +kernel
  · rw [hpcm]
    decide +kernel

end AmrWbDeCoder

end CodecChanger
