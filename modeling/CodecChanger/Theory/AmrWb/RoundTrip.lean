import CodecChanger.Theory.AmrWb.Bounds

/-!
# From the AMR-WB Encoder to the AMR-WB Decoder

What the decoder makes of the encoder's own bytes. The encoder sends a frame
repacked: four set bits in front, the padding of the first byte taken out. The
decoder expects frames as they leave `E_IF_encode`. The first byte it sees is
therefore `1111` and the upper half of the first byte of the first frame, a byte
it reads as frame type 14 or 15, of block size one; and what it hands to
`D_IF_decode` begins with that byte.

For the decoder to be handed a frame, the frame would have to begin with the
byte it is repacked to. Only `0xff` does, and its padding bits are set, which
the padding bits of a storage frame are not. So nothing comes back but the empty
sequence of frames.

## Main definitions

* `StorageFrame`: A frame in the format `E_IF_encode` produces.
* `RoundTrips`: The decoder hands back the frames the encoder encoded.

## Theorems

* `first_byte`: A byte that is its own repacking has its padding bits set.
* `encoder_returns`: The encoder's loop ends.
* `encoder_started`: The bytes returned start with the first frame repacked.
* `decoder_handed`: The first frame handed on starts with the first byte.
* `not_roundTrips`: Frames do not come back.
* `roundTrips_iff`: The exact condition for the round trip.
-/

namespace CodecChanger

open Bytes Loop

variable {γ σ γ' σ' : Type*}

/-- A frame in storage format: the size its type says, and the two padding bits
    of its first byte clear. -/
def StorageFrame (f : List Byte) : Prop :=
  AmrWbDeCoder.WholeFrame f ∧ f.getD 0 0 &&& 0x03 = 0

/-- The encoder returns, and the decoder, given the bytes it returned, returns
    too and has handed to `D_IF_decode` one run of bytes for each frame encoded,
    in order and starting with that frame, and converted as many frames. -/
def RoundTrips (enc : EncodeLib γ σ) (fresh : Nat → Sample) (q : AmrWbEnCoder γ σ)
    (dec : DecodeLib γ' σ') (p : AmrWbDeCoder γ' σ') (data : List Byte)
    (length outputLength pcmLength : Int) : Prop :=
  ∃ r r', AmrWbEnCoder.Codec enc fresh q data length outputLength r ∧
    AmrWbDeCoder.Codec dec p r.2.written r.1 pcmLength r' ∧
    List.Forall₂ (fun f handed => f <+: handed) r.2.encoded r'.2.handed ∧
    r'.2.writes.countP Write.isSamples = r.2.encoded.length

/-- A byte that repacks to itself as the first byte of a frame has its padding
    bits set. -/
theorem first_byte : ∀ b : Byte, b = 0xf0 ||| b >>> 4 → b &&& 0x03 ≠ 0 := by
  decide

/-- The decoder takes the first byte of a repacked frame for a frame of one byte. -/
theorem blockSize_repacked : ∀ b : Byte, blockSize (0xf0 ||| b >>> 4) = 1 := by
  decide

/-- The head of a list that is extended at its end. -/
theorem head_append {α : Type*} (l m : List α) (a : α) (h : l[0]? = some a) :
    (l ++ m)[0]? = some a := by
  cases l with
  | nil => exact absurd h (by simp only [List.getElem?_nil, reduceCtorEq, not_false_eq_true])
  | cons b l => exact h

namespace AmrWbEnCoder

variable (enc : EncodeLib γ σ) (buff : List Sample)

/-- The encoder's loop ends. -/
theorem encoder_returns (s : Locals γ σ) : Halts (body enc buff) s := by
  refine halts_of_variant (fun _ => True) (fun s => s.lastFrames.toNat) ?_ s trivial
  intro s t _ hb
  refine ⟨trivial, ?_⟩
  -- Every iteration takes a frame of samples off `last_frames`.
  rcases body_again enc buff s t hb with ⟨h, alignBuff, codecSize, -, -, rfl⟩
  unfold copyFrame
  simp only [encodeFrame_lastFrames]
  unfold kAmrWbFrameSample at h ⊢
  omega

/-- The first frame encoded is `f`, and the bytes written start with its
    repacking. -/
def Started (f : List Byte) (encoded : List (List Byte)) (written : List Byte) (size : Int) :
    Prop :=
  encoded[0]? = some f ∧ written[0]? = some (0xf0 ||| f.getD 0 0 >>> 4) ∧ 0 < size

theorem started_again (f : List Byte) (s t : Locals γ σ)
    (hs : Started f s.encoded s.written s.totalSize) (hb : body enc buff s = .again t) :
    Started f t.encoded t.written t.totalSize := by
  rcases hs with ⟨henc, hwr, hsize⟩
  rcases body_again enc buff s t hb with ⟨-, alignBuff, codecSize, -, -, rfl⟩
  -- Both logs grow at their ends.
  unfold Started copyFrame
  simp only [encodeFrame_encoded, encodeFrame_written, encodeFrame_totalSize]
  exact ⟨head_append _ _ _ henc, head_append _ _ _ hwr, by omega⟩

theorem started_leave (f : List Byte) (s : Locals γ σ) (r : Int × Locals γ σ)
    (hs : Started f s.encoded s.written s.totalSize) (hb : body enc buff s = .leave r) :
    Started f r.2.encoded r.2.written r.1 := by
  rcases hs with ⟨henc, hwr, hsize⟩
  rcases body_leave enc buff s r hb with rfl | rfl
  · exact ⟨henc, hwr, hsize⟩
  · -- One more frame is encoded, and not copied.
    exact ⟨head_append _ _ _ henc, hwr, hsize⟩

/-- With samples for a frame, the first frame is encoded, and it is repacked at
    the start of the bytes returned, unless there was no room for it and none
    are returned. -/
theorem encoder_started (q : AmrWbEnCoder γ σ) (c : σ) (length outputLength : Int)
    (hlen : length ≥ kAmrWbFrameSample) (r : Int × Locals γ σ)
    (hr : Gives (body enc buff) (enter q c length outputLength) r)
    (hne : (encodeFrame enc buff (enter q c length outputLength)).2 ≠ []) :
    let f := (encodeFrame enc buff (enter q c length outputLength)).2
    Started f r.2.encoded r.2.written r.1 ∨ (r.2.encoded[0]? = some f ∧ r.1 = 0) := by
  intro f
  rcases body_encode enc buff (enter q c length outputLength) hlen with
    hleave | ⟨alignBuff, codecSize, hsize, hfirst, hagain⟩
  · rw [(gives_leave _ r _ hleave).mp hr]
    exact Or.inr ⟨rfl, rfl⟩
  · -- The first iteration starts both logs, and the rest of the loop extends them.
    refine Or.inl (gives_invariant (fun s => Started f s.encoded s.written s.totalSize)
      (fun r => Started f r.2.encoded r.2.written r.1) (started_again enc buff f)
      (started_leave enc buff f) _ r ?_ ((gives_again _ _ r hagain).mp hr))
    unfold Started copyFrame
    simp only [encodeFrame_encoded, encodeFrame_written, encodeFrame_totalSize]
    refine ⟨rfl, ?_, ?_⟩
    · rw [enter, List.nil_append, List.getElem?_take, if_pos hsize]
      exact hfirst hne
    · simp only [enter]
      omega

end AmrWbEnCoder

namespace AmrWbDeCoder

variable (dec : DecodeLib γ' σ')

/-- What was handed to `D_IF_decode` first stays first. -/
theorem handed_again (data h : List Byte) (pcmLength : Int) (s t : Locals γ' σ')
    (hs : s.handed[0]? = some h) (hb : body dec data pcmLength s = .again t) :
    t.handed[0]? = some h := by
  rcases body_again dec data pcmLength s t hb with ⟨-, -, -, rfl⟩
  rw [convertFrame_handed, decodeFrame_handed]
  exact head_append _ _ _ hs

theorem handed_leave (data h : List Byte) (pcmLength : Int) (s : Locals γ' σ')
    (r : Int × Locals γ' σ') (hs : s.handed[0]? = some h)
    (hb : body dec data pcmLength s = .leave r) : r.2.handed[0]? = some h := by
  rcases body_leave dec data pcmLength s r hb with rfl | rfl
  · exact hs
  · exact head_append _ _ _ hs

/-- The first frame handed on starts with the first byte, when that byte is of a
    frame type of size one. -/
theorem decoder_handed (p : AmrWbDeCoder γ' σ') (data : List Byte) (length pcmLength : Int)
    (hlen : 0 < length) (hsize : blockSize (data.getD 0 0) = 1) (r : Int × Locals γ' σ')
    (hr : Codec dec p data length pcmLength r) : r.2.handed[0]? = some data := by
  rw [Codec, if_neg (by omega)] at hr
  have hrem : (enter p length).remainLength > 0 := hlen
  have hs : ¬ (enter p length).remainLength <
      blockSize (data.getD (enter p length).input 0) := by
    unfold enter
    simp only [hsize]
    omega
  by_cases ho : pcmLength < kPcmFrameLength
  · rw [(gives_leave _ r _ (body_full dec data pcmLength _ hrem hs ho)).mp hr]
    rfl
  · exact gives_invariant (fun s => s.handed[0]? = some data)
      (fun r => r.2.handed[0]? = some data) (handed_again dec data data pcmLength)
      (handed_leave dec data data pcmLength) _ r rfl
      ((gives_again _ _ r (body_frame dec data pcmLength _ hrem hs ho)).mp hr)

/-- Of no bytes the decoder makes nothing. -/
theorem body_enter_zero (p : AmrWbDeCoder γ' σ') (data : List Byte) (pcmLength : Int) :
    body dec data pcmLength (enter p 0) = .leave (0, enter p 0) :=
  body_done dec data pcmLength (enter p 0) (by simp only [enter]; omega)

end AmrWbDeCoder

section

variable (enc : EncodeLib γ σ) (fresh : Nat → Sample) (q : AmrWbEnCoder γ σ)
  (dec : DecodeLib γ' σ') (p : AmrWbDeCoder γ' σ') (data : List Byte)
  (length outputLength pcmLength : Int)

/-- With samples for a frame, and converted, the frames do not come back. -/
theorem not_roundTrips (hstorage : ∀ g mode l dtx, StorageFrame (enc.eIfEncode g mode l dtx).2)
    (hlen : ¬ length < 320)
    (hconv : ¬ (enc.convert q.converter (words16 data) (length / 2) length).2.ret < 0) :
    ¬ RoundTrips enc fresh q dec p data length outputLength pcmLength := by
  rintro ⟨r, r', hr, hr', hall, -⟩
  rw [AmrWbEnCoder.Codec, if_neg (by omega)] at hr
  simp only [if_neg hconv] at hr
  have hf := hstorage q.coderBase kAmrEncodeMode
  rcases AmrWbEnCoder.encoder_started enc _ q _ length outputLength (not_lt.mp hlen) r hr
    (hf _ _).1.1 with ⟨henc, hwr, hsize⟩ | ⟨henc, hzero⟩
  · generalize hfv : (AmrWbEnCoder.encodeFrame enc _ _).2 = f at henc hwr
    have hfs : StorageFrame f := by
      rw [← hfv]
      exact hf _ _
    have hbyte : r.2.written.getD 0 0 = 0xf0 ||| f.getD 0 0 >>> 4 := by
      rw [List.getD_eq_getElem?_getD, hwr, Option.getD_some]
    have hhanded := AmrWbDeCoder.decoder_handed dec p r.2.written r.1 pcmLength hsize
      (by rw [hbyte]; exact blockSize_repacked _) r' hr'
    -- So the first frame is a start of the bytes returned, and its first byte is theirs.
    have hpre : f <+: r.2.written := by
      rcases hfl : r.2.encoded with _ | ⟨f', fs⟩
      · rw [hfl] at henc
        exact absurd henc (by simp only [List.getElem?_nil, reduceCtorEq, not_false_eq_true])
      · rcases hhl : r'.2.handed with _ | ⟨h', hs⟩
        · rw [hhl] at hhanded
          exact absurd hhanded (by simp only [List.getElem?_nil, reduceCtorEq,
            not_false_eq_true])
        · rw [hfl, List.getElem?_cons_zero, Option.some.injEq] at henc
          rw [hhl, List.getElem?_cons_zero, Option.some.injEq] at hhanded
          rw [hfl, hhl, henc, hhanded] at hall
          exact (List.forall₂_cons.mp hall).1
    have hself : f.getD 0 0 = 0xf0 ||| f.getD 0 0 >>> 4 := by
      rw [← hbyte]
      rcases hpre with ⟨rest, hrest⟩
      rw [← hrest, List.getD_eq_getElem?_getD, List.getD_eq_getElem?_getD,
        List.getElem?_append_left (List.length_pos_iff.mpr hfs.1.1)]
    exact first_byte _ hself hfs.2
  · -- Nothing was returned, so nothing is handed on.
    rw [hzero, AmrWbDeCoder.Codec, if_neg (by omega)] at hr'
    rw [(gives_leave _ r' _ (AmrWbDeCoder.body_enter_zero dec p _ pcmLength)).mp hr'] at hall
    rw [List.forall₂_nil_right_iff.mp hall] at henc
    exact absurd henc (by simp only [List.getElem?_nil, reduceCtorEq, not_false_eq_true])

/-- The frames the encoder encodes come back from the decoder exactly when there
    are none: the input is shorter than a frame, or the rate converter fails. -/
theorem roundTrips_iff
    (hstorage : ∀ g mode l dtx, StorageFrame (enc.eIfEncode g mode l dtx).2) :
    RoundTrips enc fresh q dec p data length outputLength pcmLength ↔
      length < 320 ∨ (enc.convert q.converter (words16 data) (length / 2) length).2.ret < 0 := by
  constructor
  · intro h
    by_contra hc
    rw [not_or] at hc
    exact not_roundTrips enc fresh q dec p data length outputLength pcmLength hstorage hc.1 hc.2 h
  · intro h
    let c := (enc.convert q.converter (words16 data) (length / 2) length).1
    -- An encoder that fails leaves the decoder a negative length.
    have hfail : ∀ r : Int × AmrWbEnCoder.Locals γ σ, r.1 = -1 → r.2.encoded = [] →
        AmrWbEnCoder.Codec enc fresh q data length outputLength r →
        RoundTrips enc fresh q dec p data length outputLength pcmLength := by
      intro r hret henc hr
      refine ⟨r, (-1, AmrWbDeCoder.enter p (-1)), hr, ?_, ?_, ?_⟩
      · rw [AmrWbDeCoder.Codec, hret, if_pos (by decide)]
      · rw [henc]
        exact List.Forall₂.nil
      · rw [henc]
        rfl
    by_cases hpos : length ≤ 0
    · exact hfail (-1, AmrWbEnCoder.enter q q.converter length outputLength) rfl rfl (by
        rw [AmrWbEnCoder.Codec, if_pos hpos])
    · by_cases hconv : (enc.convert q.converter (words16 data) (length / 2) length).2.ret < 0
      · exact hfail (-1, AmrWbEnCoder.enter q c length outputLength) rfl rfl (by
          rw [AmrWbEnCoder.Codec, if_neg hpos]
          simp only [if_pos hconv]
          rfl)
      · -- Too few samples for a frame: no bytes, and nothing to decode.
        have hshort := h.resolve_right hconv
        refine ⟨(0, AmrWbEnCoder.enter q c length outputLength), (0, AmrWbDeCoder.enter p 0),
          ?_, ?_, List.Forall₂.nil, rfl⟩
        · rw [AmrWbEnCoder.Codec, if_neg hpos]
          simp only [if_neg hconv]
          refine (gives_leave _ _ _ (AmrWbEnCoder.body_done enc _ _ ?_)).mpr rfl
          simp only [AmrWbEnCoder.enter, kAmrWbFrameSample]
          omega
        · rw [AmrWbDeCoder.Codec, if_neg (by simp only []; omega)]
          exact (gives_leave _ _ _ (AmrWbDeCoder.body_enter_zero dec p _ pcmLength)).mpr rfl

end

/-- A codec library that encodes everything to one frame of type 8. -/
def steady : EncodeLib Unit Unit where
  eIfEncode _ _ _ _ := ((), 0x44 :: List.replicate 60 0)
  convert _ _ _ max := ((), { ret := max, written := List.replicate max.toNat 0 })

theorem storageFrame_steady (g : Unit) (mode : Int) (l : List Sample) (dtx : Int) :
    StorageFrame (steady.eIfEncode g mode l dtx).2 := by
  change StorageFrame (0x44 :: List.replicate 60 0)
  unfold StorageFrame
  decide

/-- Less than one frame of samples goes round. -/
theorem roundTrips_iff_short :
    RoundTrips steady (fun _ => 0) ⟨(), (), []⟩ AmrWbDeCoder.quiet ⟨(), ()⟩
        (List.replicate 100 0) 100 2048 2048 :=
  (roundTrips_iff steady _ _ _ _ _ 100 2048 2048 storageFrame_steady).mpr (Or.inl (by decide))

/-- One frame of type 8 does not. -/
theorem roundTrips_fails :
    ¬ RoundTrips steady (fun _ => 0) ⟨(), (), []⟩ AmrWbDeCoder.quiet ⟨(), ()⟩
        (List.replicate 320 0) 320 2048 2048 :=
  not_roundTrips steady _ _ _ _ _ 320 2048 2048 storageFrame_steady (by decide) (by decide)

end CodecChanger
