import CodecChanger.Core.AmrWb

/-!
# Repacked Frames

What `AMRNoOctetAlign` makes of a frame, byte by byte, and how many bytes of it the
encoder copies out.

A byte of the repacked frame starts with two bits that are left over from the byte
of the frame before it, the first with four set bits, and goes on with the upper
bits of the frame's own. Behind the last byte there are two bits over. They make
one more byte, whatever they are, so that a frame and its repacking always differ
by one byte.

`AMRNoOctetAlign` counts that byte when it is not zero. The encoder adds one to the
count, which is right for a frame that ends in two zeros, as speech does; a frame
whose last bits are set is sent with one byte too many.

## Main definitions

* `carried`, `moved`: The two parts of a byte of a repacked frame.
* `repackedByte`: The byte.
* `wireForm`: What the encoder copies out for a frame.
* `LastBitsClear`: The frame ends in two zeros.

## Theorems

* `alignRounds`: The loop of `AMRNoOctetAlign`.
* `amrNoOctetAlign_getD`, `amrNoOctetAlign_count`: What it leaves and returns.
* `body_wire`: The encoder copies out the wire form of every frame.
* `length_wireForm`: How many bytes that is.
* `wireForm_size_iff`: When it is one more than the frame has.
-/

namespace CodecChanger

open Bytes Loop

/-- The bits left over from the byte before, at the upper end. -/
def carried (src : List Byte) : Nat → Byte
  | 0 => 0xf0
  | 1 => src.getD 0 0 <<< 4 &&& 0xc0
  | i + 2 => src.getD (i + 1) 0 <<< 6 &&& 0xc0

/-- The upper bits of the byte itself, at the lower end. -/
def moved (src : List Byte) (i : Nat) : Byte := src.getD i 0 >>> if i = 0 then 4 else 2

/-- The byte `i` of the repacked frame `src` of `len` bytes. -/
def repackedByte (src : List Byte) (len i : Nat) : Byte :=
  if i < len then carried src i ||| moved src i else if i = len then carried src i else 0

/-- One round of the loop of `AMRNoOctetAlign`. -/
def alignRound (src tar : List Byte) (offset : Nat) : List Byte :=
  (tar.set offset (tar.getD offset 0 ||| src.getD offset 0 >>> 2)).set (offset + 1)
    (src.getD offset 0 <<< 6 &&& 0xc0)

/-- The rounds of the loop repack one more byte each. -/
theorem alignRounds (src : List Byte) (n : Nat) (hn : n + 1 < 128) (tar : List Byte)
    (hlen : tar.length = 128) (htar : ∀ i, tar.getD i 0 = repackedByte src 1 i) :
    ((List.range' 1 n).foldl (alignRound src) tar).length = 128 ∧
      ∀ i, ((List.range' 1 n).foldl (alignRound src) tar).getD i 0 =
        repackedByte src (n + 1) i := by
  induction n with
  | zero => exact ⟨hlen, htar⟩
  | succ n ih =>
      rcases ih (by omega) with ⟨hlen', htar'⟩
      rw [List.range'_1_concat, List.foldl_append]
      generalize (List.range' 1 n).foldl (alignRound src) tar = t at hlen' htar' ⊢
      change (alignRound src t (1 + n)).length = 128 ∧
        ∀ i, (alignRound src t (1 + n)).getD i 0 = repackedByte src (n + 1 + 1) i
      unfold alignRound
      refine ⟨by rw [List.length_set, List.length_set, hlen'], fun i => ?_⟩
      rw [getD_set _ _ _ _ (by rw [List.length_set]; omega), getD_set _ _ _ _ (by omega),
        htar', htar']
      -- Only the byte of this round and the one behind it change.
      unfold repackedByte
      by_cases hnext : i = 1 + n + 1
      · rw [if_pos hnext, if_neg (by omega), if_pos (by omega), hnext,
          show 1 + n + 1 = n + 2 by omega]
        unfold carried
        rw [show 1 + n = n + 1 by omega]
      · rw [if_neg hnext]
        by_cases hthis : i = 1 + n
        · rw [if_pos hthis, if_neg (by omega), if_pos (by omega), if_pos (by omega), hthis]
          unfold moved
          rw [if_neg (show ¬ 1 + n = 0 by omega)]
        · rw [if_neg hthis]
          by_cases hdone : i < n + 1
          · rw [if_pos hdone, if_pos (by omega)]
          · rw [if_neg hdone, if_neg (by omega), if_neg (by omega), if_neg (by omega)]

/-- The buffer that `AMRNoOctetAlign` leaves, in place of one of zeros. -/
theorem amrNoOctetAlign_getD (src : List Byte) (len : Nat) (hpos : 0 < len) (hlen : len < 128) :
    (amrNoOctetAlign (List.replicate 128 0) src len).1.length = 128 ∧
      ∀ i, (amrNoOctetAlign (List.replicate 128 0) src len).1.getD i 0 =
        repackedByte src len i := by
  -- The two bytes that are set before the loop.
  have hstart : ∀ i, (((List.replicate 128 (0 : Byte)).set 0
      (0xf0 ||| src.getD 0 0 >>> 4)).set 1 (src.getD 0 0 <<< 4 &&& 0xc0)).getD i 0 =
        repackedByte src 1 i := by
    intro i
    rw [getD_set _ _ _ _ (by rw [List.length_set, List.length_replicate]; omega),
      getD_set _ _ _ _ (by rw [List.length_replicate]; omega)]
    unfold repackedByte
    by_cases hone : i = 1
    · rw [if_pos hone, if_neg (by omega), if_pos hone, hone]
      rfl
    · rw [if_neg hone]
      by_cases hzero : i = 0
      · rw [if_pos hzero, if_pos (by omega), hzero]
        rfl
      · rw [if_neg hzero, if_neg (by omega), if_neg hone, List.getD_eq_getElem?_getD,
          List.getElem?_replicate]
        split
        · rfl
        · rfl
  have hrounds := alignRounds src (len - 1) (by omega) _
    (by rw [List.length_set, List.length_set, List.length_replicate]) hstart
  rw [show len - 1 + 1 = len by omega] at hrounds
  exact hrounds

/-- The two bits that are over at the end count as a byte when they are not zero. -/
theorem amrNoOctetAlign_count (src : List Byte) (len : Nat) (hpos : 0 < len) (hlen : len < 128) :
    (amrNoOctetAlign (List.replicate 128 0) src len).2 =
      if carried src len = 0 then len else len + 1 := by
  have hcount : (amrNoOctetAlign (List.replicate 128 0) src len).2 =
      if (amrNoOctetAlign (List.replicate 128 0) src len).1.getD len 0 = 0 then len
        else len + 1 := rfl
  rw [hcount, (amrNoOctetAlign_getD src len hpos hlen).2 len, repackedByte,
    if_neg (Nat.lt_irrefl _), if_pos rfl]

/-- What lies behind a frame does not matter. -/
theorem amrNoOctetAlign_append (tar frame rest : List Byte) (hne : frame ≠ []) :
    amrNoOctetAlign tar (frame ++ rest) frame.length = amrNoOctetAlign tar frame frame.length := by
  have hpos : 0 < frame.length := List.length_pos_iff.mpr hne
  have hfront : ∀ i, i < frame.length → (frame ++ rest).getD i 0 = frame.getD i 0 :=
    fun i hi => List.getD_append _ _ _ _ hi
  unfold amrNoOctetAlign
  simp only [hfront 0 hpos]
  rw [List.foldl_ext _ _ _ fun t i hi => ?_]
  have hi' := List.mem_range'_1.mp hi
  rw [hfront i (by omega)]

/-- What the encoder copies out for a frame: its repacking, and one byte more than
    `AMRNoOctetAlign` counts. -/
def wireForm (frame : List Byte) : List Byte :=
  let (alignBuff, alignLen) := amrNoOctetAlign (List.replicate 128 0) frame frame.length
  alignBuff.take (alignLen + 1)

/-- The frame ends in two zeros. Of a frame of one byte the two lowest bits are
    padding, and the two before them are meant. -/
def LastBitsClear (frame : List Byte) : Prop :=
  if frame.length = 1 then frame.getD 0 0 &&& 0x0c = 0
  else frame.getD (frame.length - 1) 0 &&& 0x03 = 0

instance (frame : List Byte) : Decidable (LastBitsClear frame) :=
  inferInstanceAs (Decidable (if frame.length = 1 then frame.getD 0 0 &&& 0x0c = 0
    else frame.getD (frame.length - 1) 0 &&& 0x03 = 0))

/-- Nothing is left over of a frame that ends in two zeros. -/
theorem carried_eq_zero_iff (frame : List Byte) (hne : frame ≠ []) :
    carried frame frame.length = 0 ↔ LastBitsClear frame := by
  have hone : ∀ b : Byte, b <<< 4 &&& 0xc0 = 0 ↔ b &&& 0x0c = 0 := by decide
  have hmore : ∀ b : Byte, b <<< 6 &&& 0xc0 = 0 ↔ b &&& 0x03 = 0 := by decide
  have hpos : 0 < frame.length := List.length_pos_iff.mpr hne
  unfold LastBitsClear
  by_cases h1 : frame.length = 1
  · rw [if_pos h1, h1]
    exact hone _
  · rw [if_neg h1, show frame.length = frame.length - 2 + 2 by omega]
    exact hmore _

/-- As many bytes as `AMRNoOctetAlign` counts and one more. -/
theorem length_wireForm_eq (frame : List Byte) (hne : frame ≠ []) (hlen : frame.length ≤ 64) :
    (wireForm frame).length =
      (amrNoOctetAlign (List.replicate 128 0) frame frame.length).2 + 1 := by
  have hpos : 0 < frame.length := List.length_pos_iff.mpr hne
  have hcount := amrNoOctetAlign_count frame frame.length hpos (by omega)
  have hsize := (amrNoOctetAlign_getD frame frame.length hpos (by omega)).1
  have hfits : (amrNoOctetAlign (List.replicate 128 0) frame frame.length).2 + 1 ≤ 128 := by
    rw [hcount]
    split
    · omega
    · omega
  rw [wireForm, List.length_take_of_le (by omega)]

/-- How many bytes the encoder copies out for a frame. -/
theorem length_wireForm (frame : List Byte) (hne : frame ≠ []) (hlen : frame.length ≤ 64) :
    (wireForm frame).length = frame.length + if LastBitsClear frame then 1 else 2 := by
  have hpos : 0 < frame.length := List.length_pos_iff.mpr hne
  rw [length_wireForm_eq frame hne hlen, amrNoOctetAlign_count frame _ hpos (by omega)]
  by_cases hclear : LastBitsClear frame
  · rw [if_pos hclear, if_pos ((carried_eq_zero_iff frame hne).mpr hclear)]
  · rw [if_neg hclear, if_neg (fun hc => hclear ((carried_eq_zero_iff frame hne).mp hc))]

/-- The wire form of a frame is one byte longer than the frame exactly when the frame
    ends in two zeros. Two frames of one size have wire forms of one size, and of that
    one, exactly when both do. -/
theorem wireForm_size_iff (f g : List Byte) (n : Nat) (hpos : 1 ≤ n) (hle : n ≤ 64)
    (hf : f.length = n) (hg : g.length = n) :
    ((wireForm f).length = (wireForm g).length ∧ (wireForm f).length = n + 1) ↔
      LastBitsClear f ∧ LastBitsClear g := by
  have hf' := length_wireForm f (List.length_pos_iff.mp (by omega)) (by omega)
  have hg' := length_wireForm g (List.length_pos_iff.mp (by omega)) (by omega)
  rw [hf', hg', hf, hg]
  by_cases hfc : LastBitsClear f
  · by_cases hgc : LastBitsClear g
    · rw [if_pos hfc, if_pos hgc]
      exact ⟨fun _ => ⟨hfc, hgc⟩, fun _ => ⟨rfl, rfl⟩⟩
    · rw [if_pos hfc, if_neg hgc]
      exact ⟨fun h => by omega, fun h => absurd h.2 hgc⟩
  · rw [if_neg hfc]
    exact ⟨fun h => by omega, fun h => absurd h.1 hfc⟩

/-- Two frames of comfort noise that end in zeros. -/
theorem wireForm_size_iff_noise :
    (wireForm [0x4c, 0xa0, 0x11, 0x07, 0x30, 0x28]).length =
        (wireForm [0x4c, 0x00, 0x00, 0x00, 0x00, 0x04]).length ∧
      (wireForm [0x4c, 0xa0, 0x11, 0x07, 0x30, 0x28]).length = 6 + 1 :=
  (wireForm_size_iff [0x4c, 0xa0, 0x11, 0x07, 0x30, 0x28] [0x4c, 0x00, 0x00, 0x00, 0x00, 0x04] 6
    (by decide) (by decide) rfl rfl).mpr (by decide)

/-- Two frames of comfort noise, one of which ends in a one: seven bytes and
    eight. -/
theorem wireForm_size_fails :
    (wireForm [0x4c, 0xa0, 0x11, 0x07, 0x30, 0x28]).length = 7 ∧
      (wireForm [0x4c, 0xa0, 0x11, 0x07, 0x30, 0x29]).length = 8 ∧
      ¬ ((wireForm [0x4c, 0xa0, 0x11, 0x07, 0x30, 0x28]).length =
          (wireForm [0x4c, 0xa0, 0x11, 0x07, 0x30, 0x29]).length ∧
        (wireForm [0x4c, 0xa0, 0x11, 0x07, 0x30, 0x28]).length = 6 + 1) := by
  have hzero : (wireForm [0x4c, 0xa0, 0x11, 0x07, 0x30, 0x28]).length = 7 := by decide +kernel
  have hone : (wireForm [0x4c, 0xa0, 0x11, 0x07, 0x30, 0x29]).length = 8 := by decide +kernel
  refine ⟨hzero, hone, ?_⟩
  rw [hzero, hone]
  exact fun h => absurd h.1 (by decide)

namespace AmrWbEnCoder

variable {γ σ : Type*} (lib : EncodeLib γ σ) (buff : List Sample) (s : Locals γ σ)

/-- The encoder copies out the wire form of every frame, and stops for want of room
    for it. -/
theorem body_wire (h : s.lastFrames ≥ kAmrWbFrameSample)
    (hne : (encodeFrame lib buff s).2 ≠ []) (hlen : (encodeFrame lib buff s).2.length ≤ 64) :
    body lib buff s =
      if s.outputLength < (wireForm (encodeFrame lib buff s).2).length then
        .leave (s.totalSize, (encodeFrame lib buff s).1)
      else .again (copyFrame (encodeFrame lib buff s).1 (wireForm (encodeFrame lib buff s).2)
        (wireForm (encodeFrame lib buff s).2).length) := by
  have hbuff : (encodeFrame lib buff s).1.amrBuff = (encodeFrame lib buff s).2 ++
      s.amrBuff.drop (encodeFrame lib buff s).2.length := rfl
  have hroom : (encodeFrame lib buff s).1.outputLength = s.outputLength := rfl
  have htotal : (encodeFrame lib buff s).1.totalSize = s.totalSize := rfl
  have halign := amrNoOctetAlign_append (List.replicate 128 0) (encodeFrame lib buff s).2
    (s.amrBuff.drop (encodeFrame lib buff s).2.length) hne
  have hlength := length_wireForm_eq (encodeFrame lib buff s).2 hne hlen
  -- The bytes copied are all of the wire form.
  have htake : (amrNoOctetAlign (List.replicate 128 0) (encodeFrame lib buff s).2
      (encodeFrame lib buff s).2.length).1.take (wireForm (encodeFrame lib buff s).2).length =
      (wireForm (encodeFrame lib buff s).2).take (wireForm (encodeFrame lib buff s).2).length := by
    rw [List.take_length, hlength]
    rfl
  rw [body, if_neg (not_not_intro h)]
  simp only [hbuff, halign, hroom, htotal, ← hlength]
  split
  · rfl
  · unfold copyFrame
    rw [htake]

end AmrWbEnCoder

end CodecChanger
