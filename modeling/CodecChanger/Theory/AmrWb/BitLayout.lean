import CodecChanger.Lib.Bits
import CodecChanger.Theory.AmrWb.Repacking

/-!
# The Bits of a Repacked Frame

What the encoder copies out for a frame, as a string of bits.

A byte of the repacked frame is the two bits left over from the byte before and the six
upper bits of the frame's own. So the bytes up to some place, and the two bits that are
left over there, are four ones and the frame up to that place, without the two padding
bits of its first byte. At the end of the frame the two bits left over make a byte with
six zeros behind them, and what else is copied out is zeros.

The frame can be read off such a string, but for the padding, once it is known how long
it is. It does not say so itself: a zero byte at the end of a frame and no byte there
may look alike.

## Main definitions

* `layout`: The string without the zeros at its end.
* `Copied`, `Copying`: The frames encoded are written as such strings.

## Theorems

* `bits_first`, `bits_carried_or`, `bits_carried`: The bytes of a repacked frame.
* `bitString_repacked`: The bytes up to some place.
* `bitString_wireForm`: What is copied out.
* `amrNoOctetAlign_outside`: Nothing else is written.
* `layout_injective`, `wireForm_recovers`: What the string says of the frame.
* `written_of_again`, `codec_copied`: Where the encoder copies it out.
* `repacked_bits`: All of it, for a frame that the encoder copies out.
-/

namespace CodecChanger

open Bytes Bits Loop

/-- Four ones, the upper six bits of the first byte, and the bits of all others. -/
def layout (src : List Byte) : List Bool :=
  List.replicate 4 true ++ (bits (src.getD 0 0)).take 6 ++ bitString src.tail

/-- The first byte has four ones and the upper half of the frame's first. -/
theorem bits_first (b : Byte) :
    bits ((0xf0 : Byte) ||| b >>> 4) = List.replicate 4 true ++ (bits b).take 4 :=
  bits_shift_or (0x0f : Byte) b 4 (by decide)

/-- What is left over of a byte is its two lowest bits, and of the first byte the two
    above the padding. -/
theorem take_carried (src : List Byte) (i : Nat) :
    (bits (carried src (i + 1))).take 2 =
      if i = 0 then ((bits (src.getD 0 0)).drop 4).take 2 else (bits (src.getD i 0)).drop 6 := by
  have hone : ∀ b : Byte, (bits (b <<< 4 &&& 0xc0)).take 2 = ((bits b).drop 4).take 2 := by decide
  have hmore : ∀ b : Byte, (bits (b <<< 6 &&& 0xc0)).take 2 = (bits b).drop 6 := by decide
  cases i with
  | zero => exact hone _
  | succ i => exact hmore _

/-- It lies at the upper end of its byte. -/
theorem carried_eq_shiftLeft (src : List Byte) (i : Nat) (hi : 0 < i) :
    ∃ c : Byte, carried src i = c <<< 6 := by
  have hone : ∀ b : Byte, b <<< 4 &&& 0xc0 = (b >>> 2) <<< 6 := by decide
  have hmore : ∀ b : Byte, b <<< 6 &&& 0xc0 = b <<< 6 := by decide
  match i, hi with
  | 1, _ => exact ⟨_, hone _⟩
  | i + 2, _ => exact ⟨_, hmore _⟩

/-- There are six zeros behind it. -/
theorem bits_carried (src : List Byte) (i : Nat) (hi : 0 < i) :
    bits (carried src i) = (bits (carried src i)).take 2 ++ List.replicate 6 false := by
  rcases carried_eq_shiftLeft src i hi with ⟨c, hc⟩
  have hshift := bits_shiftLeft c 6 (by decide)
  have htwo : ((bits c).drop 6).length = 2 := by rw [List.length_drop, length_bits]
  rw [hc, hshift, List.take_left' htwo]

/-- Or the upper six bits of the next byte. -/
theorem bits_carried_or (src : List Byte) (i : Nat) (hi : 0 < i) (b : Byte) :
    bits (carried src i ||| b >>> 2) = (bits (carried src i)).take 2 ++ (bits b).take 6 := by
  rcases carried_eq_shiftLeft src i hi with ⟨c, hc⟩
  have hor := bits_shift_or c b 6 (by decide)
  have hshift := bits_shiftLeft c 6 (by decide)
  have htwo : ((bits c).drop 6).length = 2 := by rw [List.length_drop, length_bits]
  rw [hc, hshift, List.take_left' htwo]
  exact hor

/-- The bytes up to some place and what is left over there are the frame up to that
    place. -/
theorem bitString_repacked (src : List Byte) (n : Nat) (hn : n < src.length) :
    bitString ((List.range (n + 1)).map (repackedByte src src.length)) ++
        (bits (carried src (n + 1))).take 2 = layout (src.take (n + 1)) := by
  have hfirst : (src.take (n + 1)).getD 0 0 = src.getD 0 0 := getD_take src (n + 1) 0 (by omega)
  unfold layout
  rw [hfirst]
  clear hfirst
  induction n with
  | zero =>
      -- The first byte gives six of its bits, four and then two.
      have hbyte : repackedByte src src.length 0 = (0xf0 : Byte) ||| src.getD 0 0 >>> 4 := if_pos hn
      have htail : (src.take 1).tail = [] := by
        cases src with
        | nil => rfl
        | cons b src => rfl
      have hsix : (bits (src.getD 0 0)).take 6 =
          (bits (src.getD 0 0)).take 4 ++ ((bits (src.getD 0 0)).drop 4).take 2 :=
        List.take_add (i := 4) (j := 2)
      change bitString [repackedByte src src.length 0] ++ _ = _
      rw [bitString_cons, hbyte, bits_first, take_carried, if_pos rfl, htail, hsix]
      simp only [bitString, List.flatMap_nil, List.append_nil, List.append_assoc]
  | succ n ih =>
      have hbyte : repackedByte src src.length (n + 1) =
          carried src (n + 1) ||| src.getD (n + 1) 0 >>> 2 := by
        unfold repackedByte moved
        rw [if_pos hn, if_neg (Nat.succ_ne_zero n)]
      have hlast : src.take (n + 1 + 1) = src.take (n + 1) ++ [src.getD (n + 1) 0] := by
        rw [List.take_add_one, List.getD_eq_getElem?_getD, List.getElem?_eq_getElem hn]
        rfl
      have htail : (src.take (n + 1 + 1)).tail =
          (src.take (n + 1)).tail ++ [src.getD (n + 1) 0] := by
        rw [hlast, List.tail_append_of_ne_nil]
        intro hnil
        have hlen := congrArg List.length hnil
        rw [List.length_take, List.length_nil] at hlen
        omega
      have hover : (bits (carried src (n + 1 + 1))).take 2 =
          (bits (src.getD (n + 1) 0)).drop 6 := by
        rw [take_carried src (n + 1), if_neg (Nat.succ_ne_zero n)]
      have hone : ∀ b : Byte, bitString [b] = bits b := fun b => List.append_nil _
      -- The byte takes what was left over, and with what it leaves over is whole.
      rw [List.range_succ, List.map_append, bitString_append, List.map_singleton, hone, hbyte,
        bits_carried_or src (n + 1) (Nat.succ_pos n), hover, htail, bitString_append, hone,
        ← List.append_assoc _ (bitString _) (bits _), ← ih (by omega), List.append_assoc,
        List.append_assoc, List.append_assoc, List.take_append_drop]

/-- The bytes that are copied out are those of the repacked frame. -/
theorem wireForm_eq_map (src : List Byte) (hne : src ≠ []) (hlen : src.length ≤ 64) :
    wireForm src =
      (List.range (wireForm src).length).map (repackedByte src src.length) := by
  have hpos : 0 < src.length := List.length_pos_iff.mpr hne
  have hbuff := (amrNoOctetAlign_getD src src.length hpos (by omega)).2
  refine List.ext_getElem (by rw [List.length_map, List.length_range]) fun i hi hi' => ?_
  have hget : (wireForm src).getD i 0 = repackedByte src src.length i := by
    rw [← hbuff i]
    exact getD_take _ _ i (Nat.lt_of_lt_of_le hi (List.length_take_le _ _))
  rw [List.getD_eq_getElem?_getD, List.getElem?_eq_getElem hi, Option.getD_some] at hget
  rw [hget, List.getElem_map, List.getElem_range]

/-- What is copied out for a frame is its bits and zeros. -/
theorem bitString_wireForm (src : List Byte) (hne : src ≠ []) (hlen : src.length ≤ 64) :
    bitString (wireForm src) =
      layout src ++ List.replicate (if LastBitsClear src then 6 else 14) false := by
  have hpos : 0 < src.length := List.length_pos_iff.mpr hne
  have hone : ∀ b : Byte, bitString [b] = bits b := fun b => List.append_nil _
  have hrepacked := bitString_repacked src (src.length - 1) (by omega)
  rw [Nat.sub_add_cancel hpos, List.take_length] at hrepacked
  have hlast : repackedByte src src.length src.length = carried src src.length := by
    rw [repackedByte, if_neg (Nat.lt_irrefl _), if_pos rfl]
  -- Up to the two bits that are over at the end, which take a byte of their own.
  have hframe : bitString ((List.range (src.length + 1)).map (repackedByte src src.length)) =
      layout src ++ List.replicate 6 false := by
    rw [List.range_succ, List.map_append, bitString_append, List.map_singleton, hone, hlast,
      bits_carried src src.length hpos, ← List.append_assoc, hrepacked]
  rw [wireForm_eq_map src hne hlen, length_wireForm src hne hlen]
  by_cases hclear : LastBitsClear src
  · rw [if_pos hclear, if_pos hclear, hframe]
  · have hbeyond : repackedByte src src.length (src.length + 1) = 0 := by
      rw [repackedByte, if_neg (by omega), if_neg (by omega)]
    have hzero : bits (0 : Byte) = List.replicate 8 false := bits_zero
    rw [if_neg hclear, if_neg hclear, List.range_succ, List.map_append, bitString_append, hframe,
      List.map_singleton, hone, hbeyond, hzero, List.append_assoc, List.replicate_append_replicate]

/-- Behind the byte `len` of its buffer `AMRNoOctetAlign` writes nothing. -/
theorem amrNoOctetAlign_outside (tar src : List Byte) (len i : Nat) (hpos : 0 < len)
    (hi : len < i) : (amrNoOctetAlign tar src len).1[i]? = tar[i]? := by
  have hloop : ∀ (offsets : List Nat) (l : List Byte), (∀ j ∈ offsets, j < len) →
      (offsets.foldl (alignRound src) l)[i]? = l[i]? := by
    intro offsets
    induction offsets with
    | nil => intro l _; rfl
    | cons j offsets ih =>
        intro l hj
        have hlt := hj j List.mem_cons_self
        rw [List.foldl_cons, ih _ fun k hk => hj k (List.mem_cons_of_mem j hk), alignRound,
          List.getElem?_set_ne (by omega), List.getElem?_set_ne (by omega)]
  have hrounds := hloop (List.range' 1 (len - 1))
    ((tar.set 0 (0xf0 ||| src.getD 0 0 >>> 4)).set 1 (src.getD 0 0 <<< 4 &&& 0xc0))
    fun j hj => by have hrange := List.mem_range'_1.mp hj; omega
  rw [List.getElem?_set_ne (by omega), List.getElem?_set_ne (by omega)] at hrounds
  exact hrounds

/-- A zero byte at the end of a frame is eight more zeros. -/
theorem layout_append_zeros (src : List Byte) (hne : src ≠ []) (m : Nat) :
    layout (src ++ List.replicate m 0) = layout src ++ List.replicate (8 * m) false := by
  have hfirst : (src ++ List.replicate m 0).getD 0 0 = src.getD 0 0 :=
    List.getD_append _ _ _ _ (List.length_pos_iff.mpr hne)
  have hzeros : bitString (List.replicate m (0 : Byte)) = List.replicate (8 * m) false :=
    bitString_zeros m
  unfold layout
  rw [hfirst, List.tail_append_of_ne_nil hne, bitString_append, hzeros, List.append_assoc _
    (bitString _)]

/-- The string of a frame says what its bytes are, but for the padding. -/
theorem layout_injective (src src' : List Byte) (hlen : src.length = src'.length)
    (h : layout src = layout src') :
    src.getD 0 0 >>> 2 = src'.getD 0 0 >>> 2 ∧ src.tail = src'.tail := by
  have hsix : ∀ b : Byte, ((bits b).take 6).length = 6 := fun b => by
    rw [List.length_take, length_bits]
    rfl
  have hupper : ∀ b : Byte, bits (b >>> 2) = List.replicate 2 false ++ (bits b).take 6 :=
    fun b => bits_ushiftRight b 6 (by decide)
  rcases List.append_inj h (by rw [List.length_append, List.length_append, hsix, hsix])
    with ⟨hhead, htail⟩
  constructor
  · refine bits_injective _ _ ?_
    rw [hupper, hupper, (List.append_inj hhead rfl).2]
  · exact bitString_injective _ _ (by rw [List.length_tail, List.length_tail, hlen]) htail

/-- Two frames with one wire form differ in the padding and in zero bytes at the end of
    the longer one. -/
theorem wireForm_eq_append (src src' : List Byte) (hne : src ≠ []) (hlen : src.length ≤ 64)
    (hlen' : src'.length ≤ 64) (hle : src.length ≤ src'.length)
    (hwire : wireForm src = wireForm src') :
    src.getD 0 0 >>> 2 = src'.getD 0 0 >>> 2 ∧
      src.tail ++ List.replicate (src'.length - src.length) 0 = src'.tail := by
  have hpos : 0 < src.length := List.length_pos_iff.mpr hne
  have hne' : src' ≠ [] := List.length_pos_iff.mp (by omega)
  have hstring := congrArg bitString hwire
  rw [bitString_wireForm src hne hlen, bitString_wireForm src' hne' hlen'] at hstring
  generalize (if LastBitsClear src then 6 else 14) = k at hstring
  generalize (if LastBitsClear src' then 6 else 14) = k' at hstring
  have hlength : ∀ l : List Byte, (layout l).length = 10 + 8 * (l.length - 1) := by
    intro l
    unfold layout
    rw [List.length_append, List.length_append, List.length_replicate, List.length_take,
      length_bits, length_bitString, List.length_tail]
    omega
  generalize hm : src'.length - src.length = m
  -- The zeros behind the shorter frame take in the bytes that the longer one has more.
  have hk : k = 8 * m + k' := by
    have hsize := congrArg List.length hstring
    rw [List.length_append, List.length_append, hlength, hlength, List.length_replicate,
      List.length_replicate] at hsize
    omega
  rw [hk, ← List.replicate_append_replicate, ← List.append_assoc,
    ← layout_append_zeros src hne] at hstring
  have hsame : (src ++ List.replicate m 0).length = src'.length := by
    rw [List.length_append, List.length_replicate]
    omega
  have hlayout := (List.append_inj hstring (by rw [hlength, hlength, hsame])).1
  have hframe := layout_injective _ _ hsame hlayout
  rw [List.getD_append _ _ _ _ hpos, List.tail_append_of_ne_nil hne] at hframe
  exact hframe

/-- The frame can be read off its wire form, but for the padding and for zero bytes at
    its end. -/
theorem wireForm_recovers (src src' : List Byte) (hne : src ≠ []) (hne' : src' ≠ [])
    (hlen : src.length ≤ 64) (hlen' : src'.length ≤ 64) (hwire : wireForm src = wireForm src') :
    src.getD 0 0 >>> 2 = src'.getD 0 0 >>> 2 ∧ (∀ i, 0 < i → src.getD i 0 = src'.getD i 0) ∧
      (src.length = src'.length → src.tail = src'.tail) := by
  wlog hle : src.length ≤ src'.length generalizing src src'
  · have hswap := this src' src hne' hne hlen' hlen hwire.symm (by omega)
    exact ⟨hswap.1.symm, fun i hi => (hswap.2.1 i hi).symm, fun h => (hswap.2.2 h.symm).symm⟩
  rcases wireForm_eq_append src src' hne hlen hlen' hle hwire with ⟨hfirst, htail⟩
  refine ⟨hfirst, fun i hi => ?_, fun hsame => ?_⟩
  · have hbehind : ∀ l : List Byte, l.getD i 0 = l.tail.getD (i - 1) 0 := by
      intro l
      rw [List.getD_eq_getElem?_getD, List.getD_eq_getElem?_getD, List.getElem?_tail,
        Nat.sub_add_cancel hi]
    rw [hbehind src, hbehind src', ← htail, getD_append_zeros]
  · rw [← htail, hsame, Nat.sub_self, List.replicate_zero, List.append_nil]

namespace AmrWbEnCoder

variable {γ σ : Type*} (lib : EncodeLib γ σ)

/-- A round that is gone round after copies out the wire form of its frame. -/
theorem written_of_again (buff : List Sample) (s t : Locals γ σ)
    (hne : (encodeFrame lib buff s).2 ≠ []) (hlen : (encodeFrame lib buff s).2.length ≤ 64)
    (hbody : body lib buff s = .again t) :
    t.written = s.written ++ wireForm (encodeFrame lib buff s).2 := by
  have hround : s.lastFrames ≥ kAmrWbFrameSample := (body_again lib buff s t hbody).1
  rw [body_wire lib buff s hround hne hlen] at hbody
  split at hbody
  · exact absurd hbody (by simp only [reduceCtorEq, not_false_eq_true])
  · rw [← Next.again.inj hbody]
    unfold copyFrame
    rw [encodeFrame_written, List.take_length]

/-- The wire forms of the frames encoded are written one behind the other, but for the last
    one when there was no room for it behind the others. -/
def Copied (outputLength : Int) (encoded : List (List Byte)) (written : List Byte) : Prop :=
  ∃ frames rest, encoded = frames ++ rest ∧ written = frames.flatMap wireForm ∧
    (rest = [] ∨ ∃ f, rest = [f] ∧ outputLength < written.length + (wireForm f).length)

/-- All frames so far are written, and the room left is what they leave of the output. -/
def Copying (outputLength : Int) (s : Locals γ σ) : Prop :=
  s.written = s.encoded.flatMap wireForm ∧ s.outputLength + s.written.length = outputLength

section

variable (outputLength : Int) (buff : List Sample) (s : Locals γ σ)
  (hpos : 1 ≤ (encodeFrame lib buff s).2.length) (hle : (encodeFrame lib buff s).2.length ≤ 64)

include hpos hle

/-- A round that is gone round after copies out its frame. -/
theorem copying_again (t : Locals γ σ) (hs : Copying outputLength s)
    (hbody : body lib buff s = .again t) : Copying outputLength t := by
  have hne := List.length_pos_iff.mp hpos
  rw [body_wire lib buff s (body_again lib buff s t hbody).1 hne hle] at hbody
  split at hbody
  · exact absurd hbody (by simp only [reduceCtorEq, not_false_eq_true])
  · rcases hs with ⟨hwritten, hroom⟩
    rw [← Next.again.inj hbody]
    unfold Copying copyFrame
    simp only [encodeFrame_written, encodeFrame_encoded, encodeFrame_outputLength,
      List.take_length, List.flatMap_append, List.flatMap_singleton, List.length_append, hwritten,
      true_and]
    rw [hwritten] at hroom
    push_cast
    omega

/-- The last round leaves the frame out that there is no room for. -/
theorem copied_leave (r : Int × Locals γ σ) (hs : Copying outputLength s)
    (hbody : body lib buff s = .leave r) : Copied outputLength r.2.encoded r.2.written := by
  have hne := List.length_pos_iff.mp hpos
  rcases hs with ⟨hwritten, hroom⟩
  by_cases hround : s.lastFrames ≥ kAmrWbFrameSample
  · rw [body_wire lib buff s hround hne hle] at hbody
    split at hbody
    · rename_i hshort
      rw [← Next.leave.inj hbody]
      exact ⟨s.encoded, [(encodeFrame lib buff s).2], rfl, hwritten, Or.inr ⟨_, rfl, by
        simp only [encodeFrame_written]
        omega⟩⟩
    · exact absurd hbody (by simp only [reduceCtorEq, not_false_eq_true])
  · rw [body_done lib buff s hround] at hbody
    rw [← Next.leave.inj hbody]
    exact ⟨s.encoded, [], (List.append_nil _).symm, hwritten, Or.inl rfl⟩

end

/-- A whole call copies out its frames, and leaves out the last for want of room. -/
theorem codec_copied (fresh : Nat → Sample) (q : AmrWbEnCoder γ σ) (data : List Byte)
    (length outputLength : Int) (r : Int × Locals γ σ)
    (hlib : ∀ buff s, 1 ≤ (encodeFrame lib buff s).2.length ∧
      (encodeFrame lib buff s).2.length ≤ 64)
    (hr : Codec lib fresh q data length outputLength r) :
    Copied outputLength r.2.encoded r.2.written := by
  have hnone : Copied outputLength [] [] := ⟨[], [], rfl, rfl, Or.inl rfl⟩
  unfold Codec at hr
  split at hr
  · rw [hr]
    exact hnone
  simp only [] at hr
  split at hr
  · rw [hr]
    exact hnone
  · exact gives_invariant (Copying outputLength)
      (fun r => Copied outputLength r.2.encoded r.2.written)
      (fun s t hs hb => copying_again lib outputLength _ s (hlib _ s).1 (hlib _ s).2 t hs hb)
      (fun s r hs hb => copied_leave lib outputLength _ s (hlib _ s).1 (hlib _ s).2 r hs hb) _ r
      ⟨rfl, add_zero _⟩ hr

/-- A frame is copied out as four ones, its bits without the padding, and zeros, and
    `AMRNoOctetAlign` writes no byte behind the one of its last bits. So of all frames
    that are copied out alike, whatever the codec library made them of, it is known what
    they are but for the padding: every byte at its place, with a byte that is zero and
    one that is not there taken for the same, and the whole frame when its length is
    known. -/
theorem repacked_bits (buff : List Sample) (s t : Locals γ σ) (src : List Byte)
    (hpos : 1 ≤ src.length) (hle : src.length ≤ 64) (hframe : (encodeFrame lib buff s).2 = src)
    (hbody : body lib buff s = .again t) :
    ∃ emitted zeros, t.written = s.written ++ emitted ∧
      bitString emitted = [true, true, true, true] ++ (bits (src.getD 0 0)).take 6 ++
        bitString src.tail ++ List.replicate zeros false ∧
      (∀ tar i, src.length < i →
        (amrNoOctetAlign tar (encodeFrame lib buff s).1.amrBuff src.length).1[i]? = tar[i]?) ∧
      ∀ (lib' : EncodeLib γ σ) buff' s' t' src', 1 ≤ src'.length → src'.length ≤ 64 →
        (encodeFrame lib' buff' s').2 = src' → body lib' buff' s' = .again t' →
        t'.written = s'.written ++ emitted →
        src'.getD 0 0 >>> 2 = src.getD 0 0 >>> 2 ∧
          (∀ i, 0 < i → src'.getD i 0 = src.getD i 0) ∧
          (src'.length = src.length → src'.tail = src.tail) := by
  have hne : src ≠ [] := List.length_pos_iff.mp hpos
  have hwritten := written_of_again lib buff s t (by rw [hframe]; exact hne)
    (by rw [hframe]; exact hle) hbody
  rw [hframe] at hwritten
  refine ⟨wireForm src, if LastBitsClear src then 6 else 14, hwritten,
    bitString_wireForm src hne hle,
    fun tar i hi => amrNoOctetAlign_outside tar _ src.length i hpos hi, ?_⟩
  intro lib' buff' s' t' src' hpos' hle' hframe' hbody' hsame
  have hne' : src' ≠ [] := List.length_pos_iff.mp hpos'
  have hwritten' := written_of_again lib' buff' s' t' (by rw [hframe']; exact hne')
    (by rw [hframe']; exact hle') hbody'
  rw [hframe', hsame] at hwritten'
  exact wireForm_recovers src' src hne' hne hle' hle (List.append_cancel_left hwritten').symm

/-- A library whose every frame is of three bytes. -/
def threeBytes : EncodeLib Unit Unit where
  eIfEncode _ _ _ _ := ((), [0x44, 0x81, 0x07])
  convert _ _ _ _ := ((), { written := [], ret := 0 })

/-- The bits of `0x44` without its padding are `010001`. Those of `0x81` and `0x07`
    follow. -/
theorem repacked_bits_three : ∃ t,
    body threeBytes [] (enter ⟨(), (), []⟩ () 320 10) = .again t ∧ ∃ zeros, bitString t.written =
      [true, true, true, true] ++ [false, true, false, false, false, true] ++
        [true, false, false, false, false, false, false, true,
          false, false, false, false, false, true, true, true] ++
        List.replicate zeros false := by
  refine ⟨_, rfl, ?_⟩
  have hbits := repacked_bits threeBytes [] (enter ⟨(), (), []⟩ () 320 10) _ [0x44, 0x81, 0x07]
    (by decide) (by decide) rfl rfl
  rcases hbits with ⟨emitted, zeros, hwritten, hstring, -⟩
  exact ⟨zeros, by rw [hwritten]; exact hstring⟩

end AmrWbEnCoder

end CodecChanger
