import CodecChanger.Theory.AmrWb.BitLayout
import CodecChanger.Theory.AmrWb.RoundTrip

/-!
# What a Peer Can Make of the Encoder's Bytes

The wire form of a frame says neither how long the frame is nor how long it is itself: the
encoder copies out one byte too many, and two when the last two bits of the frame are not
zeros. A peer that goes by the frame type gets by nevertheless. The frame type is in the first
two bytes, it gives the size of the frame, and the byte behind the frame, in which those two
bits are, gives the size of the wire form.

So wire forms of storage frames can be told apart when they lie one behind the other, and from
what a call of the encoder returns its frames can be got back, bit by bit. That is more than
the decoder of the same file can do.

## Main definitions

* `headByte`, `innerByte`: The bytes of a frame, from those of its wire form.
* `unpackFrame`: The first frame, and what lies behind its wire form.
* `unpack`: All frames.

## Theorems

* `headByte_wireForm`, `innerByte_wireForm`: The bytes are those of the frame.
* `unpackFrame_append`: A wire form ends where it is seen to end.
* `unpack_flatMap`: Wire forms one behind the other.
* `unpack_encoded`: What a call of the encoder returns.
-/

namespace CodecChanger

open Bytes Loop

namespace AmrWbEnCoder

/-- The first byte of a frame, whose padding is zero: four bits are in the first byte of the
    wire form and two in the second. -/
def headByte (m : List Byte) : Byte := m.getD 0 0 <<< 4 ||| (m.getD 1 0 >>> 4 &&& 0x0c)

/-- Another byte: six bits are at its place and two in the byte behind. -/
def innerByte (m : List Byte) (i : Nat) : Byte := m.getD i 0 <<< 2 ||| m.getD (i + 1) 0 >>> 6

/-- The frame at the start of some bytes, and what lies behind its wire form. -/
def unpackFrame (m : List Byte) : List Byte × List Byte :=
  let n := blockSize (headByte m)
  (headByte m :: (List.range' 1 (n - 1)).map (innerByte m),
    m.drop (if m.getD n 0 = 0 then n + 1 else n + 2))

/-- The frames of some bytes, up to so many. -/
def unpack : Nat → List Byte → List (List Byte)
  | 0, _ => []
  | fuel + 1, m => if m = [] then [] else (unpackFrame m).1 :: unpack fuel (unpackFrame m).2

/-- Six bits of the first byte come back, with a byte of the frame behind it or without. -/
theorem head_bits (b c : Byte) :
    (0xf0 ||| b >>> 4) <<< 4 ||| ((b <<< 4 &&& 0xc0 ||| c >>> 2) >>> 4 &&& 0x0c) = b &&& 0xfc := by
  refine BitVec.eq_of_getLsbD_eq fun i hi => ?_
  have hcases : i = 0 ∨ i = 1 ∨ i = 2 ∨ i = 3 ∨ i = 4 ∨ i = 5 ∨ i = 6 ∨ i = 7 := by omega
  rcases hcases with rfl | rfl | rfl | rfl | rfl | rfl | rfl | rfl <;> simp

/-- All bits of another byte come back. -/
theorem inner_bits (a b c : Byte) :
    ((a &&& 0xc0) ||| b >>> 2) <<< 2 ||| ((b <<< 6 &&& 0xc0) ||| c >>> 2) >>> 6 = b := by
  refine BitVec.eq_of_getLsbD_eq fun i hi => ?_
  have hcases : i = 0 ∨ i = 1 ∨ i = 2 ∨ i = 3 ∨ i = 4 ∨ i = 5 ∨ i = 6 ∨ i = 7 := by omega
  rcases hcases with rfl | rfl | rfl | rfl | rfl | rfl | rfl | rfl <;> simp

section

variable (f rest : List Byte)

/-- A byte of a wire form, up to the byte behind the frame. -/
theorem getD_wireForm (hne : f ≠ []) (hlen : f.length ≤ 64) (i : Nat) (hi : i ≤ f.length) :
    (wireForm f ++ rest).getD i 0 = repackedByte f f.length i := by
  have hsize := length_wireForm f hne hlen
  have hlt : i < (wireForm f).length := by
    rw [hsize]
    split
    · omega
    · omega
  have hmap := wireForm_eq_map f hne hlen
  rw [List.getD_append _ _ _ _ hlt]
  generalize (wireForm f).length = n at hlt hmap
  rw [hmap, List.getD_eq_getElem?_getD, List.getElem?_map, List.getElem?_range hlt]
  rfl

/-- The first byte is that of the frame. -/
theorem headByte_wireForm (hf : StorageFrame f) (hlen : f.length ≤ 64) :
    headByte (wireForm f ++ rest) = f.getD 0 0 := by
  have hne : f ≠ [] := hf.1.1
  have hpos : 0 < f.length := List.length_pos_iff.mpr hne
  have hpadding : ∀ b : Byte, b &&& 0x03 = 0 → b &&& 0xfc = b := by decide
  have halone : ∀ b : Byte, b <<< 4 &&& 0xc0 = (b <<< 4 &&& 0xc0) ||| 0 >>> 2 := by decide
  -- A frame of one byte has nothing behind what is left over of it.
  have hsecond : ∃ c : Byte,
      repackedByte f f.length 1 = (f.getD 0 0 <<< 4 &&& 0xc0) ||| c >>> 2 := by
    unfold repackedByte
    by_cases hone : 1 < f.length
    · exact ⟨f.getD 1 0, if_pos hone⟩
    · refine ⟨0, ?_⟩
      rw [if_neg hone, if_pos (by omega)]
      exact halone _
  have hfirst : repackedByte f f.length 0 = 0xf0 ||| f.getD 0 0 >>> 4 := if_pos hpos
  rcases hsecond with ⟨c, hc⟩
  unfold headByte
  rw [getD_wireForm f rest hne hlen 0 (by omega), getD_wireForm f rest hne hlen 1 (by omega), hc,
    hfirst, head_bits, hpadding _ hf.2]

/-- The others are those of the frame. -/
theorem innerByte_wireForm (hne : f ≠ []) (hlen : f.length ≤ 64) (i : Nat)
    (hi : i + 1 < f.length) : innerByte (wireForm f ++ rest) (i + 1) = f.getD (i + 1) 0 := by
  have halone : ∀ b : Byte, b <<< 6 &&& 0xc0 = (b <<< 6 &&& 0xc0) ||| 0 >>> 2 := by decide
  have hmask : ∀ b : Byte, b &&& 0xc0 &&& 0xc0 = b &&& 0xc0 := by decide
  have hthis : ∃ a : Byte,
      repackedByte f f.length (i + 1) = (a &&& 0xc0) ||| f.getD (i + 1) 0 >>> 2 := by
    unfold repackedByte
    rw [if_pos hi]
    cases i with
    | zero => exact ⟨f.getD 0 0 <<< 4, rfl⟩
    | succ i => exact ⟨f.getD (i + 1) 0 <<< 6, rfl⟩
  have hnext : ∃ c : Byte,
      repackedByte f f.length (i + 1 + 1) = (f.getD (i + 1) 0 <<< 6 &&& 0xc0) ||| c >>> 2 := by
    unfold repackedByte
    by_cases hlast : i + 1 + 1 < f.length
    · exact ⟨f.getD (i + 1 + 1) 0, if_pos hlast⟩
    · refine ⟨0, ?_⟩
      rw [if_neg hlast, if_pos (by omega)]
      exact halone _
  rcases hthis with ⟨a, ha⟩
  rcases hnext with ⟨c, hc⟩
  unfold innerByte
  rw [getD_wireForm f rest hne hlen _ (by omega), getD_wireForm f rest hne hlen _ (by omega), ha,
    hc, inner_bits]

/-- A wire form at the start of some bytes is seen to end where it ends. -/
theorem unpackFrame_append (hf : StorageFrame f) (hlen : f.length ≤ 64) :
    unpackFrame (wireForm f ++ rest) = (f, rest) := by
  have hne : f ≠ [] := hf.1.1
  have hpos : 0 < f.length := List.length_pos_iff.mpr hne
  have hbehind : repackedByte f f.length f.length = carried f f.length := by
    unfold repackedByte
    rw [if_neg (Nat.lt_irrefl _), if_pos rfl]
  have hsize := length_wireForm f hne hlen
  unfold unpackFrame
  simp only []
  rw [headByte_wireForm f rest hf hlen, ← hf.1.2, getD_wireForm f rest hne hlen _ (Nat.le_refl _),
    hbehind]
  refine congrArg₂ Prod.mk ?_ ?_
  · refine List.ext_getElem ?_ fun i hi hi' => ?_
    · rw [List.length_cons, List.length_map, List.length_range']
      omega
    · cases i with
      | zero =>
          rw [List.getElem_cons_zero, List.getD_eq_getElem?_getD, List.getElem?_eq_getElem hi']
          rfl
      | succ i =>
          rw [List.getElem_cons_succ, List.getElem_map, List.getElem_range', Nat.one_mul,
            Nat.add_comm 1 i, innerByte_wireForm f rest hne hlen i hi',
            List.getD_eq_getElem?_getD, List.getElem?_eq_getElem hi']
          rfl
  · refine List.drop_left' ?_
    rw [hsize]
    by_cases hclear : LastBitsClear f
    · rw [if_pos hclear, if_pos ((carried_eq_zero_iff f hne).mpr hclear)]
    · rw [if_neg hclear, if_neg fun hc => hclear ((carried_eq_zero_iff f hne).mp hc)]

end

/-- Wire forms one behind the other give the frames. -/
theorem unpack_flatMap (frames : List (List Byte))
    (hframes : ∀ f ∈ frames, StorageFrame f ∧ f.length ≤ 64) (fuel : Nat)
    (hfuel : (frames.flatMap wireForm).length ≤ fuel) :
    unpack fuel (frames.flatMap wireForm) = frames := by
  induction frames generalizing fuel with
  | nil =>
      cases fuel with
      | zero => rfl
      | succ fuel => rfl
  | cons f frames ih =>
      rcases hframes f List.mem_cons_self with ⟨hf, hlen⟩
      have hsize := length_wireForm f hf.1.1 hlen
      have hpos : 0 < f.length := List.length_pos_iff.mpr hf.1.1
      rw [List.flatMap_cons, List.length_append] at hfuel
      cases fuel with
      | zero => omega
      | succ fuel =>
          have hnil : wireForm f ++ frames.flatMap wireForm ≠ [] := by
            refine List.length_pos_iff.mp ?_
            rw [List.length_append]
            omega
          rw [List.flatMap_cons, unpack, if_neg hnil, unpackFrame_append f _ hf hlen,
            ih (fun g hg => hframes g (List.mem_cons_of_mem f hg)) fuel (by omega)]

variable {γ σ : Type*} (lib : EncodeLib γ σ)

/-- No storage frame has more than 61 bytes. -/
theorem length_storageFrame (f : List Byte) (hf : StorageFrame f) :
    1 ≤ f.length ∧ f.length ≤ 61 := by
  have hlt : frameMode (f.getD 0 0) < 16 := Nat.and_lt_two_pow _ (by decide : 0x0f < 2 ^ 4)
  have htable : ∀ mode < 16, kAmrBlockSize.getD mode 0 ≤ 61 := by decide
  refine ⟨List.length_pos_iff.mpr hf.1.1, ?_⟩
  rw [hf.1.2]
  exact htable _ hlt

/-- What a call encodes is storage frames when all that the library makes is. -/
theorem storage_encoded (hstorage : ∀ g mode l dtx, StorageFrame (lib.eIfEncode g mode l dtx).2)
    (fresh : Nat → Sample) (q : AmrWbEnCoder γ σ) (data : List Byte)
    (length outputLength : Int) (r : Int × Locals γ σ)
    (hr : Codec lib fresh q data length outputLength r) : ∀ f ∈ r.2.encoded, StorageFrame f := by
  have hone : ∀ buff (s : Locals γ σ), (∀ f ∈ s.encoded, StorageFrame f) →
      ∀ f ∈ s.encoded ++ [(encodeFrame lib buff s).2], StorageFrame f := by
    intro buff s hs f hf
    rcases List.mem_append.mp hf with hf | hf
    · exact hs f hf
    · rw [List.mem_singleton.mp hf]
      exact hstorage _ _ _ _
  have hnone : ∀ f ∈ ([] : List (List Byte)), StorageFrame f :=
    fun f hf => absurd hf List.not_mem_nil
  unfold Codec at hr
  split at hr
  · rw [hr]
    exact hnone
  · simp only [] at hr
    split at hr
    · rw [hr]
      exact hnone
    · refine gives_invariant (fun s => ∀ f ∈ s.encoded, StorageFrame f)
        (fun r => ∀ f ∈ r.2.encoded, StorageFrame f) (fun s t hs hb => ?_) (fun s r hs hb => ?_) _ r
        hnone hr
      · rcases body_again lib _ s t hb with ⟨-, alignBuff, codecSize, -, -, rfl⟩
        exact hone _ s hs
      · rcases body_leave lib _ s r hb with rfl | rfl
        · exact hs
        · exact hone _ s hs

/-- A call of the encoder ends, and from the bytes it returns, whatever the room for them was,
    a peer gets back the frames that were encoded, but for the last one when its wire form
    had no room behind theirs. -/
theorem unpack_encoded (hstorage : ∀ g mode l dtx, StorageFrame (lib.eIfEncode g mode l dtx).2)
    (fresh : Nat → Sample) (q : AmrWbEnCoder γ σ) (data : List Byte)
    (length outputLength : Int) :
    ∃ r, Codec lib fresh q data length outputLength r ∧ ∃ last : List (List Byte),
      r.2.encoded = unpack r.2.written.length r.2.written ++ last ∧
        (last = [] ∨
          ∃ f, last = [f] ∧ outputLength < r.2.written.length + (wireForm f).length) := by
  have hends : ∃ r, Codec lib fresh q data length outputLength r := by
    unfold Codec
    split
    · exact ⟨_, rfl⟩
    · simp only []
      split
      · exact ⟨_, rfl⟩
      · exact encoder_returns lib _ _
  rcases hends with ⟨r, hr⟩
  have hbounds : ∀ buff s, 1 ≤ (encodeFrame lib buff s).2.length ∧
      (encodeFrame lib buff s).2.length ≤ 64 := by
    intro buff s
    rcases length_storageFrame _ (hstorage s.coderBase kAmrEncodeMode _ kAmrAllowDtx) with
      ⟨hpos, hle⟩
    exact ⟨hpos, Nat.le_trans hle (by decide)⟩
  rcases codec_copied lib fresh q data length outputLength r hbounds hr with
    ⟨frames, last, hencoded, hwritten, hlast⟩
  have hall := storage_encoded lib hstorage fresh q data length outputLength r hr
  have hback : unpack r.2.written.length r.2.written = frames := by
    rw [hwritten]
    refine unpack_flatMap frames (fun f hf => ?_) _ (Nat.le_refl _)
    have hf' := hall f (hencoded ▸ List.mem_append_left last hf)
    exact ⟨hf', Nat.le_trans (length_storageFrame f hf').2 (by decide)⟩
  exact ⟨r, hr, last, by rw [hback, hencoded], hlast⟩

/-- Two frames of input, and room for one. -/
theorem unpack_encoded_steady :
    ∃ r, Codec steady (fun _ => 0) ⟨(), (), []⟩ (List.replicate 640 0) 640 100 r ∧
      ∃ last : List (List Byte), r.2.encoded = unpack r.2.written.length r.2.written ++ last ∧
        (last = [] ∨
          ∃ f, last = [f] ∧ (100 : Int) < r.2.written.length + (wireForm f).length) :=
  unpack_encoded steady storageFrame_steady (fun _ => 0) ⟨(), (), []⟩ (List.replicate 640 0) 640
    100

end AmrWbEnCoder

end CodecChanger
