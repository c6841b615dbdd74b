import CodecChanger.Core.White
import CodecChanger.Theory.AmrWb.Bounds
import CodecChanger.Theory.AmrWb.Repacking
import Mathlib.Algebra.BigOperators.Group.List.Basic

/-!
# The White Frames of the AMR-WB Coders

The encoder is asked for some silent frames and is to make as many, repacked as its
other frames are. Its loop does not count frames but goes round once for each byte
of the output, and stops with an error when the output is full. Since a frame has a
byte at least, it comes to its end only when every frame has one byte, and then the
frames are as many as there are bytes. That is never what was asked for, except
where there is no room and nothing was.

The decoder checks that there is room for its frames of 8 kHz PCM, lets
`D_IF_decode` write one frame of 16 kHz PCM to the output, and clears the frames it
was asked for. The frame of 16 kHz is as long as two of the others. For one frame
the second half of it stays, behind what is returned and, in a buffer of just the
size, behind its end. For very many frames the length goes round, and what is left
of it may be too small as well.

## Main definitions

* `silentFrame`, `silentFrames`: What `E_IF_encode` makes of silence.
* `WhiteAsRequested`: The encoder's white frames are those asked for.
* `WhiteStays`: The decoder writes to the output and to what it returns only.

## Theorems

* `whiteLoop_cases`: The encoder's loop fails, or copies a frame in every round.
* `whiteAsRequested_iff`: Only without any room.
* `whiteStays_iff_covers`: When what is cleared covers what was decoded.
* `whiteStays_iff`: From two frames on, as long as their product is an `int`.
-/

namespace CodecChanger

open Bytes MachineInt

variable {γ σ : Type*}

namespace AmrWbEnCoder

/-- A call of `E_IF_encode` on silence. -/
def silentFrame (lib : EncodeLib γ σ) (coderBase : γ) : γ × List Byte :=
  lib.eIfEncode coderBase kAmrEncodeMode (whiteBuff.take kAmrWbFrameSample) kAmrAllowDtx

/-- The state after some such calls. -/
def afterSilence (lib : EncodeLib γ σ) (coderBase : γ) : Nat → γ
  | 0 => coderBase
  | n + 1 => afterSilence lib (silentFrame lib coderBase).1 n

/-- The frames they make. -/
def silentFrames (lib : EncodeLib γ σ) (coderBase : γ) : Nat → List (List Byte)
  | 0 => []
  | n + 1 => (silentFrame lib coderBase).2 :: silentFrames lib (silentFrame lib coderBase).1 n

/-- `GetWhite` succeeds with as many silent frames as it was asked for, one behind
    the other and in the form that `Codec` sends frames in. -/
def WhiteAsRequested (lib : EncodeLib γ σ) (q : AmrWbEnCoder γ σ) (length : Int)
    (frames : Nat) : Prop :=
  (getWhite lib q length frames).2 =
    { ret := (((silentFrames lib q.coderBase frames).flatMap wireForm).length : Int)
      written := (silentFrames lib q.coderBase frames).flatMap wireForm }

/-- What is assumed of `E_IF_encode`: a frame has between 1 and 61 bytes. -/
def FramesBounded (lib : EncodeLib γ σ) : Prop :=
  ∀ g mode samples dtx, 1 ≤ (lib.eIfEncode g mode samples dtx).2.length ∧
    (lib.eIfEncode g mode samples dtx).2.length ≤ 61

variable (lib : EncodeLib γ σ) (q : AmrWbEnCoder γ σ) (length : Int)

theorem length_silentFrames (g : γ) (n : Nat) : (silentFrames lib g n).length = n := by
  induction n generalizing g with
  | zero => rfl
  | succ n ih => rw [silentFrames, List.length_cons, ih]

/-- More frames begin with fewer. -/
theorem silentFrames_add (g : γ) (m n : Nat) :
    silentFrames lib g (m + n) =
      silentFrames lib g m ++ silentFrames lib (afterSilence lib g m) n := by
  induction m generalizing g with
  | zero => rw [Nat.zero_add]; rfl
  | succ m ih =>
      rw [show m + 1 + n = m + n + 1 by omega, silentFrames, ih]
      rfl

theorem mem_silentFrames (hlib : FramesBounded lib) (g : γ) (n : Nat) (f : List Byte)
    (hf : f ∈ silentFrames lib g n) : 1 ≤ f.length ∧ f.length ≤ 61 := by
  induction n generalizing g with
  | zero => exact absurd hf List.not_mem_nil
  | succ n ih =>
      rcases List.mem_cons.mp hf with hhead | htail
      · rw [hhead]
        exact hlib _ _ _ _
      · exact ih _ htail

/-- The loop fails, or it copies a frame in every round, and the bytes fit. -/
theorem whiteLoop_cases (n : Nat) (total : Int) (output : List Byte) (hfit : total ≤ length) :
    (whiteLoop lib length n q total output).2.ret = -1 ∨
      (whiteLoop lib length n q total output).2.ret =
          total + ((silentFrames lib q.coderBase n).map List.length).sum ∧
        (whiteLoop lib length n q total output).2.ret ≤ length := by
  induction n generalizing q total output with
  | zero =>
      refine Or.inr ⟨?_, hfit⟩
      rw [silentFrames, List.map_nil, List.sum_nil, Nat.cast_zero, Int.add_zero]
      rfl
  | succ n ih =>
      unfold whiteLoop
      simp only []
      rw [if_neg (by omega)]
      split
      · exact Or.inl rfl
      · rename_i hroom
        -- The state, the total and the output at the end of the round.
        rcases ih { q with
            coderBase := (silentFrame lib q.coderBase).1
            amrBuff := (silentFrame lib q.coderBase).2 ++
              q.amrBuff.drop (silentFrame lib q.coderBase).2.length }
          (total + (silentFrame lib q.coderBase).2.length)
          (output ++ ((silentFrame lib q.coderBase).2 ++
            q.amrBuff.drop (silentFrame lib q.coderBase).2.length).take
              (silentFrame lib q.coderBase).2.length) (not_lt.mp hroom) with hfail | ⟨hret, hle⟩
        · exact Or.inl hfail
        · refine Or.inr ⟨hret.trans ?_, hle⟩
          rw [silentFrames, List.map_cons, List.sum_cons]
          push_cast
          omega

/-- The wire form of frames is at most two bytes longer for each. -/
theorem length_flatMap_wireForm (l : List (List Byte))
    (hl : ∀ f ∈ l, 1 ≤ f.length ∧ f.length ≤ 61) :
    (l.flatMap wireForm).length ≤ (l.map List.length).sum + 2 * l.length := by
  induction l with
  | nil => exact Nat.zero_le _
  | cons f l ih =>
      rcases hl f List.mem_cons_self with ⟨hpos, hle⟩
      have hrest := ih fun g hg => hl g (List.mem_cons_of_mem f hg)
      have hfirst := length_wireForm f (List.length_pos_iff.mp (by omega)) (by omega)
      have htwo : (if LastBitsClear f then 1 else 2) ≤ 2 := by
        split
        · omega
        · omega
      rw [List.flatMap_cons, List.length_append, List.map_cons, List.sum_cons, List.length_cons]
      omega

/-- Frames have a byte each, at least. -/
theorem length_le_sum (l : List (List Byte)) (hl : ∀ f ∈ l, 1 ≤ f.length) :
    l.length ≤ (l.map List.length).sum := by
  have hsum := List.length_le_sum_of_one_le (l.map List.length) (by
    intro n hn
    rcases List.mem_map.mp hn with ⟨f, hf, hlen⟩
    rw [← hlen]
    exact hl f hf)
  rw [List.length_map] at hsum
  exact hsum

/-- With an output that is long enough, `GetWhite` makes the frames it was asked for
    exactly when that output is empty. -/
theorem whiteAsRequested_iff (frames : Nat) (hlib : FramesBounded lib)
    (hroom : 63 * frames ≤ length) : WhiteAsRequested lib q length frames ↔ length = 0 := by
  unfold WhiteAsRequested getWhite
  constructor
  · intro h
    have hret := congrArg Coded.ret h
    simp only [] at hret
    rcases whiteLoop_cases lib q length length.toNat 0 [] (by omega) with hfail | ⟨hsum, hle⟩
    · rw [hfail] at hret
      omega
    · by_contra hne
      -- The first `frames` frames and the others, as many as there are bytes in all.
      rw [hret, show length.toNat = frames + (length.toNat - frames) by omega,
        silentFrames_add, List.map_append, List.sum_append, Nat.cast_add] at hsum
      have hbound := mem_silentFrames lib hlib
      -- Each of the others has a byte at least, which is more than the wire form adds.
      have hfirst := length_le_sum (silentFrames lib q.coderBase frames)
        fun f hf => (hbound _ _ f hf).1
      have hothers := length_le_sum
        (silentFrames lib (afterSilence lib q.coderBase frames) (length.toNat - frames))
        fun f hf => (hbound _ _ f hf).1
      have hwire := length_flatMap_wireForm (silentFrames lib q.coderBase frames) (hbound _ _)
      rw [length_silentFrames] at hfirst hothers hwire
      omega
  · intro hzero
    have hnone : frames = 0 := by omega
    rw [hzero, hnone]
    rfl

/-- A codec library that encodes everything to a frame of 61 bytes. -/
def wholeFrames : EncodeLib Unit Unit where
  eIfEncode _ _ _ _ := ((), List.replicate 61 0)
  convert _ _ _ _ := ((), { ret := 0, written := [] })

theorem framesBounded_wholeFrames : FramesBounded wholeFrames := by
  intro g mode samples dtx
  change 1 ≤ (List.replicate 61 (0 : Byte)).length ∧ (List.replicate 61 (0 : Byte)).length ≤ 61
  rw [List.length_replicate]
  omega

/-- No frames, and no room for any. -/
theorem whiteAsRequested_iff_none : WhiteAsRequested wholeFrames ⟨(), (), []⟩ 0 0 :=
  (whiteAsRequested_iff wholeFrames ⟨(), (), []⟩ 0 0 framesBounded_wholeFrames
    (Int.le_refl 0)).mpr rfl

/-- One frame, with room for it: the second round fails. -/
theorem whiteAsRequested_fails :
    (getWhite wholeFrames ⟨(), (), []⟩ 63 1).2.ret = -1 ∧
      ¬ WhiteAsRequested wholeFrames ⟨(), (), []⟩ 63 1 := by
  have hret : (getWhite wholeFrames ⟨(), (), []⟩ 63 1).2.ret = -1 := rfl
  refine ⟨hret, fun h => ?_⟩
  have hsame : (-1 : Int) = ((silentFrames wholeFrames () 1).flatMap wireForm).length :=
    hret.symm.trans (congrArg Coded.ret h)
  omega

end AmrWbEnCoder

namespace AmrWbDeCoder

/-- `GetWhite` writes inside the output only, and leaves alone what lies behind the
    bytes it returns. -/
def WhiteStays (lib : DecodeLib γ σ) (q : AmrWbDeCoder γ σ) (amrBuff : List Byte)
    (length frames : Int) : Prop :=
  (∀ w ∈ (getWhite lib q amrBuff length frames).2.2.2, Within length w) ∧
    ∀ (out : Memory) (i : Nat), (getWhite lib q amrBuff length frames).2.2.1 ≤ i →
      applied out (getWhite lib q amrBuff length frames).2.2.2 i = out i

/-- What is assumed of `D_IF_decode`: it writes a frame of 16 kHz PCM. -/
def DecodesFrames (lib : DecodeLib γ σ) : Prop :=
  ∀ g bytes quality, (lib.dIfDecode g bytes quality).2.length = kAmrWbFrameSample

variable (lib : DecodeLib γ σ) (q : AmrWbDeCoder γ σ) (amrBuff : List Byte)
  (length frames : Int)

/-- A call that does not return early decodes to the output and clears a part of
    it. -/
theorem getWhite_of_room (hpos : 0 < frames)
    (hroom : wrap (frames * kPcmFrameLength) ≤ length) :
    ∃ decoded, decoded = (lib.dIfDecode q.coderBase (List.replicate 64 0 ++ amrBuff.drop 64)
        kAmrLostFrame).2 ∧
      (getWhite lib q amrBuff length frames).2.2.1 = wrap (frames * kPcmFrameLength) ∧
      (getWhite lib q amrBuff length frames).2.2.2 =
        [.samples 0 decoded, .zeros 0 (toSize (wrap (frames * kPcmFrameLength)))] := by
  refine ⟨_, rfl, ?_, ?_⟩
  · rw [getWhite, if_neg (not_le.mpr hpos), if_neg (not_lt.mpr hroom)]
  · rw [getWhite, if_neg (not_le.mpr hpos), if_neg (not_lt.mpr hroom)]

/-- The bytes that the two writes leave: zeros first, then what is over of the
    samples, then what was there before. -/
theorem applied_white (out : Memory) (decoded : List Sample) (count i : Nat) :
    applied out [.samples 0 decoded, .zeros 0 count] i =
      if i < count then 0
      else if i < 2 * decoded.length then (decoded.flatMap bytes16).getD i 0 else out i := by
  have happ : applied out [.samples 0 decoded, .zeros 0 count] =
      (out.store 0 (decoded.flatMap bytes16)).store 0 (List.replicate count 0) := rfl
  rw [happ, Memory.store, List.length_replicate, Nat.zero_add, Nat.sub_zero]
  -- The last write is seen first.
  by_cases hcount : i < count
  · rw [if_pos ⟨Nat.zero_le i, hcount⟩, if_pos hcount, List.getD_eq_getElem?_getD,
      List.getElem?_replicate, if_pos hcount, Option.getD_some]
  · rw [if_neg (fun hc => hcount hc.2), if_neg hcount, Memory.store, Nat.zero_add, Nat.sub_zero,
      length_flatMap_bytes16]
    by_cases hdec : i < 2 * decoded.length
    · rw [if_pos ⟨Nat.zero_le i, hdec⟩, if_pos hdec]
    · rw [if_neg (fun hc => hdec hc.2), if_neg hdec]

/-- A call that does not return early stays inside the output exactly when the length it
    clears covers the frame of 16 kHz PCM. -/
theorem whiteStays_iff_covers (hlib : DecodesFrames lib) (hpos : 0 < frames)
    (hlength : Fits length) (hroom : wrap (frames * kPcmFrameLength) ≤ length) :
    WhiteStays lib q amrBuff length frames ↔ 640 ≤ wrap (frames * kPcmFrameLength) := by
  rcases getWhite_of_room lib q amrBuff length frames hpos hroom with
    ⟨decoded, hdecoded, hret, hwrites⟩
  have hlen : decoded.length = 320 := by
    rw [hdecoded, hlib]
    rfl
  have hfits := fits_wrap (frames * kPcmFrameLength)
  unfold WhiteStays
  rw [hret, hwrites]
  generalize wrap (frames * kPcmFrameLength) = cleared at hroom hfits ⊢
  constructor
  · intro h
    by_contra hshort
    by_cases hneg : cleared < 0
    · -- The size of the `memset` is larger than any output.
      have hin := h.1 (.zeros 0 (toSize cleared))
        (List.mem_cons_of_mem _ (List.mem_singleton.mpr rfl))
      have hhuge := lt_toSize_of_neg cleared length hneg hfits hlength
      rw [Within, Write.start, Write.size] at hin
      omega
    · -- The last byte of the samples is not cleared, and memory may hold another.
      have hsize := toSize_of_nonneg cleared (by omega) hfits
      have hlast := h.2 (fun _ => (decoded.flatMap bytes16).getD 639 0 + 1) 639 (by omega)
      rw [applied_white, if_neg (by omega), if_pos (by omega)] at hlast
      exact absurd hlast (by
        generalize (decoded.flatMap bytes16).getD 639 0 = b
        revert b
        decide)
  · intro hcovers
    have hsize := toSize_of_nonneg cleared (by omega) hfits
    refine ⟨fun w hw => ?_, fun out i hi => ?_⟩
    · rcases List.mem_cons.mp hw with hsamples | hzeros
      · rw [hsamples, Within, Write.start, Write.size, hlen]
        omega
      · rw [List.mem_singleton.mp hzeros, Within, Write.start, Write.size]
        omega
    · rw [applied_white, if_neg (by omega), if_neg (by omega)]

/-- Among the calls that do not return early, those whose product `320 * frames` is an `int`
    stay inside the output exactly when they are for two frames at least, and those whose
    product goes round exactly when what is left of it is 640 or more. -/
theorem whiteStays_iff (hlib : DecodesFrames lib) (hpos : 0 < frames) (hlength : Fits length)
    (hroom : wrap (frames * kPcmFrameLength) ≤ length) :
    (frames * kPcmFrameLength < 2 ^ 31 →
      (WhiteStays lib q amrBuff length frames ↔ 2 ≤ frames)) ∧
    (2 ^ 31 ≤ frames * kPcmFrameLength →
      (WhiteStays lib q amrBuff length frames ↔ 640 ≤ wrap (frames * kPcmFrameLength))) := by
  have hcovers := whiteStays_iff_covers lib q amrBuff length frames hlib hpos hlength hroom
  refine ⟨fun hfits => ?_, fun _ => hcovers⟩
  unfold kPcmFrameLength at hcovers hfits
  rw [hcovers, wrap_of_fits _ ⟨by omega, hfits⟩]
  omega

/-- Two frames in a buffer of just the size, and so many that the product comes to 704. -/
theorem whiteStays_iff_two : WhiteStays filling ⟨(), ()⟩ [] 640 2 ∧
    WhiteStays filling ⟨(), ()⟩ [] 704 13421775 := by
  have hlib : DecodesFrames filling := fun _ _ _ => List.length_replicate
  exact ⟨((whiteStays_iff filling ⟨(), ()⟩ [] 640 2 hlib (by decide) (by decide)
      (by decide)).1 (by decide)).mpr (by decide),
    ((whiteStays_iff filling ⟨(), ()⟩ [] 704 13421775 hlib (by decide) (by decide)
      (by decide)).2 (by decide)).mpr (by decide)⟩

/-- One frame in a buffer of just the size: the samples are written behind its end. And
    64 bytes are enough for the check when the product goes round. -/
theorem whiteStays_fails :
    (getWhite filling ⟨(), ()⟩ [] 320 1).2.2.1 = 320 ∧
      (∃ w ∈ (getWhite filling ⟨(), ()⟩ [] 320 1).2.2.2, w.start + w.size = 640) ∧
      ¬ WhiteStays filling ⟨(), ()⟩ [] 320 1 ∧
      (getWhite filling ⟨(), ()⟩ [] 64 13421773).2.2.1 = 64 ∧
      ¬ WhiteStays filling ⟨(), ()⟩ [] 64 13421773 := by
  have hstays : ∀ length frames, Write.samples 0 (List.replicate 320 0) ∈
      (getWhite filling ⟨(), ()⟩ [] length frames).2.2.2 → length < 640 →
      ¬ WhiteStays filling ⟨(), ()⟩ [] length frames := by
    intro length frames hmem hshort h
    have hin := h.1 _ hmem
    rw [Within, Write.start, Write.size, List.length_replicate] at hin
    omega
  refine ⟨rfl, ⟨.samples 0 (List.replicate 320 0), List.mem_cons_self, by
    rw [Write.start, Write.size, List.length_replicate]
    rfl⟩, hstays 320 1 List.mem_cons_self (by decide), rfl,
    hstays 64 13421773 List.mem_cons_self (by decide)⟩

end AmrWbDeCoder

end CodecChanger
