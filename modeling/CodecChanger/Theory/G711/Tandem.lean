import CodecChanger.Theory.G711.RoundTrip
import Mathlib.Logic.Function.Iterate

/-!
# Speech Through Several Sessions

A session decodes one law and encodes the other, the next one turns it back, and so on. What
becomes of the codes after any number of such hops, a hop being one law, the other and back.

Nothing happens behind the first hop to most codes. But the A-law encoder takes eight off the
magnitude of a negative sample where the mu-law encoder has the whole of it, so a quiet
negative sample moves up by a step at every hop. All that lies between -376 and -120 ends up
at -120, one step of 16 at a time. The positive half does not move.

## Main definitions

* `hopA`, `hopU`: What becomes of a code of the A-law, and of the mu-law, in a hop.
* `Carried`: What becomes of it in some hops.
* `uOfA`, `aOfU`: A stream of codes in the other law.

## Theorems

* `carried_iterate`: From one hop to any number.
* `hopA_step`, `hopU_step`: One hop.
* `tandem_drifts`: Streams after any number of hops.
-/

namespace CodecChanger

open Bytes

/-- A code of the A-law after it has been one of the mu-law. -/
def hopA (b : Byte) : Byte :=
  PcmAEnCoder.code (PcmUDeCoder.round (PcmUEnCoder.round (PcmADeCoder.round b)))

/-- A code of the mu-law after it has been one of the A-law. -/
def hopU (b : Byte) : Byte :=
  PcmUEnCoder.round (PcmADeCoder.round (PcmAEnCoder.code (PcmUDeCoder.round b)))

section

variable (hop : Byte → Byte) (value : Byte → Int) (lowest : Int) (off : Int → Int)

/-- A code that stands for a sample between `lowest` and -120 moves up by 16 in every hop, and
    stops at -120. Any other is moved by `off` at most in the first hop, and not at all by the
    others. -/
def Carried (k : Nat) (b c : Byte) : Prop :=
  if lowest ≤ value b ∧ value b ≤ -120 then value c = min (value b + 16 * k) (-120)
  else (k = 0 → c = b) ∧ (0 < k → c = hop b ∧ (value c - value b).natAbs ≤ off (value b))

/-- What one hop does, and that a second one changes nothing outside the stretch that moves. -/
def Stepping (b : Byte) : Prop :=
  if lowest ≤ value b ∧ value b ≤ -120 then value (hop b) = min (value b + 16) (-120)
  else hop (hop b) = hop b ∧ (value (hop b) - value b).natAbs ≤ off (value b)

instance (b : Byte) : Decidable (Stepping hop value lowest off b) :=
  inferInstanceAs (Decidable (if lowest ≤ value b ∧ value b ≤ -120
    then value (hop b) = min (value b + 16) (-120)
    else hop (hop b) = hop b ∧ (value (hop b) - value b).natAbs ≤ off (value b)))

/-- What any number of hops does, from what one does. -/
theorem carried_iterate (h : ∀ b, Stepping hop value lowest off b) (k : Nat) (b : Byte) :
    Carried hop value lowest off k b (hop^[k] b) := by
  unfold Carried
  by_cases hb : lowest ≤ value b ∧ value b ≤ -120
  · rw [if_pos hb]
    -- The sample stays in the stretch, so every hop moves it again.
    induction k generalizing b with
    | zero =>
        rw [Function.iterate_zero_apply]
        omega
    | succ k ih =>
        have hstep := h b
        rw [Stepping, if_pos hb] at hstep
        rw [Function.iterate_succ_apply, ih (hop b) (by omega), hstep]
        omega
  · rw [if_neg hb]
    have hstep := h b
    rw [Stepping, if_neg hb] at hstep
    refine ⟨fun hk => ?_, fun hk => ?_⟩
    · rw [hk, Function.iterate_zero_apply]
    · cases k with
      | zero => exact absurd hk (Nat.lt_irrefl 0)
      | succ k =>
          rw [Function.iterate_succ_apply, Function.iterate_fixed hstep.1]
          exact ⟨rfl, hstep.2⟩

end

/-- The sample that a code of the A-law stands for. -/
def valueA (b : Byte) : Int := (PcmADeCoder.round b).toInt

/-- The sample that a code of the mu-law stands for. -/
def valueU (b : Byte) : Int := (PcmUDeCoder.round b).toInt

/-- One hop of the A-law. -/
theorem hopA_step (b : Byte) :
    Stepping hopA valueA (-376) (fun d => (d.natAbs / 16 : Nat)) b := by
  -- All the codes, one by one.
  have hall : ∀ n < 256, Stepping hopA valueA (-376) (fun d => (d.natAbs / 16 : Nat))
      (BitVec.ofNat 8 n) := by decide +kernel
  have hb := hall b.toNat b.isLt
  rw [BitVec.ofNat_toNat, BitVec.setWidth_eq] at hb
  exact hb

/-- One hop of the mu-law. -/
theorem hopU_step (b : Byte) : Stepping hopU valueU (-372) (fun _ => 8) b := by
  have hall : ∀ n < 256, Stepping hopU valueU (-372) (fun _ => 8) (BitVec.ofNat 8 n) := by
    decide +kernel
  have hb := hall b.toNat b.isLt
  rw [BitVec.ofNat_toNat, BitVec.setWidth_eq] at hb
  exact hb

/-- A session that decodes the A-law and encodes the mu-law, with buffers of `room` bytes. -/
def uOfA (room : Int) (w : List Byte) : List Byte :=
  let pcm := PcmADeCoder.codec w w.length room
  (PcmUEnCoder.codec pcm.written pcm.written.length room).written

/-- A session that decodes the mu-law and encodes the A-law. -/
def aOfU (room : Int) (w : List Byte) : List Byte :=
  let pcm := PcmUDeCoder.codec w w.length room
  (PcmAEnCoder.codec pcm.written pcm.written.length room).2.written

theorem uOfA_eq (room : Int) (w : List Byte) (h : w.length * 2 ≤ room) :
    uOfA room w = w.map (PcmUEnCoder.round ∘ PcmADeCoder.round) :=
  congrArg Coded.written (recoded _ _ _ _ PcmUEnCoder.encodesBy PcmADeCoder.decodesBy w room room
    h (by omega))

theorem aOfU_eq (room : Int) (w : List Byte) (h : w.length * 2 ≤ room) :
    aOfU room w = w.map (PcmAEnCoder.code ∘ PcmUDeCoder.round) :=
  congrArg Coded.written (recoded _ _ _ _ PcmAEnCoder.encodesBy PcmUDeCoder.decodesBy w room room
    h (by omega))

/-- A stream after some hops, code by code. -/
theorem iterate_map (f : List Byte → List Byte) (hop : Byte → Byte) (room : Int)
    (hf : ∀ w : List Byte, w.length * 2 ≤ room → f w = w.map hop) (k : Nat) (w : List Byte)
    (h : w.length * 2 ≤ room) : f^[k] w = w.map hop^[k] := by
  induction k generalizing w with
  | zero => exact (List.map_id w).symm
  | succ k ih =>
      rw [Function.iterate_succ_apply, hf w h, ih _ (by rw [List.length_map]; exact h),
        List.map_map, Function.iterate_succ]

/-- Streams of codes that are carried over any number of hops, in sessions with room for
    their PCM: code by code they are carried as `Carried` says. -/
theorem tandem_drifts (room : Int) (k : Nat) (w : List Byte) (h : w.length * 2 ≤ room) :
    List.Forall₂ (Carried hopA valueA (-376) (fun d => (d.natAbs / 16 : Nat)) k) w
        ((fun w => aOfU room (uOfA room w))^[k] w) ∧
      List.Forall₂ (Carried hopU valueU (-372) (fun _ => 8) k) w
        ((fun w => uOfA room (aOfU room w))^[k] w) := by
  have hlength : ∀ (f : Byte → Byte) (w : List Byte), w.length * 2 ≤ room →
      (w.map f).length * 2 ≤ room := fun f w hw => by
    rw [List.length_map]
    exact hw
  refine ⟨?_, ?_⟩
  · rw [iterate_map _ hopA room (fun w hw => by
      rw [uOfA_eq room w hw, aOfU_eq room _ (hlength _ w hw), List.map_map]
      rfl) k w h, List.forall₂_map_right_iff, List.forall₂_same]
    exact fun b _ => carried_iterate hopA valueA _ _ hopA_step k b
  · rw [iterate_map _ hopU room (fun w hw => by
      rw [aOfU_eq room w hw, uOfA_eq room _ (hlength _ w hw), List.map_map]
      rfl) k w h, List.forall₂_map_right_iff, List.forall₂_same]
    exact fun b _ => carried_iterate hopU valueU _ _ hopU_step k b

/-- A quiet negative code and a loud one, after sixteen hops. -/
theorem tandem_drifts_sixteen :
    List.Forall₂ (Carried hopA valueA (-376) (fun d => (d.natAbs / 16 : Nat)) 16) [0x42, 0x0a]
      ((fun w => aOfU 4 (uOfA 4 w))^[16] [0x42, 0x0a]) :=
  (tandem_drifts 4 16 [0x42, 0x0a] (by decide)).1

end CodecChanger
