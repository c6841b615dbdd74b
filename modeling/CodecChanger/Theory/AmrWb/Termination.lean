import CodecChanger.Core.AmrWb

/-!
# When the AMR-WB Decoder Returns

The decoder's loop ends because every iteration takes the block size of a frame
off `remain_length`. Three of the sixteen frame types have block size zero in
the table, and the frame type is read from the datagram: on such a byte the
decoder decodes, converts and stays where it is, for ever, moving the output
pointer on with every round.

The one thing that stops it is the test of `output_length`, and as nothing
lowers `output_length` that test passes in every iteration or fails in the
first. So the decoder returns exactly when the caller's buffer is too small for
a single frame, or no frame the decoder comes to has one of the three types.
That is a property of the bytes alone: the positions it comes to are those a
walk through the datagram by block sizes reaches.

## Main definitions

* `FrameAt`: The decoder looks for a frame at this position.
* `Sized`: It finds no frame type without a size.
* `Returns`: The call ends, and each iteration lowers `remain_length`.

## Theorems

* `on_frame`: An iteration starts at a frame of the walk.
* `visits_frame`: Every frame of the walk gets its iteration.
* `returns_iff`: The exact condition for the decoder to return.
-/

namespace CodecChanger

open Bytes Loop

namespace AmrWbDeCoder

variable {γ σ : Type*}

/-- The positions at which the decoder looks for a frame in `length` bytes: the
    first byte, and after a whole frame the byte behind it. -/
inductive FrameAt (data : List Byte) (length : Nat) : Nat → Prop
  | first : 0 < length → FrameAt data length 0
  | next (p : Nat) : FrameAt data length p → p + blockSize (data.getD p 0) < length →
      FrameAt data length (p + blockSize (data.getD p 0))

/-- No frame the decoder looks at is of type 11, 12 or 13. -/
def Sized (data : List Byte) (length : Nat) : Prop :=
  ∀ p, FrameAt data length p →
    ¬ (11 ≤ frameMode (data.getD p 0) ∧ frameMode (data.getD p 0) ≤ 13)

/-- The call ends, and every iteration that does not leave the loop lowers
    `remain_length`. -/
def Returns (lib : DecodeLib γ σ) (q : AmrWbDeCoder γ σ) (data : List Byte) (length : Nat)
    (outputLength : Int) : Prop :=
  (∃ r, Codec lib q data length outputLength r) ∧
    ∀ t u, Visits (body lib data outputLength) (enter q length) t →
      body lib data outputLength t = .again u → u.remainLength < t.remainLength

/-- `input` and `remain_length` stay in step, and while bytes remain the decoder
    stands at a frame of the walk. -/
def OnFrame (data : List Byte) (length : Nat) (t : Locals γ σ) : Prop :=
  t.input + t.remainLength = length ∧ (t.remainLength > 0 → FrameAt data length t.input)

theorem on_frame_enter (q : AmrWbDeCoder γ σ) (data : List Byte) (length : Nat) :
    OnFrame data length (enter q length) := by
  unfold OnFrame enter
  simp only []
  refine ⟨by omega, fun h => .first (by omega)⟩

theorem on_frame_again (lib : DecodeLib γ σ) (data : List Byte) (length : Nat)
    (outputLength : Int) (t u : Locals γ σ) (ht : OnFrame data length t)
    (h : body lib data outputLength t = .again u) : OnFrame data length u := by
  rcases body_again lib data outputLength t u h with ⟨hr, hs, -, rfl⟩
  unfold OnFrame at ht ⊢
  simp only [convertFrame_input, convertFrame_remainLength, decodeFrame_input,
    decodeFrame_remainLength]
  refine ⟨by omega, fun hleft => .next t.input (ht.2 hr) (by omega)⟩

/-- Every iteration starts at a frame of the walk. -/
theorem on_frame (lib : DecodeLib γ σ) (q : AmrWbDeCoder γ σ) (data : List Byte) (length : Nat)
    (outputLength : Int) (t : Locals γ σ)
    (ht : Visits (body lib data outputLength) (enter q length) t) : OnFrame data length t :=
  visits_invariant (OnFrame data length) (on_frame_again lib data length outputLength)
    (enter q length) t (on_frame_enter q data length) ht

/-- When the output takes a frame, every frame of the walk gets its iteration. -/
theorem visits_frame (lib : DecodeLib γ σ) (q : AmrWbDeCoder γ σ) (data : List Byte)
    (length : Nat) (outputLength : Int) (ho : ¬ outputLength < kPcmFrameLength) (p : Nat)
    (hp : FrameAt data length p) :
    ∃ t, Visits (body lib data outputLength) (enter q length) t ∧ t.input = p ∧
      t.remainLength > 0 := by
  induction hp with
  | first hpos =>
      refine ⟨enter q length, .start, rfl, ?_⟩
      unfold enter
      simp only []
      omega
  | next p _ hlt ih =>
      rcases ih with ⟨t, hv, hin, hr⟩
      -- The frame at `p` is whole, so the iteration on it goes round again.
      have hon := (on_frame lib q data length outputLength t hv).1
      rw [hin] at hon
      have hs : ¬ t.remainLength < blockSize (data.getD t.input 0) := by
        rw [hin]
        omega
      have hbody := body_frame lib data outputLength t hr hs ho
      refine ⟨_, Visits.again t _ hv hbody, ?_, ?_⟩
      · rw [convertFrame_input, decodeFrame_input, hin]
      · rw [convertFrame_remainLength, decodeFrame_remainLength, hin]
        omega

/-- Bytes remain, and the frame they start with has no size. -/
def Stuck (data : List Byte) (t : Locals γ σ) : Prop :=
  t.remainLength > 0 ∧ blockSize (data.getD t.input 0) = 0

/-- On a frame without a size the decoder stays for ever. -/
theorem not_halts_of_unsized (lib : DecodeLib γ σ) (data : List Byte) (outputLength : Int)
    (ho : ¬ outputLength < kPcmFrameLength) (t : Locals γ σ) (hr : t.remainLength > 0)
    (hz : blockSize (data.getD t.input 0) = 0) : ¬ Halts (body lib data outputLength) t := by
  refine not_halts_of_closed (Stuck data) (fun u hu => ?_) t ⟨hr, hz⟩
  have hs : ¬ u.remainLength < blockSize (data.getD u.input 0) := by
    rw [hu.2]
    have := hu.1
    omega
  refine ⟨_, body_frame lib data outputLength u hu.1 hs ho, ?_⟩
  unfold Stuck
  simp only [convertFrame_input, convertFrame_remainLength, decodeFrame_input,
    decodeFrame_remainLength, hu.2, Nat.add_zero, Int.natCast_zero, sub_zero]
  exact ⟨hu.1, trivial⟩

/-- The decoder returns, with `remain_length` falling in every iteration, exactly
    when the output does not take a single frame or no frame it looks at is of
    type 11, 12 or 13. -/
theorem returns_iff (lib : DecodeLib γ σ) (q : AmrWbDeCoder γ σ) (data : List Byte)
    (length : Nat) (outputLength : Int) :
    Returns lib q data length outputLength ↔
      outputLength < kPcmFrameLength ∨ Sized data length := by
  unfold Returns Codec
  simp only [if_neg (show ¬ (length : Int) < 0 by omega)]
  constructor
  · rintro ⟨hhalts, -⟩
    by_contra hc
    rw [not_or] at hc
    -- Some frame of the walk has no size, and the loop gets there.
    unfold Sized at hc
    push Not at hc
    rcases hc with ⟨ho, p, hp, hmode⟩
    rcases visits_frame lib q data length outputLength (not_lt.mpr ho) p hp with ⟨t, hv, hin, hr⟩
    refine not_halts_of_unsized lib data outputLength (not_lt.mpr ho) t hr ?_
      ((halts_visits _ t hv).mp hhalts)
    rw [hin]
    exact (blockSize_eq_zero_iff _).mpr hmode
  · intro h
    have hfall : ∀ t u, OnFrame data length t → body lib data outputLength t = .again u →
        u.remainLength < t.remainLength := by
      intro t u ht hb
      rcases body_again lib data outputLength t u hb with ⟨hr, -, ho, rfl⟩
      rw [convertFrame_remainLength, decodeFrame_remainLength]
      -- There was room for a frame, so the frame has a size.
      have hsized := h.resolve_left ho t.input (ht.2 hr)
      have hpos : blockSize (data.getD t.input 0) ≠ 0 := fun hz =>
        hsized ((blockSize_eq_zero_iff _).mp hz)
      omega
    refine ⟨?_, fun t u hv hb => hfall t u (on_frame lib q data length outputLength t hv) hb⟩
    refine halts_of_variant (OnFrame data length) (fun t => t.remainLength.toNat) ?_ _
      (on_frame_enter q data length)
    intro t u ht hb
    have hlt := hfall t u ht hb
    have hr := (body_again lib data outputLength t u hb).1
    exact ⟨on_frame_again lib data length outputLength t u ht hb, by omega⟩

/-- A codec library that decodes every frame to silence and converts 320 samples
    to 160, or to as many as it may. -/
def quiet : DecodeLib Unit Unit where
  dIfDecode _ _ _ := ((), List.replicate 320 0)
  convert _ _ _ max :=
    ((), { ret := min 160 max.toNat, written := List.replicate (min 160 max.toNat) 0 })

/-- One byte of frame type 11 keeps the decoder busy for ever. -/
theorem returns_fails : ¬ Returns quiet ⟨(), ()⟩ [0x58] 1 2048 := by
  rintro ⟨hhalts, -⟩
  exact not_halts_of_unsized quiet [0x58] 2048 (by decide) (enter ⟨(), ()⟩ 1) (by decide)
    (by decide) hhalts

end AmrWbDeCoder

end CodecChanger
