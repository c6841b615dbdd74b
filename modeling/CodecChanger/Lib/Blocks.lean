import Mathlib.Data.List.Basic

/-!
# Cutting a Stream into Blocks

A stream that comes in pieces of any length and goes out in blocks of one length,
what does not fill a block being kept for the next piece. `Cut` says that blocks
and a rest are what a stream is cut into. There is one way to do it, `cut_unique`,
so the blocks do not depend on the pieces.

`Absorbed` is for a state that the blocks are worked into one after the other, as
a block cipher's mode or a hash does it.

## Main definitions

* `Cut`: The blocks and the rest of a stream.
* `Absorbed`: The state the blocks of a stream lead to, and the rest.

## Theorems

* `cut_nil`: The empty stream has no block.
* `cut_append`: More of the stream is added to the rest.
* `lt_of_cut_nil`, `le_of_cut_cons`: Whether there is a block.
* `cut_unique`: A stream is cut in one way.
* `length_rest`: How long the rest is.
* `absorbed_short`, `absorbed_block`: A stream without a block, and one with a
  block in front.
* `absorbed_append`: More of the stream is absorbed from where it was left.
-/

namespace Blocks

variable {α : Type*}

/-- The stream is the blocks, each of `n` elements, and a rest shorter than a
    block. -/
structure Cut (n : Nat) (blocks : List (List α)) (rest stream : List α) : Prop where
  stream_eq : blocks.flatten ++ rest = stream
  length_eq : ∀ b ∈ blocks, b.length = n
  rest_lt : rest.length < n

theorem cut_nil (n : Nat) (h : 0 < n) : Cut n ([] : List (List α)) [] [] :=
  ⟨rfl, fun _ hb => absurd hb List.not_mem_nil, h⟩

/-- More of the stream is added to the rest, and the blocks made of that come
    behind those there are. -/
theorem cut_append (n : Nat) (blocks more : List (List α)) (rest rest' stream piece : List α)
    (h : Cut n blocks rest stream) (h' : Cut n more rest' (rest ++ piece)) :
    Cut n (blocks ++ more) rest' (stream ++ piece) := by
  refine ⟨?_, fun b hb => ?_, h'.rest_lt⟩
  · rw [List.flatten_append, List.append_assoc, h'.stream_eq, ← List.append_assoc, h.stream_eq]
  · rcases List.mem_append.mp hb with hb | hb
    · exact h.length_eq b hb
    · exact h'.length_eq b hb

/-- A stream with a block is no shorter than one. -/
theorem le_of_cut_cons (n : Nat) (b : List α) (blocks : List (List α)) (rest stream : List α)
    (h : Cut n (b :: blocks) rest stream) : n ≤ stream.length := by
  rw [← h.stream_eq, ← h.length_eq b List.mem_cons_self]
  simp only [List.flatten_cons, List.length_append]
  omega

/-- A stream without a block is shorter than one. -/
theorem lt_of_cut_nil (n : Nat) (rest stream : List α) (h : Cut n [] rest stream) :
    stream.length < n := by
  rw [← h.stream_eq]
  exact h.rest_lt

/-- A stream is cut in one way. -/
theorem cut_unique (n : Nat) (blocks blocks' : List (List α)) (rest rest' stream : List α)
    (h : Cut n blocks rest stream) (h' : Cut n blocks' rest' stream) :
    blocks = blocks' ∧ rest = rest' := by
  induction blocks generalizing blocks' stream with
  | nil =>
      cases blocks' with
      | nil => exact ⟨rfl, h.stream_eq.trans h'.stream_eq.symm⟩
      | cons b' blocks' =>
          exact absurd (lt_of_cut_nil n _ _ h) (Nat.not_lt.mpr (le_of_cut_cons n _ _ _ _ h'))
  | cons b blocks ih =>
      cases blocks' with
      | nil => exact absurd (lt_of_cut_nil n _ _ h') (Nat.not_lt.mpr (le_of_cut_cons n _ _ _ _ h))
      | cons b' blocks' =>
          -- The first blocks are the same, and so are the streams behind them.
          have hstream : b ++ (blocks.flatten ++ rest) = b' ++ (blocks'.flatten ++ rest') := by
            have heq := h.stream_eq.trans h'.stream_eq.symm
            simp only [List.flatten_cons, List.append_assoc] at heq
            exact heq
          have hlen : b.length = b'.length := by
            rw [h.length_eq b List.mem_cons_self, h'.length_eq b' List.mem_cons_self]
          rcases List.append_inj hstream hlen with ⟨hb, htail⟩
          have hcut : Cut n blocks rest (blocks.flatten ++ rest) :=
            ⟨rfl, fun c hc => h.length_eq c (List.mem_cons_of_mem b hc), h.rest_lt⟩
          have hcut' : Cut n blocks' rest' (blocks.flatten ++ rest) :=
            ⟨htail.symm, fun c hc => h'.length_eq c (List.mem_cons_of_mem b' hc), h'.rest_lt⟩
          rcases ih blocks' _ hcut hcut' with ⟨hblocks, hrest⟩
          exact ⟨by rw [hb, hblocks], hrest⟩

/-- The blocks have a multiple of their length, so the rest has what is left. -/
theorem length_rest (n : Nat) (blocks : List (List α)) (rest stream : List α)
    (h : Cut n blocks rest stream) : rest.length = stream.length % n := by
  have hflat : ∀ bs : List (List α), (∀ b ∈ bs, b.length = n) →
      bs.flatten.length = n * bs.length := by
    intro bs hbs
    induction bs with
    | nil => rfl
    | cons b bs ih =>
        rw [List.flatten_cons, List.length_append, hbs b List.mem_cons_self,
          ih fun c hc => hbs c (List.mem_cons_of_mem b hc), List.length_cons, Nat.mul_succ,
          Nat.add_comm]
  rw [← h.stream_eq, List.length_append, hflat blocks h.length_eq, Nat.mul_add_mod,
    Nat.mod_eq_of_lt h.rest_lt]

section Absorbed

variable {σ : Type*} (f : σ → List α → σ)

/-- Working in the blocks of the stream leads from `init` to `s`, with the rest
    still to come. -/
def Absorbed (n : Nat) (init : σ) (stream : List α) (s : σ) (rest : List α) : Prop :=
  ∃ blocks, Cut n blocks rest stream ∧ blocks.foldl f init = s

/-- There is no block yet. -/
theorem absorbed_short (n : Nat) (s : σ) (rest : List α) (h : rest.length < n) :
    Absorbed f n s rest s rest :=
  ⟨[], ⟨rfl, fun _ hb => absurd hb List.not_mem_nil, h⟩, rfl⟩

/-- The block in front is worked in first. -/
theorem absorbed_block (n : Nat) (s t : σ) (b stream rest : List α) (hb : b.length = n)
    (h : Absorbed f n (f s b) stream t rest) : Absorbed f n s (b ++ stream) t rest := by
  rcases h with ⟨blocks, hcut, hfold⟩
  refine ⟨b :: blocks, ⟨?_, fun c hc => ?_, hcut.rest_lt⟩, hfold⟩
  · rw [List.flatten_cons, List.append_assoc, hcut.stream_eq]
  · rcases List.mem_cons.mp hc with hc | hc
    · rw [hc, hb]
    · exact hcut.length_eq c hc

/-- More of the stream is absorbed from where it was left. -/
theorem absorbed_append (n : Nat) (init s t : σ) (stream piece rest rest' : List α)
    (h : Absorbed f n init stream s rest) (h' : Absorbed f n s (rest ++ piece) t rest') :
    Absorbed f n init (stream ++ piece) t rest' := by
  rcases h with ⟨blocks, hcut, hfold⟩
  rcases h' with ⟨more, hmore, hfold'⟩
  refine ⟨blocks ++ more, cut_append n blocks more rest rest' stream piece hcut hmore, ?_⟩
  rw [List.foldl_append, hfold, hfold']

end Absorbed

end Blocks
