import CodecChanger.Lib.Trace
import Mathlib.Data.List.Basic

/-!
# Coding a Stream Block by Block

A machine that takes a block of a stream at a time and makes something of it, from a state
that it carries along. `code` gives it a number of blocks from the front of a stretch.

What it makes of a stretch it makes of the two parts one after the other, `code_add`. So a
stream that comes in pieces of whole blocks is coded as if it came in one, `code_flatten`.

## Main definitions

* `code`: Some blocks, one after the other.
* `step`: A piece with all its blocks.

## Theorems

* `code_add`: Blocks and more blocks.
* `code_append`: What lies behind the blocks does not matter.
* `length_code`: How much is made.
* `step_take`: Blocks from the front of a stretch.
* `step_append`: A piece and what follows it.
* `code_flatten`: The pieces do not matter.
-/

namespace Framing

variable {σ α β : Type*} (f : σ → List α → σ × List β) (n : Nat)

/-- The machine takes `k` blocks of `n` elements from the front. -/
def code : Nat → σ → List α → σ × List β
  | 0, q, _ => (q, [])
  | k + 1, q, l =>
      let (q, made) := f q (l.take n)
      let (q, rest) := code k q (l.drop n)
      (q, made ++ rest)

/-- The machine takes a piece with all its blocks. -/
def step (q : σ) (piece : List α) : σ × List β := code f n (piece.length / n) q piece

theorem code_succ (k : Nat) (q : σ) (l : List α) :
    code f n (k + 1) q l = ((code f n k (f q (l.take n)).1 (l.drop n)).1,
      (f q (l.take n)).2 ++ (code f n k (f q (l.take n)).1 (l.drop n)).2) := rfl

/-- Blocks and more blocks. -/
theorem code_add (j k : Nat) (q : σ) (l : List α) :
    code f n (j + k) q l = ((code f n k (code f n j q l).1 (l.drop (n * j))).1,
      (code f n j q l).2 ++ (code f n k (code f n j q l).1 (l.drop (n * j))).2) := by
  induction j generalizing q l with
  | zero =>
      rw [Nat.zero_add, Nat.mul_zero, List.drop_zero]
      rfl
  | succ j ih =>
      rw [Nat.succ_add, code_succ, code_succ, ih, List.drop_drop, Nat.mul_succ,
        Nat.add_comm n, List.append_assoc]

/-- What lies behind the blocks does not matter. -/
theorem code_append (k : Nat) (q : σ) (l rest : List α) (h : n * k ≤ l.length) :
    code f n k q (l ++ rest) = code f n k q l := by
  induction k generalizing q l with
  | zero => rfl
  | succ k ih =>
      rw [Nat.mul_succ] at h
      rw [code_succ, code_succ, List.take_append_of_le_length (by omega),
        List.drop_append_of_le_length (by omega), ih _ _ (by rw [List.length_drop]; omega)]

/-- What is made, when so much is made of every block. -/
theorem length_code (m k : Nat) (q : σ) (l : List α) (h : n * k ≤ l.length)
    (hf : ∀ q b, b.length = n → (f q b).2.length = m) : (code f n k q l).2.length = m * k := by
  induction k generalizing q l with
  | zero => rfl
  | succ k ih =>
      rw [Nat.mul_succ] at h
      rw [code_succ, List.length_append, ih _ _ (by rw [List.length_drop]; omega),
        hf q _ (by rw [List.length_take]; omega), Nat.mul_succ, Nat.add_comm]

theorem step_nil (q : σ) : step f n q [] = (q, []) := by
  rw [step, List.length_nil, Nat.zero_div]
  rfl

/-- Some blocks from the front of a stretch are a piece. -/
theorem step_take (hn : 0 < n) (k : Nat) (q : σ) (l : List α) (h : n * k ≤ l.length) :
    step f n q (l.take (n * k)) = code f n k q l := by
  have htake : (l.take (n * k)).length = n * k := List.length_take_of_le h
  have hsplit := code_append f n k q (l.take (n * k)) (l.drop (n * k)) (Nat.le_of_eq htake.symm)
  rw [List.take_append_drop] at hsplit
  rw [step, htake, Nat.mul_div_cancel_left _ hn, hsplit]

/-- A piece of whole blocks and what follows it. -/
theorem step_append (hn : 0 < n) (q : σ) (p rest : List α) (h : n ∣ p.length) :
    step f n q (p ++ rest) = ((step f n (step f n q p).1 rest).1,
      (step f n q p).2 ++ (step f n (step f n q p).1 rest).2) := by
  have hp : n * (p.length / n) = p.length := Nat.mul_div_cancel' h
  have hdiv : (p ++ rest).length / n = p.length / n + rest.length / n := by
    rw [List.length_append, ← hp, Nat.mul_add_div hn, Nat.mul_div_cancel_left _ hn]
  unfold step
  rw [hdiv, code_add, code_append f n _ q p _ (Nat.le_of_eq hp), hp, List.drop_left' rfl]

/-- Pieces of whole blocks are coded as if they came in one. -/
theorem code_flatten (hn : 0 < n) (pieces : List (List α)) (q : σ)
    (h : ∀ p ∈ pieces, n ∣ p.length) :
    step f n q pieces.flatten = (Trace.run (fun q p => (step f n q p).1) q pieces,
      (Trace.answers (step f n) q pieces).flatten) := by
  induction pieces generalizing q with
  | nil => exact step_nil f n q
  | cons p pieces ih =>
      rw [List.flatten_cons, step_append f n hn q p _ (h p List.mem_cons_self),
        ih (step f n q p).1 fun p' hp' => h p' (List.mem_cons_of_mem p hp')]
      rfl

end Framing
