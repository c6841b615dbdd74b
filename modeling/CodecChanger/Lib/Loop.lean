import Mathlib.Tactic.Common

/-!
# Loops That May Not End

A `while` loop of a sequential program, with its body as a function that either
goes round again in a new state or leaves with a result. Nothing about the body
says that the loop ends, so running it takes fuel, and the fuel is quantified
away at once: `Gives` relates a start to the result, and everything is stated
with it.

Three rules carry the proofs about a loop. What holds at the start and survives
an iteration holds wherever the loop gets to (`visits_invariant`) and of what it
leaves with (`gives_invariant`). A measure that every iteration lowers makes it
end (`halts_of_variant`). And a set of states that no iteration leaves keeps it
going for ever (`not_halts_of_closed`).

## Main definitions

* `Next`: How an iteration ends.
* `run`: The loop, for a number of iterations.
* `Gives`: The loop leaves with a result.
* `Halts`: The loop ends.
* `Visits`: An iteration starts in a state.
* `guarded`: The loop with a check in front of every iteration.

## Theorems

* `gives_leave`, `gives_again`: What an iteration says of the result.
* `gives_unique`: There is one result.
* `visits_invariant`: What iterations keep holds at every iteration.
* `gives_invariant`: What iterations keep holds at the end.
* `run_of_variant`, `halts_of_variant`: A loop whose measure falls ends.
* `gives_visits`, `halts_visits`: A loop ends as it does from a state it visits.
* `gives_congr`: A loop depends on its body in the states it visits only.
* `not_halts_of_closed`: A loop that cannot leave a set does not end.
* `gives_guarded_iff`: A guarded loop does what the loop does while the checks succeed.
-/

namespace Loop

/-- How an iteration ends: with the state of the next one, or for good. -/
inductive Next (σ ρ : Type*) where
  | again (s : σ)
  | leave (r : ρ)

variable {σ ρ : Type*} (body : σ → Next σ ρ)

/-- The loop's result, if `fuel` iterations are enough to reach it. -/
def run : Nat → σ → Option ρ
  | 0, _ => none
  | fuel + 1, s =>
      match body s with
      | .again t => run fuel t
      | .leave r => some r

/-- The loop, started in `s`, leaves with the result `r`. -/
def Gives (s : σ) (r : ρ) : Prop := ∃ fuel, run body fuel s = some r

/-- The loop, started in `s`, ends. -/
def Halts (s : σ) : Prop := ∃ r, Gives body s r

/-- Some iteration of the loop started in `s` begins in the given state. -/
inductive Visits (s : σ) : σ → Prop
  | start : Visits s s
  | again (t u : σ) : Visits s t → body t = .again u → Visits s u

variable {body}

theorem gives_leave (s : σ) (r r' : ρ) (h : body s = .leave r') :
    Gives body s r ↔ r = r' := by
  constructor
  · rintro ⟨fuel, hrun⟩
    cases fuel with
    | zero => exact absurd hrun (by simp only [run, reduceCtorEq, not_false_eq_true])
    | succ fuel =>
        simp only [run, h, Option.some.injEq] at hrun
        exact hrun.symm
  · intro hr
    exact ⟨1, by simp only [run, h, hr]⟩

theorem gives_again (s t : σ) (r : ρ) (h : body s = .again t) :
    Gives body s r ↔ Gives body t r := by
  constructor
  · rintro ⟨fuel, hrun⟩
    cases fuel with
    | zero => exact absurd hrun (by simp only [run, reduceCtorEq, not_false_eq_true])
    | succ fuel =>
        simp only [run, h] at hrun
        exact ⟨fuel, hrun⟩
  · rintro ⟨fuel, hrun⟩
    exact ⟨fuel + 1, by simp only [run, h, hrun]⟩

/-- A loop has one result, whatever fuel it is run with. -/
theorem gives_unique (s : σ) (r r' : ρ) (h : Gives body s r) (h' : Gives body s r') :
    r = r' := by
  -- By induction on the fuel of one run: the other one takes the same iterations.
  rcases h with ⟨fuel, hrun⟩
  induction fuel generalizing s with
  | zero => exact absurd hrun (by simp only [run, reduceCtorEq, not_false_eq_true])
  | succ fuel ih =>
      rcases hs : body s with t | q
      · simp only [run, hs] at hrun
        exact ih t ((gives_again s t r' hs).mp h') hrun
      · simp only [run, hs, Option.some.injEq] at hrun
        rw [← hrun, (gives_leave s r' q hs).mp h']

/-- What holds at the start and survives every iteration holds wherever an
    iteration starts. -/
theorem visits_invariant (P : σ → Prop) (hstep : ∀ t u, P t → body t = .again u → P u)
    (s t : σ) (hs : P s) (ht : Visits body s t) : P t := by
  induction ht with
  | start => exact hs
  | again t u _ hbody ih => exact hstep t u ih hbody

/-- What holds at the start and survives every iteration tells what the loop
    leaves with. -/
theorem gives_invariant (P : σ → Prop) (Q : ρ → Prop)
    (hstep : ∀ t u, P t → body t = .again u → P u)
    (hleave : ∀ t r, P t → body t = .leave r → Q r)
    (s : σ) (r : ρ) (hs : P s) (hr : Gives body s r) : Q r := by
  -- By induction on the fuel, an iteration at a time.
  rcases hr with ⟨fuel, hrun⟩
  induction fuel generalizing s with
  | zero => exact absurd hrun (by simp only [run, reduceCtorEq, not_false_eq_true])
  | succ fuel ih =>
      rcases hb : body s with t | q
      · simp only [run, hb] at hrun
        exact ih t (hstep s t hs hb) hrun
      · simp only [run, hb, Option.some.injEq] at hrun
        rw [← hrun]
        exact hleave s q hs hb

/-- A loop gives what it gives from any one of the states it visits. -/
theorem gives_visits (s t : σ) (r : ρ) (ht : Visits body s t) :
    Gives body s r ↔ Gives body t r := by
  induction ht with
  | start => exact Iff.rfl
  | again t u _ hbody ih => rw [ih, gives_again t u r hbody]

/-- A loop ends exactly when it ends from any one of the states it visits. -/
theorem halts_visits (s t : σ) (ht : Visits body s t) : Halts body s ↔ Halts body t :=
  exists_congr fun r => gives_visits s t r ht

/-- A loop visits what it visits behind its first iteration. -/
theorem visits_again (s t u : σ) (h : body s = .again t) (hu : Visits body t u) :
    Visits body s u := by
  induction hu with
  | start => exact .again s t .start h
  | again u v _ hbody ih => exact .again u v ih hbody

/-- Every state that is visited is the first one or visited behind the first iteration. -/
theorem visits_cases (s u : σ) (hu : Visits body s u) :
    u = s ∨ ∃ t, body s = .again t ∧ Visits body t u := by
  induction hu with
  | start => exact Or.inl rfl
  | again v u _ hbody ih =>
      rcases ih with rfl | ⟨t, ht, hv⟩
      · exact Or.inr ⟨u, hbody, .start⟩
      · exact Or.inr ⟨t, ht, .again v u hv hbody⟩

/-- A loop whose body is another one's wherever that loop gets to gives the same. -/
theorem gives_congr (body' : σ → Next σ ρ) (s : σ) (r : ρ)
    (h : ∀ t, Visits body s t → body' t = body t) (hr : Gives body s r) : Gives body' s r := by
  rcases hr with ⟨fuel, hrun⟩
  induction fuel generalizing s with
  | zero => exact absurd hrun (by simp only [run, reduceCtorEq, not_false_eq_true])
  | succ fuel ih =>
      have hs := h s .start
      rcases hb : body s with t | q
      · simp only [run, hb] at hrun
        exact (gives_again s t r (hs.trans hb)).mpr
          (ih t (fun u hu => h u (visits_again s t u hb hu)) hrun)
      · simp only [run, hb, Option.some.injEq] at hrun
        exact (gives_leave s r q (hs.trans hb)).mpr hrun.symm

/-- When some measure falls with every iteration, it bounds their number. The
    measure may rely on an invariant. -/
theorem run_of_variant (P : σ → Prop) (v : σ → Nat)
    (hstep : ∀ t u, P t → body t = .again u → P u ∧ v u < v t)
    (n : Nat) (s : σ) (hs : P s) (hn : v s < n) : ∃ r, run body n s = some r := by
  induction n generalizing s with
  | zero => omega
  | succ n ih =>
      rcases hb : body s with t | r
      · rcases hstep s t hs hb with ⟨ht, hlt⟩
        simp only [run, hb]
        exact ih t ht (by omega)
      · exact ⟨r, by simp only [run, hb]⟩

/-- A loop ends when some measure falls with every iteration. -/
theorem halts_of_variant (P : σ → Prop) (v : σ → Nat)
    (hstep : ∀ t u, P t → body t = .again u → P u ∧ v u < v t)
    (s : σ) (hs : P s) : Halts body s := by
  rcases run_of_variant P v hstep (v s + 1) s hs (Nat.lt_succ_self _) with ⟨r, hr⟩
  exact ⟨r, v s + 1, hr⟩

/-- A loop that goes round again from every state of a set, and stays in it,
    does not end. -/
theorem not_halts_of_closed (P : σ → Prop) (hstep : ∀ t, P t → ∃ u, body t = .again u ∧ P u)
    (s : σ) (hs : P s) : ¬ Halts body s := by
  -- The set is an invariant, and no iteration leaves with a result from it.
  rintro ⟨r, hr⟩
  refine gives_invariant P (fun _ => False) (fun t u ht hb => ?_) (fun t r ht hb => ?_) s r hs hr
  · rcases hstep t ht with ⟨u', hb', hu'⟩
    rw [hb, Next.again.injEq] at hb'
    rw [hb']
    exact hu'
  · rcases hstep t ht with ⟨u', hb', -⟩
    rw [hb] at hb'
    exact absurd hb' (by simp only [reduceCtorEq, not_false_eq_true])

variable (body) in
/-- The body behind a check: the loop leaves with nothing to say when the check fails. -/
def guarded (check : σ → Prop) [DecidablePred check] (s : σ) : Next σ (Option ρ) :=
  if check s then
    match body s with
    | .again t => .again t
    | .leave r => .leave (some r)
  else .leave none

/-- A guarded loop has the result of the loop when all checks on the way succeed. -/
theorem gives_guarded_iff (check : σ → Prop) [DecidablePred check] (s : σ) (r : ρ) :
    Gives (guarded body check) s (some r) ↔
      Gives body s r ∧ ∀ t, Visits body s t → check t := by
  have hagain : ∀ s t, check s → body s = .again t → guarded body check s = .again t :=
    fun s t hs hb => by rw [guarded, if_pos hs, hb]
  have hleave : ∀ s q, check s → body s = .leave q →
      guarded body check s = .leave (some q) := fun s q hs hb => by rw [guarded, if_pos hs, hb]
  constructor
  · rintro ⟨fuel, hrun⟩
    induction fuel generalizing s with
    | zero => exact absurd hrun (by simp only [run, reduceCtorEq, not_false_eq_true])
    | succ fuel ih =>
        by_cases hs : check s
        · rcases hb : body s with t | q
          · simp only [run, hagain s t hs hb] at hrun
            rcases ih t hrun with ⟨hgives, hall⟩
            refine ⟨(gives_again s t r hb).mpr hgives, fun u hu => ?_⟩
            rcases visits_cases s u hu with rfl | ⟨t', hb', hu'⟩
            · exact hs
            · rw [hb, Next.again.injEq] at hb'
              exact hall u (hb' ▸ hu')
          · simp only [run, hleave s q hs hb, Option.some.injEq] at hrun
            refine ⟨(gives_leave s r q hb).mpr hrun.symm, fun u hu => ?_⟩
            rcases visits_cases s u hu with rfl | ⟨t', hb', -⟩
            · exact hs
            · rw [hb] at hb'
              exact absurd hb' (by simp only [reduceCtorEq, not_false_eq_true])
        · simp only [run, guarded, if_neg hs, Option.some.injEq, reduceCtorEq] at hrun
  · rintro ⟨⟨fuel, hrun⟩, hall⟩
    induction fuel generalizing s with
    | zero => exact absurd hrun (by simp only [run, reduceCtorEq, not_false_eq_true])
    | succ fuel ih =>
        have hs := hall s .start
        rcases hb : body s with t | q
        · simp only [run, hb] at hrun
          exact (gives_again s t _ (hagain s t hs hb)).mpr
            (ih t (fun u hu => hall u (visits_again s t u hb hu)) hrun)
        · simp only [run, hb, Option.some.injEq] at hrun
          exact (gives_leave s _ _ (hleave s q hs hb)).mpr (congrArg some hrun.symm)

end Loop
