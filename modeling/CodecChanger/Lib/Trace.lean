import Mathlib.Data.List.Basic

/-!
# Runs of a Step Function

Runs of a deterministic machine driven by a list of actions, and the one
induction that every safety argument over such runs repeats.

`Along` says that a property holds in every state a run passes through, the
first and the last included. `Steps` says that every action of the run meets a
condition on itself and on the state it is taken in. What every action keeps
holds wherever a run gets to, `run_invariant`.

A property that is not an invariant fails at some step, and the interesting
question is at which ones. `along_iff_steps` answers it: when a condition is
exactly what one step needs to keep the property, a run keeps the property
throughout exactly when all its steps meet the condition. The side invariant
`J` of the rule is what the step lemma may assume besides the property itself;
it only has to survive the steps that meet the condition.

## Main definitions

* `run`: The state a list of actions leads to.
* `Along`: A property holds in every state of a run.
* `Steps`: A condition holds at every step of a run.
* `answers`: What a machine that answers does answer.
* `kept`: The actions whose answers pass a test.
* `Runs`: A run of a machine that is given by what its actions can do.

## Theorems

* `run_append`: A run is cut anywhere.
* `run_of_steps`, `run_invariant`: What every step keeps, a run keeps.
* `steps_of_invariant`: Conditions that an invariant brings about.
* `along_iff_prefixes`: `Along` is a statement about every prefix of the run.
* `along_iff_steps_of_steps`, `along_iff_steps`: The exact condition for a property to
  hold along a run.
* `along_of_steps`: A condition that suffices.
* `steps_iff_of_simulation`: Conditions on two machines that go together.
* `steps_map`: Conditions on a part of the state.
* `answers_kept`, `run_kept`: Actions that change nothing can be left out.
* `answers_append`: A run is cut anywhere.
* `answers_getElem`: An answer is that to its action after those before it.
* `of_mem_answers`: What every answer has.
* `run_records`: A run that records the answers of a machine.
* `runs_cons_iff`: A run whose actions have one outcome each has one outcome.
-/

namespace Trace

variable {σ α : Type*} (step : σ → α → σ)

/-- The state reached from `s` by the actions of the list, in order. -/
def run (s : σ) (l : List α) : σ := l.foldl step s

/-- The property holds in every state the run passes through. -/
def Along (P : σ → Prop) : σ → List α → Prop
  | s, [] => P s
  | s, a :: l => P s ∧ Along P (step s a) l

/-- Every action of the run meets the condition in the state it is taken in. -/
def Steps (C : σ → α → Prop) : σ → List α → Prop
  | _, [] => True
  | s, a :: l => C s a ∧ Steps C (step s a) l

instance Steps.decidable (C : σ → α → Prop) [∀ s a, Decidable (C s a)] :
    ∀ (s : σ) (l : List α), Decidable (Steps step C s l)
  | _, [] => inferInstanceAs (Decidable True)
  | s, a :: l =>
      have := Steps.decidable C (step s a) l
      inferInstanceAs (Decidable (C s a ∧ Steps step C (step s a) l))

theorem run_append (s : σ) (l₁ l₂ : List α) :
    run step s (l₁ ++ l₂) = run step (run step s l₁) l₂ := by
  simp only [run, List.foldl_append]

/-- What every step keeps that meets a condition, a run of such steps keeps. -/
theorem run_of_steps (P : σ → Prop) (C : σ → α → Prop)
    (hP : ∀ s a, P s → C s a → P (step s a)) (l : List α) (s : σ) (hs : P s)
    (hC : Steps step C s l) : P (run step s l) := by
  induction l generalizing s with
  | nil => exact hs
  | cons a l ih => exact ih (step s a) (hP s a hs hC.1) hC.2

/-- What every step keeps, a run keeps. -/
theorem run_invariant (P : σ → Prop) (hP : ∀ s a, P s → P (step s a)) (l : List α) (s : σ)
    (hs : P s) : P (run step s l) := by
  induction l generalizing s with
  | nil => exact hs
  | cons a l ih => exact ih (step s a) (hP s a hs)

/-- What an invariant says of every step holds at every step of a run. `A` collects
    what is known of the actions. -/
theorem steps_of_invariant (P : σ → Prop) (A : α → Prop) (C : σ → α → Prop)
    (hP : ∀ s a, P s → A a → P (step s a)) (hC : ∀ s a, P s → A a → C s a)
    (l : List α) (s : σ) (hs : P s) (hA : ∀ a ∈ l, A a) : Steps step C s l := by
  induction l generalizing s with
  | nil => trivial
  | cons a l ih =>
      have ha : A a := hA a List.mem_cons_self
      exact ⟨hC s a hs ha, ih (step s a) (hP s a hs ha)
        fun b hb => hA b (List.mem_cons_of_mem a hb)⟩

theorem along_iff_prefixes (P : σ → Prop) (l : List α) (s : σ) :
    Along step P s l ↔ ∀ p, p <+: l → P (run step s p) := by
  induction l generalizing s with
  | nil =>
      constructor
      · intro h p hp
        rw [List.prefix_nil.mp hp]
        exact h
      · intro h
        exact h [] (List.prefix_refl _)
  | cons a l ih =>
      constructor
      · rintro ⟨hs, hrest⟩ p hp
        -- A prefix is empty or takes the first action as well.
        cases p with
        | nil => exact hs
        | cons b p =>
            rcases List.cons_prefix_cons.mp hp with ⟨rfl, hpl⟩
            exact (ih (step s b)).mp hrest p hpl
      · intro h
        refine ⟨h [] List.nil_prefix, (ih (step s a)).mpr fun p hp => ?_⟩
        exact h (a :: p) (List.cons_prefix_cons.mpr ⟨rfl, hp⟩)

/-- The exact condition under which a property holds along a run: when, given
    the side invariant `J`, one step keeps the property if and only if it meets
    the condition, a run keeps the property if and only if all its steps do.
    `W` collects what is known of the steps of the run. -/
theorem along_iff_steps_of_steps (P J : σ → Prop) (W C : σ → α → Prop)
    (hJ : ∀ s a, J s → P s → W s a → C s a → J (step s a))
    (hP : ∀ s a, J s → P s → W s a → (P (step s a) ↔ C s a))
    (l : List α) (s : σ) (hJs : J s) (hPs : P s) (hW : Steps step W s l) :
    Along step P s l ↔ Steps step C s l := by
  induction l generalizing s with
  | nil => exact ⟨fun _ => trivial, fun _ => hPs⟩
  | cons a l ih =>
      rcases hW with ⟨hw, hW⟩
      constructor
      · rintro ⟨-, hrest⟩
        -- The next state has the property, so this step met the condition.
        have hnext : P (step s a) := (along_iff_prefixes step P l _).mp hrest [] List.nil_prefix
        have hc : C s a := (hP s a hJs hPs hw).mp hnext
        exact ⟨hc, (ih (step s a) (hJ s a hJs hPs hw hc) hnext hW).mp hrest⟩
      · rintro ⟨hc, hrest⟩
        have hnext : P (step s a) := (hP s a hJs hPs hw).mpr hc
        exact ⟨hPs, (ih (step s a) (hJ s a hJs hPs hw hc) hnext hW).mpr hrest⟩

/-- The same where `A` collects what is known of the actions themselves. -/
theorem along_iff_steps (P J : σ → Prop) (A : α → Prop) (C : σ → α → Prop)
    (hJ : ∀ s a, J s → P s → A a → C s a → J (step s a))
    (hP : ∀ s a, J s → P s → A a → (P (step s a) ↔ C s a))
    (l : List α) (s : σ) (hJs : J s) (hPs : P s) (hA : ∀ a ∈ l, A a) :
    Along step P s l ↔ Steps step C s l :=
  along_iff_steps_of_steps step P J (fun _ => A) C hJ hP l s hJs hPs
    (steps_of_invariant step (fun _ => True) A (fun _ => A) (fun _ _ _ _ => trivial)
      (fun _ _ _ ha => ha) l s trivial hA)

/-- Where the condition only suffices for a step to keep the property, it suffices for a
    run. -/
theorem along_of_steps (P : σ → Prop) (C : σ → α → Prop)
    (hP : ∀ s a, P s → C s a → P (step s a)) (l : List α) (s : σ) (hs : P s)
    (hC : Steps step C s l) : Along step P s l := by
  induction l generalizing s with
  | nil => exact hs
  | cons a l ih => exact ⟨hs, ih (step s a) (hP s a hs hC.1) hC.2⟩

/-- Two machines that are related, and stay related by every step that meets the
    conditions, meet theirs in the same runs. -/
theorem steps_iff_of_simulation {τ : Type*} (step' : τ → α → τ) (R : σ → τ → Prop)
    (A : α → Prop) (C : σ → α → Prop) (D : τ → α → Prop)
    (hC : ∀ s t a, R s t → A a → (C s a ↔ D t a))
    (hR : ∀ s t a, R s t → A a → C s a → R (step s a) (step' t a)) (l : List α) (s : σ) (t : τ)
    (h : R s t) (hA : ∀ a ∈ l, A a) : Steps step C s l ↔ Steps step' D t l := by
  induction l generalizing s t with
  | nil => exact Iff.rfl
  | cons a l ih =>
      have ha : A a := hA a List.mem_cons_self
      have hl : ∀ b ∈ l, A b := fun b hb => hA b (List.mem_cons_of_mem a hb)
      constructor
      · rintro ⟨hc, hrest⟩
        exact ⟨(hC s t a h ha).mp hc, (ih _ _ (hR s t a h ha hc) hl).mp hrest⟩
      · rintro ⟨hd, hrest⟩
        have hc : C s a := (hC s t a h ha).mpr hd
        exact ⟨hc, (ih _ _ (hR s t a h ha hc) hl).mpr hrest⟩

/-- A condition on what a machine sees of its state is a condition on the run of
    the machine it sees. -/
theorem steps_map {τ : Type*} (step' : τ → α → τ) (f : σ → τ)
    (hf : ∀ s a, f (step s a) = step' (f s) a) (C : τ → α → Prop) (l : List α) (s : σ) :
    Steps step (fun s a => C (f s) a) s l ↔ Steps step' C (f s) l := by
  refine steps_iff_of_simulation step step' (fun s t => f s = t) (fun _ => True) _ C
    (fun s t a ht _ => ?_) (fun s t a ht _ _ => ?_) l s (f s) rfl fun _ _ => trivial
  · rw [ht]
  · rw [← ht, hf s a]

section Answers

variable {β : Type*} (step : σ → α → σ × β) (p : β → Bool)

/-- What a machine answers to the actions of a list, in order. -/
def answers : σ → List α → List β
  | _, [] => []
  | s, a :: l => (step s a).2 :: answers (step s a).1 l

/-- The actions of the list whose answers pass the test. -/
def kept : σ → List α → List α
  | _, [] => []
  | s, a :: l => if p (step s a).2 = true then a :: kept (step s a).1 l else kept (step s a).1 l

/-- What is answered to more actions is answered from where the run has got to. -/
theorem answers_append (s : σ) (l₁ l₂ : List α) :
    answers step s (l₁ ++ l₂) =
      answers step s l₁ ++ answers step (run (fun s a => (step s a).1) s l₁) l₂ := by
  induction l₁ generalizing s with
  | nil => rfl
  | cons a l₁ ih => exact congrArg ((step s a).2 :: ·) (ih (step s a).1)

/-- There is an answer to every action, the one that is given after the actions before. -/
theorem answers_getElem (s : σ) (l : List α) (i : Nat) :
    (answers step s l)[i]? =
      l[i]?.map fun a => (step (run (fun s a => (step s a).1) s (l.take i)) a).2 := by
  induction l generalizing s i with
  | nil => rfl
  | cons a l ih =>
      cases i with
      | zero => rfl
      | succ i => exact ih (step s a).1 i

/-- Actions that are read off others. -/
theorem answers_map {γ : Type*} (f : γ → α) (s : σ) (l : List γ) :
    answers step s (l.map f) = answers (fun s c => step s (f c)) s l := by
  induction l generalizing s with
  | nil => rfl
  | cons c l ih => exact congrArg ((step s (f c)).2 :: ·) (ih (step s (f c)).1)

theorem length_answers (s : σ) (l : List α) : (answers step s l).length = l.length := by
  induction l generalizing s with
  | nil => rfl
  | cons a l ih => exact congrArg Nat.succ (ih (step s a).1)

/-- What an invariant says of the answer to every action holds of all the answers. -/
theorem of_mem_answers (I : σ → Prop) (P : β → Prop) (l : List α)
    (h : ∀ s, ∀ a ∈ l, I s → I (step s a).1 ∧ P (step s a).2) (s : σ) (hs : I s) :
    ∀ b ∈ answers step s l, P b := by
  induction l generalizing s with
  | nil => exact fun b hb => absurd hb List.not_mem_nil
  | cons a l ih =>
      intro b hb
      rcases h s a List.mem_cons_self hs with ⟨hnext, ha⟩
      rcases List.mem_cons.mp hb with hb | hb
      · exact hb ▸ ha
      · exact ih (fun t c hc => h t c (List.mem_cons_of_mem a hc)) _ hnext b hb

/-- A run of which every step either feeds a machine and records its answer or lets it be,
    takes the machine where what it is fed takes it, and has recorded all its answers. `A`
    collects what is known of the actions. -/
theorem run_records {τ γ : Type*} (next : τ → γ → τ) (A : γ → Prop) (feed : γ → Option α)
    (machine : τ → σ) (record : τ → List β)
    (hidle : ∀ t c, A c → feed c = none →
      machine (next t c) = machine t ∧ record (next t c) = record t)
    (hfeed : ∀ t c a, A c → feed c = some a → machine (next t c) = (step (machine t) a).1 ∧
      record (next t c) = record t ++ [(step (machine t) a).2])
    (l : List γ) (t : τ) (hA : ∀ c ∈ l, A c) :
    machine (run next t l) = run (fun s a => (step s a).1) (machine t) (l.filterMap feed) ∧
      record (run next t l) = record t ++ answers step (machine t) (l.filterMap feed) := by
  induction l generalizing t with
  | nil => exact ⟨rfl, (List.append_nil _).symm⟩
  | cons c l ih =>
      have hc : A c := hA c List.mem_cons_self
      rcases ih (next t c) fun d hd => hA d (List.mem_cons_of_mem c hd) with ⟨hmachine, hrecord⟩
      have hrun : run next t (c :: l) = run next (next t c) l := rfl
      cases hf : feed c with
      | none =>
          rcases hidle t c hc hf with ⟨hm, hr⟩
          rw [List.filterMap_cons_none hf, hrun, hmachine, hrecord, hm, hr]
          exact ⟨rfl, rfl⟩
      | some a =>
          rcases hfeed t c a hc hf with ⟨hm, hr⟩
          rw [List.filterMap_cons_some hf, hrun, hmachine, hrecord, hm, hr, List.append_assoc]
          exact ⟨rfl, rfl⟩

/-- When the state is what it was behind every action whose answer does not pass, leaving
    those actions out leaves the other answers. -/
theorem answers_kept (hsilent : ∀ s a, ¬ p (step s a).2 = true → (step s a).1 = s) (l : List α)
    (s : σ) : answers step s (kept step p s l) = (answers step s l).filter p := by
  induction l generalizing s with
  | nil => rfl
  | cons a l ih =>
      have hanswers : answers step s (a :: l) = (step s a).2 :: answers step (step s a).1 l := rfl
      rw [hanswers, kept]
      by_cases hp : p (step s a).2 = true
      · rw [if_pos hp, List.filter_cons_of_pos hp, ← ih]
        rfl
      · rw [if_neg hp, List.filter_cons_of_neg hp, hsilent s a hp]
        exact ih s

/-- And it leaves the last state. -/
theorem run_kept (hsilent : ∀ s a, ¬ p (step s a).2 = true → (step s a).1 = s) (l : List α)
    (s : σ) : run (fun s a => (step s a).1) s (kept step p s l) =
      run (fun s a => (step s a).1) s l := by
  induction l generalizing s with
  | nil => rfl
  | cons a l ih =>
      change _ = run (fun s a => (step s a).1) (step s a).1 l
      rw [kept]
      by_cases hp : p (step s a).2 = true
      · rw [if_pos hp]
        exact ih (step s a).1
      · rw [if_neg hp, hsilent s a hp]
        exact ih s

end Answers

section Relation

variable {β : Type*} (does : σ → α → σ → β → Prop)

/-- From `s` the actions of the list can lead to a state, with these answers. -/
inductive Runs : σ → List α → σ → List β → Prop
  | nil (s : σ) : Runs s [] s []
  | cons (s t u : σ) (a : α) (b : β) (l : List α) (bs : List β) : does s a t b →
      Runs t l u bs → Runs s (a :: l) u (b :: bs)

theorem runs_nil_iff (s t : σ) (bs : List β) : Runs does s [] t bs ↔ t = s ∧ bs = [] := by
  constructor
  · intro h
    cases h with
    | nil => exact ⟨rfl, rfl⟩
  · rintro ⟨rfl, rfl⟩
    exact .nil _

/-- When an action has one outcome, and the actions behind it have one from there, they have
    one together. -/
theorem runs_cons_iff (s t u : σ) (a : α) (b : β) (l : List α) (bs : List β)
    (ha : ∀ t' b', does s a t' b' ↔ t' = t ∧ b' = b)
    (hl : ∀ u' bs', Runs does t l u' bs' ↔ u' = u ∧ bs' = bs) (u' : σ) (bs' : List β) :
    Runs does s (a :: l) u' bs' ↔ u' = u ∧ bs' = b :: bs := by
  constructor
  · intro h
    cases h with
    | cons _ t' _ _ b' _ bs'' hfirst hrest =>
        rcases (ha t' b').mp hfirst with ⟨rfl, rfl⟩
        rcases (hl u' bs'').mp hrest with ⟨rfl, rfl⟩
        exact ⟨rfl, rfl⟩
  · rintro ⟨rfl, rfl⟩
    exact .cons s t _ a _ l _ ((ha t b).mpr ⟨rfl, rfl⟩) ((hl _ _).mpr ⟨rfl, rfl⟩)

end Relation

end Trace
