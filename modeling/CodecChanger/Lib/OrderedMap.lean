import Mathlib.Data.List.Sort
import Mathlib.Data.List.TakeWhile
import Mathlib.Order.Defs.LinearOrder

/-!
# Ordered Maps with a User Comparator

A map kept as the list of its entries in the order of a comparator, the way an
ordered associative container keeps them. The comparator is a parameter and
need not be an order: two keys are the same key when neither comes before the
other, and what the operations do follows from that alone.

Order needs more. A comparator that is only trustworthy on some keys is tied
to a genuine linear order by `Agrees`, which says that on the keys at hand the
comparator compares ranks. Then the list is `Ranked`, insertion keeps it so
(`ranked_emplace`), the first entry has the least rank, and dropping a prefix
drops everything below a bound (`not_of_mem_dropWhile`).

## Main definitions

* `Present`: Some entry of the map has the key, up to the comparator.
* `emplace`: Insertion that leaves the map alone when the key is present.
* `Agrees`: The comparator compares ranks on the keys at hand.
* `Ranked`: The entries stand in increasing order of rank.

## Theorems

* `emplace_of_present`: A present key is not inserted again.
* `emplace_perm`: An absent key adds exactly its entry.
* `filter_emplace_of_neg`: It moves no other entry.
* `mem_emplace`: The entries after an insertion.
* `present_iff_of_agrees`: Presence is equality of ranks.
* `pairwise_orderedInsert`: Inserting a new rank in place keeps a list ordered.
* `ranked_emplace`: Insertion keeps the entries in order.
* `not_of_mem_dropWhile`: A dropped prefix takes with it all that is below.
* `takeWhile_eq_filter`, `dropWhile_eq_filter`: Cutting the map at a bound.
-/

namespace OrderedMap

variable {κ ν ρ : Type*}

section Comparator

variable (less : κ → κ → Prop) [DecidableRel less]

/-- Some entry's key comes neither before nor after `k`. -/
def Present (k : κ) (m : List (κ × ν)) : Prop :=
  ∃ e ∈ m, ¬ less k e.1 ∧ ¬ less e.1 k

instance (k : κ) (m : List (κ × ν)) : Decidable (Present less k m) :=
  inferInstanceAs (Decidable (∃ e ∈ m, ¬ less k e.1 ∧ ¬ less e.1 k))

/-- Insert an entry at its place, unless its key is already present. -/
def emplace (k : κ) (v : ν) (m : List (κ × ν)) : List (κ × ν) :=
  if Present less k m then m else m.orderedInsert (fun x y => less x.1 y.1) (k, v)

theorem emplace_of_present (k : κ) (v : ν) (m : List (κ × ν)) (h : Present less k m) :
    emplace less k v m = m := by
  rw [emplace, if_pos h]

theorem emplace_perm (k : κ) (v : ν) (m : List (κ × ν)) (h : ¬ Present less k m) :
    (emplace less k v m).Perm ((k, v) :: m) := by
  rw [emplace, if_neg h]
  exact List.perm_orderedInsert _ _ m

theorem mem_emplace (k : κ) (v : ν) (m : List (κ × ν)) (e : κ × ν) :
    e ∈ emplace less k v m ↔ e ∈ m ∨ (e = (k, v) ∧ ¬ Present less k m) := by
  by_cases h : Present less k m
  · simp only [emplace_of_present less k v m h, h, not_true_eq_false, and_false, or_false]
  · rw [(emplace_perm less k v m h).mem_iff, List.mem_cons]
    simp only [h, not_false_eq_true, and_true]
    exact or_comm

/-- Entries that the new one is not among are not moved. -/
theorem filter_emplace_of_neg (k : κ) (v : ν) (m : List (κ × ν)) (p : κ × ν → Bool)
    (hp : ¬ p (k, v) = true) : (emplace less k v m).filter p = m.filter p := by
  by_cases h : Present less k m
  · rw [emplace_of_present less k v m h]
  · rw [emplace, if_neg h]
    induction m with
    | nil => rw [List.orderedInsert_nil, List.filter_cons_of_neg hp]
    | cons e m ih =>
        rw [List.orderedInsert_cons]
        by_cases hless : less k e.1
        · rw [if_pos hless, List.filter_cons_of_neg hp]
        · -- The entry in front is treated as before, and the rest by induction.
          rw [if_neg hless, List.filter_cons, List.filter_cons, ih fun hc => h ?_]
          rcases hc with ⟨e', he', hne⟩
          exact ⟨e', List.mem_cons_of_mem e he', hne⟩

end Comparator

section Rank

variable [LinearOrder ρ] (rank : κ → ρ)

/-- On `k` and the keys of the map the comparator compares ranks. -/
def Agrees (less : κ → κ → Prop) (k : κ) (m : List (κ × ν)) : Prop :=
  ∀ e ∈ m, (less k e.1 ↔ rank k < rank e.1) ∧ (less e.1 k ↔ rank e.1 < rank k)

/-- The entries stand in strictly increasing order of rank. -/
def Ranked (m : List (κ × ν)) : Prop := m.Pairwise fun x y => rank x.1 < rank y.1

theorem present_iff_of_agrees (less : κ → κ → Prop) (k : κ) (m : List (κ × ν))
    (h : Agrees rank less k m) : Present less k m ↔ ∃ e ∈ m, rank e.1 = rank k := by
  constructor
  · rintro ⟨e, he, h1, h2⟩
    rw [(h e he).1, not_lt] at h1
    rw [(h e he).2, not_lt] at h2
    exact ⟨e, he, le_antisymm h1 h2⟩
  · rintro ⟨e, he, heq⟩
    refine ⟨e, he, ?_, ?_⟩
    · rw [(h e he).1, heq]
      exact lt_irrefl _
    · rw [(h e he).2, heq]
      exact lt_irrefl _

/-- Insertion in place keeps a list in order of rank when its rank is new. -/
theorem pairwise_orderedInsert {α : Type*} (r : α → α → Prop) [DecidableRel r] (rank : α → ρ)
    (a : α) (l : List α) (hr : ∀ b ∈ l, r a b ↔ rank a < rank b)
    (hne : ∀ b ∈ l, rank b ≠ rank a) (hl : l.Pairwise fun x y => rank x < rank y) :
    (l.orderedInsert r a).Pairwise fun x y => rank x < rank y := by
  induction l with
  | nil => exact List.pairwise_singleton _ _
  | cons b l ih =>
      rcases List.pairwise_cons.mp hl with ⟨hb, hrest⟩
      have hab := hr b List.mem_cons_self
      rw [List.orderedInsert_cons]
      by_cases hless : r a b
      · -- The new element goes in front, and what follows `b` is above `b`.
        rw [if_pos hless]
        refine List.pairwise_cons.mpr ⟨fun e he => ?_, hl⟩
        rcases List.mem_cons.mp he with rfl | he
        · exact hab.mp hless
        · exact lt_trans (hab.mp hless) (hb e he)
      · rw [if_neg hless]
        -- `b` is below the new element, since the rank is new.
        have hba : rank b < rank a :=
          lt_of_le_of_ne (not_lt.mp fun h => hless (hab.mpr h)) (hne b List.mem_cons_self)
        refine List.pairwise_cons.mpr ⟨fun e he => ?_, ih
          (fun e he => hr e (List.mem_cons_of_mem b he))
          (fun e he => hne e (List.mem_cons_of_mem b he)) hrest⟩
        rcases (List.mem_orderedInsert _).mp he with rfl | he
        · exact hba
        · exact hb e he

theorem ranked_emplace (less : κ → κ → Prop) [DecidableRel less] (k : κ) (v : ν)
    (m : List (κ × ν)) (hag : Agrees rank less k m) (hm : Ranked rank m) :
    Ranked rank (emplace less k v m) := by
  by_cases hp : Present less k m
  · rw [emplace_of_present less k v m hp]
    exact hm
  · rw [emplace, if_neg hp]
    refine pairwise_orderedInsert _ (fun e : κ × ν => rank e.1) (k, v) m
      (fun e he => (hag e he).1) (fun e he heq => hp ?_) hm
    exact (present_iff_of_agrees rank less k m hag).mpr ⟨e, he, heq⟩

/-- When whatever is below a dropped entry is to be dropped as well, nothing to
    be dropped is left behind the prefix. -/
theorem not_of_mem_dropWhile (p : κ × ν → Bool) (m : List (κ × ν)) (hm : Ranked rank m)
    (hp : ∀ x ∈ m, ∀ y ∈ m, rank x.1 < rank y.1 → p y = true → p x = true)
    (e : κ × ν) (he : e ∈ m.dropWhile p) : ¬ p e = true := by
  induction m with
  | nil => exact absurd he List.not_mem_nil
  | cons b m ih =>
      rcases List.pairwise_cons.mp hm with ⟨hb, hrest⟩
      rw [List.dropWhile_cons] at he
      by_cases hpb : p b = true
      · rw [if_pos hpb] at he
        exact ih hrest (fun x hx y hy => hp x (List.mem_cons_of_mem b hx) y
          (List.mem_cons_of_mem b hy)) he
      · rw [if_neg hpb] at he
        rcases List.mem_cons.mp he with rfl | he'
        · exact hpb
        · -- An entry above the first that stays is not below the bound either.
          exact fun hpe => hpb (hp b List.mem_cons_self e (List.mem_cons_of_mem b he')
            (hb e he') hpe)

/-- The entries behind a dropped prefix are those that are not to be dropped. -/
theorem dropWhile_eq_filter (p : κ × ν → Bool) (m : List (κ × ν)) (hm : Ranked rank m)
    (hp : ∀ x ∈ m, ∀ y ∈ m, rank x.1 < rank y.1 → p y = true → p x = true) :
    m.dropWhile p = m.filter fun e => !p e := by
  have hprefix : (m.takeWhile p).filter (fun e => !p e) = [] := by
    refine List.filter_eq_nil_iff.mpr fun e he => ?_
    rw [List.mem_takeWhile_imp he]
    exact Bool.false_ne_true
  have hrest : (m.dropWhile p).filter (fun e => !p e) = m.dropWhile p := by
    refine List.filter_eq_self.mpr fun e he => ?_
    rw [Bool.not_eq_true', Bool.eq_false_iff]
    exact not_of_mem_dropWhile rank p m hm hp e he
  calc m.dropWhile p
      = (m.takeWhile p ++ m.dropWhile p).filter fun e => !p e := by
        rw [List.filter_append, hprefix, hrest, List.nil_append]
    _ = m.filter fun e => !p e := by rw [List.takeWhile_append_dropWhile]

/-- The dropped prefix is all that is to be dropped. -/
theorem takeWhile_eq_filter (p : κ × ν → Bool) (m : List (κ × ν)) (hm : Ranked rank m)
    (hp : ∀ x ∈ m, ∀ y ∈ m, rank x.1 < rank y.1 → p y = true → p x = true) :
    m.takeWhile p = m.filter p := by
  have hprefix : (m.takeWhile p).filter p = m.takeWhile p :=
    List.filter_eq_self.mpr fun e he => List.mem_takeWhile_imp he
  have hrest : (m.dropWhile p).filter p = [] :=
    List.filter_eq_nil_iff.mpr (not_of_mem_dropWhile rank p m hm hp)
  calc m.takeWhile p
      = (m.takeWhile p ++ m.dropWhile p).filter p := by
        rw [List.filter_append, hprefix, hrest, List.append_nil]
    _ = m.filter p := by rw [List.takeWhile_append_dropWhile]

end Rank

end OrderedMap
