import CodecChanger.Lib.OrderedMap
import Mathlib.Data.Tree.Basic

/-!
# Search Trees with a User Comparator

How an ordered associative container looks for the place of a new entry: down
from the root, to the left where the comparator puts the key first and to the
right everywhere else. The key counts as present when the entry the search
leaves right in front of it does not come before it.

Where the comparator is an order on the keys at hand, the shape of the tree
does not matter and the entries are those of the list model
(`emplace_eq_of_agrees`). Where it is none, the search can miss a key that is
there. It still finds no key that is not there: `emplace_perm_of_ne` asks of
the comparator only that it compare any two different keys.

## Main definitions

* `inorder`: The entries of a tree from left to right.
* `place`: The entries on either side of where a search ends.
* `emplace`: Insertion that leaves the tree alone when the key is found.
* `Shape`: A way to arrange entries in a tree.

## Theorems

* `place_append`: A search cuts the entries in two.
* `mem_emplace`: The entries after an insertion.
* `not_less_of_getLast`: The search went right at the entry in front of the place.
* `place_sides`: With an order, the cut is at the key.
* `emplace_perm_of_ne`: A key that is not there is inserted.
* `emplace_eq_of_agrees`: With an order, the tree does what the list does.
-/

namespace SearchTree

open OrderedMap

variable {κ ν ρ : Type*}

/-- The entries from left to right. -/
def inorder : BinaryTree (κ × ν) → List (κ × ν)
  | .nil => []
  | .node e l r => inorder l ++ e :: inorder r

/-- A way to arrange entries in a tree, as rebalancing may have left them. -/
structure Shape (κ ν : Type*) where
  tree : List (κ × ν) → BinaryTree (κ × ν)
  inorder_tree : ∀ m, inorder (tree m) = m

/-- The tree without left children. -/
def Shape.chain : Shape κ ν where
  tree := List.foldr (fun e t => .node e .nil t) .nil
  inorder_tree := by
    intro m
    induction m with
    | nil => rfl
    | cons e m ih => exact congrArg (e :: ·) ih

section Comparator

variable (less : κ → κ → Prop) [DecidableRel less]

/-- The entries in front of the place a search for `k` ends at, and those behind. -/
def place (k : κ) : BinaryTree (κ × ν) → List (κ × ν) × List (κ × ν)
  | .nil => ([], [])
  | .node e l r =>
      if less k e.1 then ((place k l).1, (place k l).2 ++ e :: inorder r)
      else (inorder l ++ e :: (place k r).1, (place k r).2)

/-- Insert an entry at the place the search ends at, unless the entry in front does not
    come before it. -/
def emplace (k : κ) (v : ν) (t : BinaryTree (κ × ν)) : List (κ × ν) :=
  if ∀ e ∈ (place less k t).1.getLast?, less e.1 k then
    (place less k t).1 ++ (k, v) :: (place less k t).2
  else inorder t

theorem place_append (k : κ) (t : BinaryTree (κ × ν)) :
    (place less k t).1 ++ (place less k t).2 = inorder t := by
  induction t with
  | nil => rfl
  | node e l r ihl ihr =>
      rw [place, inorder]
      by_cases h : less k e.1
      · rw [if_pos h, ← List.append_assoc, ihl]
      · rw [if_neg h, List.append_assoc, List.cons_append, ihr]

theorem mem_emplace (k : κ) (v : ν) (t : BinaryTree (κ × ν)) (e : κ × ν)
    (he : e ∈ emplace less k v t) : e ∈ inorder t ∨ e = (k, v) := by
  rw [emplace] at he
  by_cases hnew : ∀ e ∈ (place less k t).1.getLast?, less e.1 k
  · rw [if_pos hnew, List.perm_middle.mem_iff, List.mem_cons, place_append] at he
    exact he.symm
  · rw [if_neg hnew] at he
    exact Or.inl he

/-- The entry in front of the place is the last one the search went right at. -/
theorem not_less_of_getLast (k : κ) (t : BinaryTree (κ × ν)) (e : κ × ν)
    (he : e ∈ (place less k t).1.getLast?) : ¬ less k e.1 := by
  induction t with
  | nil => exact absurd he (Option.not_mem_none e)
  | node e' l r ihl ihr =>
      rw [place] at he
      by_cases h : less k e'.1
      · rw [if_pos h] at he
        exact ihl he
      · rw [if_neg h, List.getLast?_append, List.getLast?_cons] at he
        -- Behind the entry there is the one the right half puts in front, or none.
        cases hr : (place less k r).1.getLast? with
        | none =>
            rw [hr] at he
            rw [← Option.some.inj he]
            exact h
        | some e'' =>
            rw [hr] at he
            exact ihr (hr.trans he)

/-- A key that differs from all others is inserted, whatever the tree and the order of
    the others. -/
theorem emplace_perm_of_ne (k : κ) (v : ν) (t : BinaryTree (κ × ν))
    (htri : ∀ e ∈ inorder t, ¬ less k e.1 → less e.1 k) :
    (emplace less k v t).Perm ((k, v) :: inorder t) := by
  have hnew : ∀ e ∈ (place less k t).1.getLast?, less e.1 k := by
    intro e he
    refine htri e ?_ (not_less_of_getLast less k t e he)
    rw [← place_append less k t]
    exact List.mem_append_left _ (List.mem_of_getLast? he)
  rw [emplace, if_pos hnew, ← place_append less k t]
  exact List.perm_middle

end Comparator

section Rank

variable [LinearOrder ρ] (rank : κ → ρ) (less : κ → κ → Prop) [DecidableRel less]

/-- With an order, the entries behind the place are those the key comes before. -/
theorem place_sides (k : κ) (t : BinaryTree (κ × ν)) (hag : Agrees rank less k (inorder t))
    (ht : Ranked rank (inorder t)) :
    (∀ e ∈ (place less k t).1, ¬ less k e.1) ∧ ∀ e ∈ (place less k t).2, less k e.1 := by
  induction t with
  | nil => exact ⟨fun _ he => absurd he List.not_mem_nil, fun _ he => absurd he List.not_mem_nil⟩
  | node e l r ihl ihr =>
      rw [inorder] at ht
      rcases List.pairwise_append.mp ht with ⟨htl, htr, hlr⟩
      rcases List.pairwise_cons.mp htr with ⟨her, htr⟩
      have hagl : ∀ x ∈ inorder l, _ := fun x hx => hag x (List.mem_append_left _ hx)
      have hagr : ∀ x ∈ e :: inorder r, _ := fun x hx => hag x (List.mem_append_right _ hx)
      have hage := hagr e List.mem_cons_self
      rw [place]
      by_cases h : less k e.1
      · rw [if_pos h]
        rcases ihl hagl htl with ⟨hfront, hback⟩
        refine ⟨hfront, fun x hx => ?_⟩
        rcases List.mem_append.mp hx with hx | hx
        · exact hback x hx
        · rcases List.mem_cons.mp hx with rfl | hx
          · exact h
          · -- What is above an entry above the key is above the key.
            exact (hagr x (List.mem_cons_of_mem e hx)).1.mpr (lt_trans (hage.1.mp h) (her x hx))
      · rw [if_neg h]
        rcases ihr (fun x hx => hagr x (List.mem_cons_of_mem e hx)) htr with ⟨hfront, hback⟩
        refine ⟨fun x hx => ?_, hback⟩
        rcases List.mem_append.mp hx with hx | hx
        · intro hless
          have hxe := hlr x hx e List.mem_cons_self
          exact h (hage.1.mpr (lt_trans ((hagl x hx).1.mp hless) hxe))
        · rcases List.mem_cons.mp hx with rfl | hx
          · exact h
          · exact hfront x hx

theorem orderedInsert_append {α : Type*} (r : α → α → Prop) [DecidableRel r] (a : α)
    (l₁ l₂ : List α) (h₁ : ∀ b ∈ l₁, ¬ r a b) (h₂ : ∀ b ∈ l₂, r a b) :
    (l₁ ++ l₂).orderedInsert r a = l₁ ++ a :: l₂ := by
  induction l₁ with
  | nil =>
      cases l₂ with
      | nil => rfl
      | cons b l₂ =>
          rw [List.nil_append, List.orderedInsert_cons, if_pos (h₂ b List.mem_cons_self)]
          rfl
  | cons b l₁ ih =>
      rw [List.cons_append, List.orderedInsert_cons, if_neg (h₁ b List.mem_cons_self),
        ih fun c hc => h₁ c (List.mem_cons_of_mem b hc)]
      rfl

/-- With an order, the key is found exactly when it is there. -/
theorem new_iff_not_present (k : κ) (t : BinaryTree (κ × ν))
    (hag : Agrees rank less k (inorder t)) (ht : Ranked rank (inorder t)) :
    (∀ e ∈ (place less k t).1.getLast?, less e.1 k) ↔ ¬ Present less k (inorder t) := by
  have hcut := place_append less k t
  constructor
  · rintro hnew ⟨e, he, hke, hek⟩
    -- It is in front of the place, so the last one there is not below it.
    have hfront : e ∈ (place less k t).1 := by
      rw [← hcut] at he
      refine (List.mem_append.mp he).resolve_right fun hback => hke ?_
      exact (place_sides rank less k t hag ht).2 e hback
    rcases List.eq_nil_or_concat (place less k t).1 with hnil | ⟨front, last, hlast⟩
    · rw [hnil] at hfront
      exact List.not_mem_nil hfront
    · rw [List.concat_eq_append] at hlast
      have hbelow : less last.1 k := hnew last (by rw [hlast]; exact List.getLast?_concat)
      rw [← hcut, hlast] at hag ht
      rw [hlast] at hfront
      have hranked := (List.pairwise_append.mp (List.pairwise_append.mp ht).1).2.2
      have hage := hag e (List.mem_append_left _ hfront)
      have hagl := hag last (List.mem_append_left _ (List.mem_append_right _ List.mem_cons_self))
      rcases List.mem_append.mp hfront with he' | he'
      · exact hek (hage.2.mpr (lt_trans (hranked e he' last List.mem_cons_self)
          (hagl.2.mp hbelow)))
      · exact hek (List.mem_singleton.mp he' ▸ hbelow)
  · intro hnot e he
    by_contra hless
    refine hnot ⟨e, ?_, not_less_of_getLast less k t e he, hless⟩
    rw [← hcut]
    exact List.mem_append_left _ (List.mem_of_getLast? he)

/-- With an order, insertion into the tree is insertion into the list of its entries. -/
theorem emplace_eq_of_agrees (k : κ) (v : ν) (t : BinaryTree (κ × ν))
    (hag : Agrees rank less k (inorder t)) (ht : Ranked rank (inorder t)) :
    emplace less k v t = OrderedMap.emplace less k v (inorder t) := by
  have hiff := new_iff_not_present rank less k t hag ht
  by_cases hp : Present less k (inorder t)
  · rw [emplace, if_neg fun h => hiff.mp h hp, emplace_of_present less k v _ hp]
  · rcases place_sides rank less k t hag ht with ⟨hfront, hback⟩
    rw [emplace, if_pos (hiff.mpr hp), OrderedMap.emplace, if_neg hp, ← place_append less k t]
    exact (orderedInsert_append _ (k, v) _ _ hfront hback).symm

end Rank

end SearchTree
