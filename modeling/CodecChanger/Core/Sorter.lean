import CodecChanger.Lib.Circular
import CodecChanger.Lib.OrderedMap

/-!
# The Packet Sorter

`PacketSorter` of `utils.h` and `utils.cpp`: the buffer that puts the packets
of an upload stream back in order. It knows the number it expects next and
keeps early packets in a map ordered by `Less`, the sign of the wrapped
difference of two 32-bit numbers.

The sorter stores pointers and never looks behind them, so the type of what is
stored is a parameter. Pointers are not null: `HandleSocket` passes what `new`
returned, and a null would make `Get` claim there is nothing to get. `Init`
and `Skip` delete what they drop, and the model returns the deleted pointers.

The map is a list in order here. `std::map` is a search tree, and the two hold
the same as long as `Less` is an order on the keys, which it is within half the
ring; `insertIn` in `Theory.Sorter.Ownership` is `insert` with the tree.

## Main definitions

* `PacketSorter`: The sorter's members.
* `PacketSorter.less`, `PacketSorter.lessSigned`: The order of the map, with a
  subtraction that wraps around and with one that may not.
* `PacketSorter.constructed`: A sorter before its first `init`.
* `PacketSorter.init`: Reset, deleting what is still buffered.
* `PacketSorter.insert`: One packet arrives.
* `PacketSorter.get`: Take the front of the map if it is the expected packet.
* `PacketSorter.skip`: Give up waiting and trim what has fallen behind.
* `PacketSorter.Call`, `PacketSorter.call`: The calls a client can make.

## Theorems

* `less_iff`: The order of the map as a bound on the distance.
* `less_or_less`: Different numbers come one before the other.
* `present_iff`: The map holds a key exactly when an entry has that number.
* `insert_of_now`, `insert_of_first`, `insert_of_behind`, `insert_of_next`:
  What `insert` does, case by case.
* `insert_cases`, `get_cases`: All that `insert` and `get` can do.
-/

namespace CodecChanger

open Circular OrderedMap

variable {δ : Type*}

/-- `PacketSorter`. The map `data_` is the list of its entries in the order of
    `Less`. -/
structure PacketSorter (δ : Type*) where
  isFirst : Bool
  increase : BitVec 32
  nowSn : BitVec 32
  data : List (BitVec 32 × δ)

namespace PacketSorter

/-- `PacketStatus`, the answers of `Insert`. -/
inductive PacketStatus where
  | kPacketNow
  | kPacketNext
  | kPacketBehind
  deriving DecidableEq, Repr

/-- `Less`: `int32_t(lh) - int32_t(rh) < 0`, the subtraction wrapping around. -/
abbrev less (lh rh : BitVec 32) : Prop := precedes lh rh

/-- `Less` where the subtraction of two `int32_t` must not overflow: without an answer
    when it does. -/
abbrev lessSigned (lh rh : BitVec 32) : Option Bool := precedesSigned lh rh

/-- A sorter as its constructor leaves it: `increase_` and `now_sn_` have no
    initializer and hold anything. -/
def constructed (increase nowSn : BitVec 32) : PacketSorter δ :=
  { isFirst := true, increase := increase, nowSn := nowSn, data := [] }

/-- The numbers of the buffered packets. -/
def keys (q : PacketSorter δ) : List (BitVec 32) := q.data.map Prod.fst

/-- The pointers the map holds. -/
def held (q : PacketSorter δ) : List δ := q.data.map Prod.snd

/-- `Init`, together with the pointers it deletes. -/
def init (increase : BitVec 32) (q : PacketSorter δ) : PacketSorter δ × List δ :=
  ({ isFirst := true, increase := increase, nowSn := 0, data := [] }, q.held)

/-- `Insert`. `emplace` leaves the map alone when the number is a key already,
    and the answer does not depend on that. -/
def insert (sn : BitVec 32) (d : δ) (q : PacketSorter δ) : PacketStatus × PacketSorter δ :=
  if q.nowSn = sn then
    -- `is_first_` stays as it is in this branch.
    (.kPacketNow, { q with nowSn := q.nowSn + q.increase })
  else if q.isFirst then
    -- The first packet of a stream synchronises the sorter.
    (.kPacketNow, { q with nowSn := sn + q.increase, isFirst := false })
  else if less sn q.nowSn then
    (.kPacketBehind, q)
  else if less q.nowSn sn then
    (.kPacketNext, { q with data := emplace less sn d q.data })
  else
    (.kPacketNow, q)

/-- `Get`: the front entry's pointer if its number is the expected one, and
    `none` for the null pointer. The expected number stays. -/
def get (q : PacketSorter δ) : Option δ × PacketSorter δ :=
  match q.data with
  | [] => (none, q)
  | e :: rest => if e.1 = q.nowSn then (some e.2, { q with data := rest }) else (none, q)

/-- `Skip`, together with the pointers it deletes. The loop erases front
    entries for as long as they are behind the new expected number. -/
def skip (num : BitVec 32) (q : PacketSorter δ) : PacketSorter δ × List δ :=
  let nowSn := q.nowSn + num * q.increase
  ({ q with nowSn := nowSn, data := q.data.dropWhile fun e => less e.1 nowSn },
    (q.data.takeWhile fun e => less e.1 nowSn).map Prod.snd)

/-- The calls a client can make. -/
inductive Call (δ : Type*) where
  | init (increase : BitVec 32)
  | insert (sn : BitVec 32) (d : δ)
  | get
  | skip (num : BitVec 32)

/-- The sorter after one call. -/
def call (q : PacketSorter δ) : Call δ → PacketSorter δ
  | .init increase => (q.init increase).1
  | .insert sn d => (q.insert sn d).2
  | .get => q.get.2
  | .skip num => (q.skip num).1

theorem less_iff (a b : BitVec 32) : less a b ↔ 2 ^ 32 ≤ 2 * ahead b a := precedes_iff a b

theorem less_or_less (a b : BitVec 32) (h : a ≠ b) : less a b ∨ less b a := by
  rw [less_iff, less_iff]
  -- Going round from one to the other and back makes a whole turn, so one of the
  -- two distances is at least half of it.
  have h1 : ahead a b ≠ 0 := fun hc => h ((ahead_eq_zero_iff a b).mp hc).symm
  rcases ahead_cases a b with ⟨_, _⟩ | ⟨_, _⟩ <;>
    rcases ahead_cases b a with ⟨_, _⟩ | ⟨_, _⟩ <;> omega

/-- Keys the comparator cannot tell apart are equal. -/
theorem present_iff (sn : BitVec 32) (q : PacketSorter δ) :
    Present less sn q.data ↔ sn ∈ q.keys := by
  rw [keys, List.mem_map]
  constructor
  · rintro ⟨e, he, h1, h2⟩
    refine ⟨e, he, ?_⟩
    by_contra hne
    rcases less_or_less e.1 sn hne with h | h
    · exact h2 h
    · exact h1 h
  · rintro ⟨e, he, rfl⟩
    exact ⟨e, he, not_precedes_self _, not_precedes_self _⟩

theorem insert_of_now (d : δ) (q : PacketSorter δ) :
    q.insert q.nowSn d = (.kPacketNow, { q with nowSn := q.nowSn + q.increase }) := by
  rw [insert, if_pos rfl]

theorem insert_of_first (sn : BitVec 32) (d : δ) (q : PacketSorter δ) (hne : q.nowSn ≠ sn)
    (hf : q.isFirst = true) :
    q.insert sn d = (.kPacketNow, { q with nowSn := sn + q.increase, isFirst := false }) := by
  rw [insert, if_neg hne, if_pos hf]

theorem insert_of_behind (sn : BitVec 32) (d : δ) (q : PacketSorter δ) (hne : q.nowSn ≠ sn)
    (hf : q.isFirst = false) (hl : less sn q.nowSn) :
    q.insert sn d = (.kPacketBehind, q) := by
  rw [insert, if_neg hne, hf, if_neg Bool.false_ne_true, if_pos hl]

/-- The last branch of `Insert` is never taken: what is neither behind nor
    equal is ahead. -/
theorem insert_of_next (sn : BitVec 32) (d : δ) (q : PacketSorter δ) (hne : q.nowSn ≠ sn)
    (hf : q.isFirst = false) (hl : ¬ less sn q.nowSn) :
    q.insert sn d = (.kPacketNext, { q with data := emplace less sn d q.data }) := by
  have hnext : less q.nowSn sn := (less_or_less q.nowSn sn hne).resolve_right hl
  rw [insert, if_neg hne, hf, if_neg Bool.false_ne_true, if_neg hl, if_pos hnext]

/-- All that `insert` can do, and when it does it. -/
theorem insert_cases (sn : BitVec 32) (d : δ) (q : PacketSorter δ) :
    (q.nowSn = sn ∧
        q.insert sn d = (.kPacketNow, { q with nowSn := q.nowSn + q.increase })) ∨
      (q.nowSn ≠ sn ∧ q.isFirst = true ∧
        q.insert sn d = (.kPacketNow, { q with nowSn := sn + q.increase, isFirst := false })) ∨
      (q.nowSn ≠ sn ∧ q.isFirst = false ∧ less sn q.nowSn ∧
        q.insert sn d = (.kPacketBehind, q)) ∨
      (q.nowSn ≠ sn ∧ q.isFirst = false ∧ ¬ less sn q.nowSn ∧
        q.insert sn d = (.kPacketNext, { q with data := emplace less sn d q.data })) := by
  by_cases hnow : q.nowSn = sn
  · subst hnow
    exact Or.inl ⟨rfl, insert_of_now d q⟩
  · rcases Bool.eq_false_or_eq_true q.isFirst with hf | hf
    · exact Or.inr (Or.inl ⟨hnow, hf, insert_of_first sn d q hnow hf⟩)
    · by_cases hl : less sn q.nowSn
      · exact Or.inr (Or.inr (Or.inl ⟨hnow, hf, hl, insert_of_behind sn d q hnow hf hl⟩))
      · exact Or.inr (Or.inr (Or.inr ⟨hnow, hf, hl, insert_of_next sn d q hnow hf hl⟩))

/-- `get` takes an entry out or changes nothing. -/
theorem get_cases (q : PacketSorter δ) :
    (q.get.1 = none ∧ q.get.2 = q) ∨
      ∃ e rest, q.data = e :: rest ∧ e.1 = q.nowSn ∧
        q.get = (some e.2, { q with data := rest }) := by
  rw [get]
  cases hd : q.data with
  | nil => exact Or.inl ⟨rfl, rfl⟩
  | cons e rest =>
      by_cases he : e.1 = q.nowSn
      · exact Or.inr ⟨e, rest, rfl, he, by simp only [he, if_true]⟩
      · exact Or.inl ⟨by simp only [if_neg he], by simp only [if_neg he]⟩

end PacketSorter

end CodecChanger
