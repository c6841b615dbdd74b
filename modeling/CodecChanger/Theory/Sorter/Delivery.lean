import CodecChanger.Core.Sorter
import Mathlib.Data.List.Nodup
import Mathlib.Data.List.Perm.Basic
import Mathlib.Data.List.Range

/-!
# Delivery in Sequence

Which orders of arrival the sorter puts right.

The client considered is the one the interface suggests: it hands a packet on
at once when `insert` says `kPacketNow` and then calls `get` until nothing
comes. Every packet of the stream arrives once, the first one first.

The packets are `nth s inc k` for `k ≤ n`, and all that matters about them is
the place `k`: within the stretch they cover, less than half the ring, the
sorter's comparisons are comparisons of places. `Lane` is the sorter with
places for numbers, and `Follows` the simulation that ties the two together.

On a lane the shortcoming is plain. `get` takes the expected packet out but
does not expect the next one, so after it has yielded a packet the sorter waits
for one it has already handed over, and everything later is buffered for good.
The stream is delivered in full only when that packet was the last: all packets
but the last have to arrive in order, and the last may arrive at any time.
`Stalled` is the invariant that keeps the last packet from ever coming out. A
stream that starts with number zero is worse off: `insert` takes its first
packet for the expected one and stays ready to be synchronised, so the first
packet out of order passes for the first of the stream.

## Main definitions

* `drain`: Call `get` until it returns null.
* `arrive`, `deliver`: What the client hands on, for one packet and for many.
* `Lane`: The sorter on places instead of numbers.
* `Follows`: A sorter's state is the state of a lane.
* `Stalled`: Some place will never be passed.
* `Awaits`: What is still to arrive when all is well.
* `PutRight`: The orders of arrival the sorter puts right.

## Theorems

* `drain_eq`: What draining takes out.
* `less_nth_iff`: Comparing numbers of the stream is comparing places.
* `follows_arrive`: The sorter follows the lane.
* `stalled_arrive`: A stalled lane stays stalled and withholds the last place.
* `lane_deliver_iff`: The orders a synchronised lane puts right.
* `lane_deliver_waiting_iff`: The orders a lane starting from zero puts right.
* `deliver_iff`: The orders of arrival the sorter puts right.
* `deliver_iff_three`: The same for three packets, the last one early.
* `deliver_fails`: Four packets of which the last is never handed on.
-/

namespace CodecChanger

open Circular OrderedMap

variable {δ : Type*}

namespace PacketSorter

/-- Call `get` until it returns null, at most `fuel` times. -/
def drainFor : Nat → PacketSorter δ → List δ × PacketSorter δ
  | 0, q => ([], q)
  | fuel + 1, q => match q.get with
    | (none, q') => ([], q')
    | (some d, q') => (d :: (drainFor fuel q').1, (drainFor fuel q').2)

/-- Call `get` until it returns null. Every call before that takes an entry out
    of the map, so there are no more of them than entries. -/
def drain (q : PacketSorter δ) : List δ × PacketSorter δ := drainFor (q.data.length + 1) q

/-- What the client hands on when a packet arrives. -/
def arrive (sn : BitVec 32) (d : δ) (q : PacketSorter δ) : List δ × PacketSorter δ :=
  match q.insert sn d with
  | (.kPacketNow, q') => (d :: q'.drain.1, q'.drain.2)
  | (.kPacketNext, q') => q'.drain
  | (.kPacketBehind, q') => q'.drain

/-- What the client hands on when packets arrive one after the other. -/
def deliver (q : PacketSorter δ) : List (BitVec 32 × δ) → List δ
  | [] => []
  | (sn, d) :: ps => (q.arrive sn d).1 ++ deliver (q.arrive sn d).2 ps

theorem drainFor_eq (fuel : Nat) (q : PacketSorter δ) (hfuel : q.data.length < fuel) :
    drainFor fuel q = ((q.data.takeWhile fun e => e.1 = q.nowSn).map Prod.snd,
      { q with data := q.data.dropWhile fun e => e.1 = q.nowSn }) := by
  induction fuel generalizing q with
  | zero => omega
  | succ fuel ih =>
      rw [drainFor, get]
      cases hd : q.data with
      | nil =>
          simp only [List.takeWhile_nil, List.dropWhile_nil, List.map_nil]
          rw [← hd]
      | cons e rest =>
          rw [hd, List.length_cons] at hfuel
          by_cases he : e.1 = q.nowSn
          · -- The front goes out, and the rest is drained at the same number.
            have hrest := ih { q with data := rest } (by simp only []; omega)
            simp only [he, if_true, hrest, List.takeWhile_cons, List.dropWhile_cons,
              decide_true, List.map_cons]
          · simp only [List.takeWhile_cons, List.dropWhile_cons, he, decide_false,
              Bool.false_eq_true, if_false, List.map_nil]
            rw [← hd]

theorem drain_eq (q : PacketSorter δ) :
    q.drain = ((q.data.takeWhile fun e => e.1 = q.nowSn).map Prod.snd,
      { q with data := q.data.dropWhile fun e => e.1 = q.nowSn }) :=
  drainFor_eq _ q (Nat.lt_succ_self _)

/-- Of an empty map nothing comes out. -/
theorem drain_of_nil (q : PacketSorter δ) (h : q.data = []) : q.drain = ([], q) := by
  rw [drain_eq, h]
  simp only [List.takeWhile_nil, List.dropWhile_nil, List.map_nil]
  rw [← h]

end PacketSorter

/-- The sorter with places of the stream for numbers. -/
structure Lane where
  waiting : Bool
  next : Nat
  early : List Nat

namespace Lane

/-- Take out the front for as long as it is the expected place. -/
def drain (l : Lane) : List Nat × Lane :=
  (l.early.takeWhile fun k => k = l.next, { l with early := l.early.dropWhile fun k => k = l.next })

/-- The packet of place `k` arrives. -/
def arrive (k : Nat) (l : Lane) : List Nat × Lane :=
  if k = l.next then
    let l' := { l with next := l.next + 1 }
    (k :: l'.drain.1, l'.drain.2)
  else if l.waiting then
    let l' := { l with next := k + 1, waiting := false }
    (k :: l'.drain.1, l'.drain.2)
  else if k < l.next then
    l.drain
  else
    { l with early := l.early.orderedInsert (· < ·) k }.drain

/-- The places handed on when packets arrive one after the other. -/
def deliver (l : Lane) : List Nat → List Nat
  | [] => []
  | k :: ks => (l.arrive k).1 ++ deliver (l.arrive k).2 ks

/-- Nothing comes out while everything buffered is beyond the expected place. -/
theorem drain_of_lt (l : Lane) (h : ∀ b ∈ l.early, l.next < b) : l.drain = ([], l) := by
  cases he : l.early with
  | nil =>
      simp only [drain, he, List.takeWhile_nil, List.dropWhile_nil]
      rw [← he]
  | cons b rest =>
      have hb : b ≠ l.next := by
        have := h b (he ▸ List.mem_cons_self)
        omega
      simp only [drain, he, List.takeWhile_cons, List.dropWhile_cons, hb, decide_false,
        Bool.false_eq_true, if_false]
      rw [← he]

/-- Only the expected place comes out when it is at the front. -/
theorem drain_of_head (w : Bool) (m : Nat) (rest : List Nat) (h : ∀ b ∈ rest, m < b) :
    drain { waiting := w, next := m, early := m :: rest } =
      ([m], { waiting := w, next := m, early := rest }) := by
  have hrest := drain_of_lt { waiting := w, next := m, early := rest } h
  simp only [drain, Prod.mk.injEq, Lane.mk.injEq, true_and] at hrest
  simp only [drain, List.takeWhile_cons, List.dropWhile_cons, decide_true, if_true, hrest.1,
    hrest.2]

/-- An arrival adds nothing but itself to the buffer. -/
theorem early_arrive (k : Nat) (l : Lane) (j : Nat) (hj : j ∈ (l.arrive k).2.early) :
    j = k ∨ j ∈ l.early := by
  rw [arrive] at hj
  split at hj
  · exact Or.inr ((List.dropWhile_suffix _).mem hj)
  · split at hj
    · exact Or.inr ((List.dropWhile_suffix _).mem hj)
    · split at hj
      · exact Or.inr ((List.dropWhile_suffix _).mem hj)
      · exact (List.mem_orderedInsert _).mp ((List.dropWhile_suffix _).mem hj)

/-- Some place below the last is never passed: it is the expected one or it is
    buffered, and it does not arrive any more. -/
structure Stalled (n : Nat) (ks : List Nat) (l : Lane) : Prop where
  synchronised : l.waiting = false
  sorted : l.early.Pairwise (· < ·)
  beyond : ∀ b ∈ l.early, l.next < b
  dead : ∃ b, b < n ∧ l.next ≤ b ∧ b ∉ ks ∧ (b = l.next ∨ b ∈ l.early)

/-- A stalled lane stays stalled whatever arrives next, and the last place does
    not come out. -/
theorem stalled_arrive (n k : Nat) (ks : List Nat) (l : Lane) (h : Stalled n (k :: ks) l)
    (hk : k ∉ l.early) : n ∉ (l.arrive k).1 ∧ Stalled n ks (l.arrive k).2 := by
  rcases h with ⟨hw, hsort, hbeyond, b, hbn, hnb, hbks, hb⟩
  have hbk : b ≠ k := fun hc => hbks (hc ▸ List.mem_cons_self)
  have hbks' : b ∉ ks := fun hc => hbks (List.mem_cons_of_mem k hc)
  rw [arrive]
  by_cases hnext : k = l.next
  · rw [if_pos hnext]
    have hmem : b ∈ l.early := hb.resolve_left (hnext ▸ hbk)
    have hlt := hbeyond b hmem
    -- The front of the buffer decides whether anything else comes out.
    cases he : l.early with
    | nil => exact absurd (he ▸ hmem) List.not_mem_nil
    | cons c rest =>
        rw [he] at hsort hbeyond hmem
        rcases List.pairwise_cons.mp hsort with ⟨hc, hrest⟩
        have hcl := hbeyond c List.mem_cons_self
        have hcb : c ≤ b := by
          rcases List.mem_cons.mp hmem with rfl | hr
          · exact le_refl _
          · exact le_of_lt (hc b hr)
        by_cases hfront : c = l.next + 1
        · subst hfront
          simp only []
          rw [drain_of_head l.waiting (l.next + 1) rest hc]
          refine ⟨?_, hw, hrest, hc, b, hbn, hcb, hbks', ?_⟩
          · simp only [List.mem_cons, List.not_mem_nil, or_false]
            omega
          · exact List.mem_cons.mp hmem
        · have hall : ∀ x ∈ c :: rest, l.next + 1 < x := by
            intro x hx
            rcases List.mem_cons.mp hx with rfl | hr
            · omega
            · have := hc x hr
              omega
          simp only []
          rw [drain_of_lt { l with next := l.next + 1, early := c :: rest } hall]
          refine ⟨?_, hw, hsort, hall, b, hbn, by simp only []; omega, hbks', Or.inr hmem⟩
          simp only [List.mem_cons, List.not_mem_nil, or_false]
          omega
  · rw [if_neg hnext, if_neg (by rw [hw]; exact Bool.false_ne_true)]
    by_cases hlt : k < l.next
    · rw [if_pos hlt, drain_of_lt l hbeyond]
      exact ⟨List.not_mem_nil, hw, hsort, hbeyond, b, hbn, hnb, hbks', hb⟩
    · rw [if_neg hlt]
      have hall : ∀ x ∈ l.early.orderedInsert (· < ·) k, l.next < x := by
        intro x hx
        rcases (List.mem_orderedInsert _).mp hx with rfl | hx
        · omega
        · exact hbeyond x hx
      rw [drain_of_lt { l with early := l.early.orderedInsert (· < ·) k } hall]
      refine ⟨List.not_mem_nil, hw, ?_, hall, b, hbn, hnb, hbks', ?_⟩
      · exact pairwise_orderedInsert _ id k l.early (fun _ _ => Iff.rfl)
          (fun b hb (hc : b = k) => hk (hc ▸ hb)) hsort
      · exact hb.imp_right fun hb => (List.mem_orderedInsert _).mpr (Or.inr hb)

theorem not_mem_deliver_of_stalled (n : Nat) (ks : List Nat) (l : Lane) (h : Stalled n ks l)
    (hnd : ks.Nodup) (hdisj : ∀ k ∈ ks, k ∉ l.early) : n ∉ l.deliver ks := by
  induction ks generalizing l with
  | nil => exact List.not_mem_nil
  | cons k ks ih =>
      rcases List.nodup_cons.mp hnd with ⟨hk, hnd'⟩
      rcases stalled_arrive n k ks l h (hdisj k List.mem_cons_self) with ⟨hout, hnext⟩
      rw [deliver, List.mem_append, not_or]
      refine ⟨hout, ih _ hnext hnd' fun j hj hmem => ?_⟩
      -- What is buffered afterwards was buffered before or has just arrived.
      rcases early_arrive k l j hmem with rfl | hold
      · exact hk hj
      · exact hdisj j (List.mem_cons_of_mem k hj) hold

/-- The expected place arrives and nothing buffered follows it directly. -/
theorem arrive_next (w : Bool) (m : Nat) (early : List Nat) (h : ∀ b ∈ early, m + 1 < b) :
    arrive m { waiting := w, next := m, early := early } =
      ([m], { waiting := w, next := m + 1, early := early }) := by
  rw [arrive, if_pos rfl]
  simp only [drain_of_lt { waiting := w, next := m + 1, early := early } h]

/-- The expected place arrives and the only buffered one follows it directly. -/
theorem arrive_next_last (m : Nat) :
    arrive m { waiting := false, next := m, early := [m + 1] } =
      ([m, m + 1], { waiting := false, next := m + 1, early := [] }) := by
  rw [arrive, if_pos rfl]
  simp only [drain_of_head false (m + 1) [] (fun _ hb => absurd hb List.not_mem_nil)]

/-- A place beyond the expected one is buffered. -/
theorem arrive_early (m k : Nat) (early : List Nat) (hk : m < k) (h : ∀ b ∈ early, m < b) :
    arrive k { waiting := false, next := m, early := early } =
      ([], { waiting := false, next := m, early := early.orderedInsert (· < ·) k }) := by
  rw [arrive, if_neg (by omega : ¬ k = m), if_neg Bool.false_ne_true,
    if_neg (by omega : ¬ k < m)]
  refine drain_of_lt { waiting := false, next := m, early := early.orderedInsert (· < ·) k }
    fun b hb => ?_
  rcases (List.mem_orderedInsert _).mp hb with rfl | hb
  · exact hk
  · exact h b hb

/-- A lane that waits to be synchronised takes any place for the first. -/
theorem arrive_waiting (m k : Nat) (hk : k ≠ m) :
    arrive k { waiting := true, next := m, early := [] } =
      ([k], { waiting := false, next := k + 1, early := [] }) := by
  rw [arrive, if_neg hk, if_pos rfl]
  simp only [drain_of_lt { waiting := false, next := k + 1, early := [] }
    (fun _ hb => absurd hb List.not_mem_nil)]

/-- A place below the last comes early: the last never comes out. -/
theorem not_mem_deliver_of_early (n m k : Nat) (ks early : List Nat) (hmk : m < k) (hkn : k < n)
    (hnd : (k :: ks).Nodup) (hsort : early.Pairwise (· < ·)) (hbeyond : ∀ b ∈ early, m < b)
    (hdisj : ∀ j ∈ k :: ks, j ∉ early) :
    n ∉ deliver { waiting := false, next := m, early := early } (k :: ks) := by
  rcases List.nodup_cons.mp hnd with ⟨hk, hnd'⟩
  rw [deliver, arrive_early m k early hmk hbeyond, List.nil_append]
  refine not_mem_deliver_of_stalled n ks _ ⟨rfl, ?_, fun b hb => ?_, k, hkn, ?_, hk, Or.inr ?_⟩
    hnd' fun j hj hmem => ?_
  · exact pairwise_orderedInsert _ id k early (fun _ _ => Iff.rfl)
      (fun b hb (hc : b = k) => hdisj k List.mem_cons_self (hc ▸ hb)) hsort
  · rcases (List.mem_orderedInsert _).mp hb with rfl | hb
    · exact hmk
    · exact hbeyond b hb
  · exact Nat.le_of_lt hmk
  · exact (List.mem_orderedInsert _).mpr (Or.inl rfl)
  · rcases (List.mem_orderedInsert _).mp hmem with rfl | hold
    · exact hk hj
    · exact hdisj j (List.mem_cons_of_mem k hj) hold

/-- The places from `m` to `n` that are not buffered are still to arrive, each
    once, and at most the last one is buffered. -/
structure Awaits (n m : Nat) (early ks : List Nat) : Prop where
  early_eq : early = [] ∨ early = [n] ∧ m < n
  le : m ≤ n + 1
  nodup : ks.Nodup
  mem_iff : ∀ k, k ∈ ks ↔ m ≤ k ∧ k ≤ n ∧ k ∉ early

/-- What is buffered is beyond the expected place. -/
theorem awaits_beyond (n m : Nat) (early ks : List Nat) (h : Awaits n m early ks) :
    ∀ b ∈ early, m < b := by
  rcases h.early_eq with rfl | ⟨rfl, hlt⟩
  · exact fun b hb => absurd hb List.not_mem_nil
  · intro b hb
    rw [List.mem_singleton.mp hb]
    exact hlt

/-- When nothing is left to arrive, nothing was missing. -/
theorem awaits_nil (n m : Nat) (early : List Nat) (h : Awaits n m early []) : m = n + 1 := by
  by_contra hc
  have hle := h.le
  refine absurd ((h.mem_iff m).mpr ⟨le_refl _, by omega, fun hm => ?_⟩) List.not_mem_nil
  exact lt_irrefl m (awaits_beyond n m early [] h m hm)

/-- What is still to arrive after the next one. -/
theorem awaits_rest (n m k : Nat) (early ks : List Nat) (h : Awaits n m early (k :: ks)) (j : Nat) :
    j ∈ ks ↔ (m ≤ j ∧ j ≤ n ∧ j ∉ early) ∧ j ≠ k := by
  have hk := (List.nodup_cons.mp h.nodup).1
  rw [← h.mem_iff j, List.mem_cons]
  constructor
  · exact fun hj => ⟨Or.inr hj, fun hc => hk (hc ▸ hj)⟩
  · exact fun ⟨hj, hne⟩ => hj.resolve_left hne

/-- The expected place arrives, and the one behind it is buffered: that is the
    last one, and the stream ends. -/
theorem awaits_last (n m : Nat) (ks : List Nat) (h : Awaits n m [m + 1] (m :: ks)) :
    n = m + 1 ∧ ks = [] := by
  have hn : n = m + 1 := by
    rcases h.early_eq with hc | ⟨hc, -⟩
    · exact absurd hc (List.cons_ne_nil _ _)
    · injection hc with hc
      exact hc.symm
  refine ⟨hn, List.eq_nil_iff_forall_not_mem.mpr fun j hj => ?_⟩
  have hj' := (awaits_rest n m m [m + 1] ks h j).mp hj
  rw [List.mem_singleton] at hj'
  omega

/-- The expected place arrives, and the one behind it is not buffered. -/
theorem awaits_next (n m : Nat) (early ks : List Nat) (h : Awaits n m early (m :: ks))
    (hlast : early ≠ [m + 1]) : (∀ b ∈ early, m + 1 < b) ∧ Awaits n (m + 1) early ks := by
  have hm := (h.mem_iff m).mp List.mem_cons_self
  have hgap : ∀ b ∈ early, m + 1 < b := by
    intro b hb
    have hlt := awaits_beyond n m early (m :: ks) h b hb
    rcases h.early_eq with rfl | ⟨rfl, -⟩
    · exact absurd hb List.not_mem_nil
    · have hbn := List.mem_singleton.mp hb
      have : n ≠ m + 1 := fun hc => hlast (by rw [hc])
      omega
  refine ⟨hgap, ?_, by omega, (List.nodup_cons.mp h.nodup).2, fun j => ?_⟩
  · rcases h.early_eq with rfl | ⟨rfl, hlt⟩
    · exact Or.inl rfl
    · have := hgap n List.mem_cons_self
      exact Or.inr ⟨rfl, by omega⟩
  · rw [awaits_rest n m m early ks h j]
    constructor
    · exact fun ⟨⟨h1, h2, h3⟩, h4⟩ => ⟨by omega, h2, h3⟩
    · exact fun ⟨h1, h2, h3⟩ => ⟨⟨by omega, h2, h3⟩, by omega⟩

/-- The last place arrives before its time, and is the only one buffered. -/
theorem awaits_early (n m : Nat) (early ks : List Nat) (h : Awaits n m early (n :: ks))
    (hne : n ≠ m) : early = [] ∧ m < n ∧ Awaits n m [n] ks := by
  rcases (h.mem_iff n).mp List.mem_cons_self with ⟨hmn, -, hn⟩
  have hempty : early = [] := by
    rcases h.early_eq with hc | ⟨hc, -⟩
    · exact hc
    · exact absurd (hc ▸ List.mem_singleton_self n) hn
  refine ⟨hempty, by omega, Or.inr ⟨rfl, by omega⟩, h.le, (List.nodup_cons.mp h.nodup).2,
    fun j => ?_⟩
  rw [awaits_rest n m n early ks h j, hempty, List.mem_singleton]
  simp only [List.not_mem_nil, not_false_eq_true, and_true]
  exact and_assoc

/-- Whatever is still to come is beyond the expected place, so that one may stand
    in front of any of it. -/
theorem pairwise_expected_iff (n m : Nat) (early ks l : List Nat)
    (h : Awaits n m early (m :: ks)) (hl : l ⊆ ks) :
    (m :: l).Pairwise (· < ·) ↔ l.Pairwise (· < ·) := by
  rw [List.pairwise_cons]
  refine ⟨fun hs => hs.2, fun hs => ⟨fun j hj => ?_, hs⟩⟩
  have hj' := (awaits_rest n m m early ks h j).mp (hl hj)
  omega

/-- The same for what is to come but the last place. -/
theorem pairwise_front_iff (n m : Nat) (early ks : List Nat) (h : Awaits n m early (m :: ks)) :
    ((m :: ks).filter (· ≠ n)).Pairwise (· < ·) ↔ (ks.filter (· ≠ n)).Pairwise (· < ·) := by
  rw [List.filter_cons]
  split
  · exact pairwise_expected_iff n m early ks _ h (List.filter_subset_self ks)
  · exact Iff.rfl

/-- A place that is not the last comes early: then the arrivals are not in order,
    for the expected place comes later. -/
theorem not_pairwise_of_gap (n m k : Nat) (early ks : List Nat) (h : Awaits n m early (k :: ks))
    (hmk : m < k) (hkn : k < n) : ¬ ((k :: ks).filter (· ≠ n)).Pairwise (· < ·) := by
  intro hsort
  rw [List.filter_cons, if_pos (decide_eq_true (by omega : k ≠ n))] at hsort
  have hm : m ∈ ks := by
    refine (awaits_rest n m k early ks h m).mpr ⟨⟨le_refl _, by omega, fun hc => ?_⟩, by omega⟩
    exact lt_irrefl m (awaits_beyond n m early (k :: ks) h m hc)
  have hlt := (List.pairwise_cons.mp hsort).1 m
    (List.mem_filter.mpr ⟨hm, decide_eq_true (by omega : m ≠ n)⟩)
  omega

/-- A synchronised lane, with at most the last place in the buffer, hands on
    everything still to come in sequence exactly when all but the last place
    arrive in order. -/
theorem lane_deliver_iff (n : Nat) (ks : List Nat) (m : Nat) (early : List Nat)
    (h : Awaits n m early ks) :
    deliver { waiting := false, next := m, early := early } ks = List.range' m (n + 1 - m) ↔
      (ks.filter (· ≠ n)).Pairwise (· < ·) := by
  induction ks generalizing m early with
  | nil =>
      simp only [deliver, awaits_nil n m early h, Nat.sub_self, List.range'_zero,
        List.filter_nil, List.Pairwise.nil]
  | cons k ks ih =>
      rcases (h.mem_iff k).mp List.mem_cons_self with ⟨hmk, hkn, -⟩
      by_cases hnext : k = m
      · subst hnext
        rw [deliver, show n + 1 - k = (n - k) + 1 by omega, List.range'_succ,
          pairwise_front_iff n k early ks h]
        by_cases hlast : early = [k + 1]
        · rw [hlast] at h ⊢
          rcases awaits_last n k ks h with ⟨hn, hks⟩
          rw [arrive_next_last, hks, hn]
          simp only [deliver, List.append_nil, Nat.add_sub_cancel_left, List.range'_one,
            List.filter_nil, List.Pairwise.nil]
        · rcases awaits_next n k early ks h hlast with ⟨hgap, hawaits⟩
          rw [arrive_next false k early hgap]
          simp only [List.singleton_append, List.cons.injEq, true_and]
          rw [show n - k = n + 1 - (k + 1) by omega]
          exact ih (k + 1) early hawaits
      · by_cases hlast : k = n
        · -- The last place comes early and waits.
          subst hlast
          rcases awaits_early k m early ks h hnext with ⟨hempty, hlt, hawaits⟩
          subst hempty
          rw [deliver, arrive_early m k [] hlt fun _ hb => absurd hb List.not_mem_nil,
            List.nil_append, List.orderedInsert_nil,
            List.filter_cons_of_neg (by simp only [ne_eq, not_true_eq_false, decide_false,
              Bool.false_eq_true, not_false_eq_true])]
          exact ih m [k] hawaits
        · -- A gap opens before a place that is not the last, and the last is withheld.
          refine iff_of_false (fun hout => ?_)
            (not_pairwise_of_gap n m k early ks h (by omega) (by omega))
          have hn : n ∈ List.range' m (n + 1 - m) := by
            rw [List.mem_range'_1]
            omega
          rw [← hout] at hn
          refine absurd hn (not_mem_deliver_of_early n m k ks early (by omega) (by omega) h.nodup
            ?_ (awaits_beyond n m early (k :: ks) h) fun j hj => ((h.mem_iff j).mp hj).2.2)
          rcases h.early_eq with rfl | ⟨rfl, -⟩
          · exact List.Pairwise.nil
          · exact List.pairwise_singleton _ _

/-- A lane that still waits to be synchronised hands everything on in sequence
    exactly when everything arrives in order. -/
theorem lane_deliver_waiting_iff (n : Nat) (ks : List Nat) (m : Nat) (h : Awaits n m [] ks) :
    deliver { waiting := true, next := m, early := [] } ks = List.range' m (n + 1 - m) ↔
      ks.Pairwise (· < ·) := by
  induction ks generalizing m with
  | nil =>
      simp only [deliver, awaits_nil n m [] h, Nat.sub_self, List.range'_zero, List.Pairwise.nil]
  | cons k ks ih =>
      rcases (h.mem_iff k).mp List.mem_cons_self with ⟨hmk, hkn, -⟩
      rw [deliver, show n + 1 - m = (n - m) + 1 by omega, List.range'_succ]
      by_cases hnext : k = m
      · subst hnext
        rcases awaits_next n k [] ks h (List.cons_ne_nil _ _).symm with ⟨hgap, hawaits⟩
        rw [arrive_next true k [] hgap, pairwise_expected_iff n k [] ks ks h (List.Subset.refl ks)]
        simp only [List.singleton_append, List.cons.injEq, true_and]
        rw [show n - k = n + 1 - (k + 1) by omega]
        exact ih (k + 1) hawaits
      · -- The first packet out of order comes out at once, before its time, and
        -- the expected place, still to come, is below it.
        rw [arrive_waiting m k hnext, List.pairwise_cons]
        simp only [List.singleton_append, List.cons.injEq, hnext, false_and, false_iff, not_and]
        intro hall
        have hm : m ∈ ks := (awaits_rest n m k [] ks h m).mpr
          ⟨⟨le_refl _, by omega, List.not_mem_nil⟩, fun hc => hnext hc.symm⟩
        have := hall m hm
        omega

/-- When the first place comes first, everything else is still to come. -/
theorem awaits_of_perm (n : Nat) (rest : List Nat) (h : (0 :: rest).Perm (List.range (n + 1))) :
    Awaits n 0 [] (0 :: rest) := by
  refine ⟨Or.inl rfl, Nat.zero_le _, h.nodup_iff.mpr List.nodup_range, fun k => ?_⟩
  rw [h.mem_iff, List.mem_range]
  simp only [Nat.zero_le, List.not_mem_nil, not_false_eq_true, and_true, true_and]
  omega

end Lane

namespace PacketSorter

section Stream

variable (s inc : BitVec 32) (n : Nat) (d : Nat → δ)

/-- The sorter's state is the lane's, with the numbers of the stream for the
    places. -/
structure Follows (l : Lane) (q : PacketSorter δ) : Prop where
  isFirst_eq : q.isFirst = l.waiting
  increase_eq : q.increase = inc
  nowSn_eq : q.nowSn = nth s inc l.next
  data_eq : q.data = l.early.map fun k => (nth s inc k, d k)

/-- The places a lane deals with once the first packet has been handed on. -/
structure InStream (l : Lane) : Prop where
  one_le_next : 1 ≤ l.next
  next_le : l.next ≤ n + 1
  early_le : ∀ b ∈ l.early, 1 ≤ b ∧ b ≤ n

variable {s inc n d}

/-- Within the stream, comparing numbers is comparing places. -/
theorem less_nth_iff (hinc : inc ≠ 0) (hn : n * inc.toNat < 2 ^ 31) (i j : Nat)
    (hi : 1 ≤ i ∧ i ≤ n + 1) (hj : 1 ≤ j ∧ j ≤ n + 1) :
    less (nth s inc i) (nth s inc j) ↔ i < j := by
  have hpos : 0 < inc.toNat := Nat.pos_of_ne_zero fun hc => hinc (BitVec.eq_of_toNat_eq hc)
  -- Two places lie at most `n` apart, so their numbers stay in the half window.
  have hwin : ∀ a b, 1 ≤ a → b ≤ n + 1 → a ≤ b →
      ahead (nth s inc a) (nth s inc b) = (b - a) * inc.toNat ∧ (b - a) * inc.toNat < 2 ^ 31 := by
    intro a b ha hb hab
    have hle : (b - a) * inc.toNat ≤ n * inc.toNat := Nat.mul_le_mul_right _ (by omega)
    exact ⟨ahead_nth s inc a b hab (by omega), by omega⟩
  rcases Nat.lt_or_ge i j with hlt | hge
  · rcases hwin i j hi.1 hj.2 (Nat.le_of_lt hlt) with ⟨hd, hsmall⟩
    have hstep : 0 < (j - i) * inc.toNat := Nat.mul_pos (by omega) hpos
    refine iff_of_true ?_ hlt
    refine (precedes_iff_ahead_lt (nth s inc i) _ _ (by rw [ahead_self]; omega)
      (by omega)).mpr ?_
    rw [ahead_self, hd]
    exact hstep
  · rcases hwin j i hj.1 hi.2 hge with ⟨hd, hsmall⟩
    refine iff_of_false (fun hc => ?_) (by omega)
    have hlt := (precedes_iff_ahead_lt (nth s inc j) _ _ (by omega)
      (by rw [ahead_self]; omega)).mp hc
    rw [ahead_self] at hlt
    omega

theorem nth_eq_iff (hinc : inc ≠ 0) (hn : n * inc.toNat < 2 ^ 31) (i j : Nat)
    (hi : 1 ≤ i ∧ i ≤ n + 1) (hj : 1 ≤ j ∧ j ≤ n + 1) :
    nth s inc i = nth s inc j ↔ i = j := by
  refine ⟨fun h => ?_, fun h => by rw [h]⟩
  have h1 := less_nth_iff (s := s) hinc hn i j hi hj
  have h2 := less_nth_iff (s := s) hinc hn j i hj hi
  rw [h] at h1 h2
  have hself := not_precedes_self (nth s inc j)
  have h3 : ¬ i < j := fun hc => hself (h1.mpr hc)
  have h4 : ¬ j < i := fun hc => hself (h2.mpr hc)
  omega

/-- Predicates that agree on a list cut it at the same point. -/
theorem while_congr {α : Type*} (p q : α → Bool) (l : List α) (h : ∀ a ∈ l, p a = q a) :
    l.takeWhile p = l.takeWhile q ∧ l.dropWhile p = l.dropWhile q := by
  induction l with
  | nil => exact ⟨rfl, rfl⟩
  | cons a l ih =>
      rcases ih fun b hb => h b (List.mem_cons_of_mem a hb) with ⟨h1, h2⟩
      simp only [List.takeWhile_cons, List.dropWhile_cons, h a List.mem_cons_self, h1, h2,
        and_self]

theorem follows_drain (hinc : inc ≠ 0) (hn : n * inc.toNat < 2 ^ 31) (l : Lane)
    (q : PacketSorter δ) (hl : InStream n l) (hq : Follows s inc d l q) :
    q.drain.1 = l.drain.1.map d ∧ Follows s inc d l.drain.2 q.drain.2 ∧
      InStream n l.drain.2 := by
  have hsame : ∀ k ∈ l.early, decide (nth s inc k = nth s inc l.next) = decide (k = l.next) := by
    intro k hk
    have hkn := hl.early_le k hk
    exact decide_eq_decide.mpr (nth_eq_iff hinc hn k l.next ⟨hkn.1, by omega⟩
      ⟨hl.one_le_next, hl.next_le⟩)
  rcases while_congr _ _ l.early hsame with ⟨htake, hdrop⟩
  rw [drain_eq, hq.data_eq, hq.nowSn_eq, List.takeWhile_map, List.dropWhile_map]
  refine ⟨?_, ⟨hq.isFirst_eq, hq.increase_eq, rfl, ?_⟩, hl.one_le_next, hl.next_le,
    fun b hb => hl.early_le b ((List.dropWhile_suffix _).mem hb)⟩
  · simp only [Function.comp_def, htake, List.map_map, Lane.drain]
  · simp only [Function.comp_def, hdrop, Lane.drain]

/-- The sorter does on numbers what the lane does on places. -/
theorem follows_arrive (hinc : inc ≠ 0) (hn : n * inc.toNat < 2 ^ 31) (l : Lane)
    (q : PacketSorter δ) (hl : InStream n l) (hq : Follows s inc d l q) (k : Nat)
    (hk : 1 ≤ k ∧ k ≤ n) (hnew : k ∉ l.early) :
    (q.arrive (nth s inc k) (d k)).1 = (l.arrive k).1.map d ∧
      Follows s inc d (l.arrive k).2 (q.arrive (nth s inc k) (d k)).2 ∧
      InStream n (l.arrive k).2 := by
  have hkw : 1 ≤ k ∧ k ≤ n + 1 := ⟨hk.1, by omega⟩
  have hnw : 1 ≤ l.next ∧ l.next ≤ n + 1 := ⟨hl.one_le_next, hl.next_le⟩
  have hstep : ∀ i, nth s inc i + inc = nth s inc (i + 1) := by
    intro i
    rw [nth, nth, BitVec.ofNat_add, BitVec.add_mul, BitVec.one_mul, BitVec.add_assoc]
  rw [arrive, Lane.arrive]
  by_cases hnext : k = l.next
  · -- The expected packet.
    subst hnext
    rw [if_pos rfl, ← hq.nowSn_eq, insert_of_now]
    obtain ⟨h1, h2, h3⟩ := follows_drain hinc hn { l with next := l.next + 1 }
      { q with nowSn := q.nowSn + q.increase } ⟨by simp only []; omega, by simp only []; omega,
        hl.early_le⟩ ⟨hq.isFirst_eq, hq.increase_eq, by
        rw [hq.nowSn_eq, hq.increase_eq]
        exact hstep l.next, hq.data_eq⟩
    simp only [h1, List.map_cons]
    exact ⟨trivial, h2, h3⟩
  · have hne : q.nowSn ≠ nth s inc k := by
      rw [hq.nowSn_eq]
      exact fun hc => hnext ((nth_eq_iff hinc hn l.next k hnw hkw).mp hc).symm
    rw [if_neg hnext]
    cases hw : l.waiting with
    | true =>
        -- Taken for the first packet of the stream.
        rw [insert_of_first _ _ q hne (hq.isFirst_eq.trans hw), if_pos rfl]
        obtain ⟨h1, h2, h3⟩ := follows_drain hinc hn { l with next := k + 1, waiting := false }
          { q with nowSn := nth s inc k + q.increase, isFirst := false }
          ⟨by simp only []; omega, by simp only []; omega, hl.early_le⟩
          ⟨rfl, hq.increase_eq, by rw [hq.increase_eq]; exact hstep k, hq.data_eq⟩
        simp only [h1, List.map_cons]
        exact ⟨trivial, h2, h3⟩
    | false =>
        have hf : q.isFirst = false := hq.isFirst_eq.trans hw
        have hless := less_nth_iff (s := s) hinc hn k l.next hkw hnw
        rw [← hq.nowSn_eq] at hless
        rw [if_neg Bool.false_ne_true]
        by_cases hlt : k < l.next
        · -- Behind the expected packet: dropped.
          rw [if_pos hlt, insert_of_behind _ _ q hne hf (hless.mpr hlt)]
          exact follows_drain hinc hn l q hl hq
        · -- Ahead of it: buffered at its place.
          rw [if_neg hlt, insert_of_next _ _ q hne hf fun hc => hlt (hless.mp hc)]
          refine follows_drain hinc hn
            { l with waiting := false, early := l.early.orderedInsert (· < ·) k }
            { q with data := emplace less (nth s inc k) (d k) q.data } ⟨hl.one_le_next,
              hl.next_le, fun b hb => ?_⟩ ⟨hf, hq.increase_eq, hq.nowSn_eq, ?_⟩
          · rcases (List.mem_orderedInsert _).mp hb with rfl | hb
            · exact hk
            · exact hl.early_le b hb
          · have hcmp : ∀ b ∈ l.early, (less (nth s inc b) (nth s inc k) ↔ b < k) ∧
                (less (nth s inc k) (nth s inc b) ↔ k < b) := by
              intro b hb
              have hbn := hl.early_le b hb
              exact ⟨less_nth_iff hinc hn b k ⟨hbn.1, by omega⟩ hkw,
                less_nth_iff hinc hn k b hkw ⟨hbn.1, by omega⟩⟩
            have habs : ¬ Present less (nth s inc k) q.data := by
              rw [hq.data_eq]
              rintro ⟨e, he, h1, h2⟩
              rcases List.mem_map.mp he with ⟨b, hb, rfl⟩
              rw [(hcmp b hb).2] at h1
              rw [(hcmp b hb).1] at h2
              exact hnew ((by omega : b = k) ▸ hb)
            rw [emplace, if_neg habs, hq.data_eq]
            exact (List.map_orderedInsert (· < ·) _ (fun k => (nth s inc k, d k)) l.early k
              (fun b hb => (hcmp b hb).1.symm) (fun b hb => (hcmp b hb).2.symm)).symm

theorem follows_deliver (hinc : inc ≠ 0) (hn : n * inc.toNat < 2 ^ 31) (ks : List Nat)
    (l : Lane) (q : PacketSorter δ) (hl : InStream n l) (hq : Follows s inc d l q)
    (hks : ∀ k ∈ ks, 1 ≤ k ∧ k ≤ n) (hnd : ks.Nodup) (hnew : ∀ k ∈ ks, k ∉ l.early) :
    q.deliver (ks.map fun k => (nth s inc k, d k)) = (l.deliver ks).map d := by
  induction ks generalizing l q with
  | nil => rfl
  | cons k ks ih =>
      rcases List.nodup_cons.mp hnd with ⟨hk, hnd'⟩
      obtain ⟨h1, h2, h3⟩ := follows_arrive hinc hn l q hl hq k (hks k List.mem_cons_self)
        (hnew k List.mem_cons_self)
      rw [List.map_cons, deliver, Lane.deliver, List.map_append, h1]
      rw [ih _ _ h3 h2 (fun j hj => hks j (List.mem_cons_of_mem k hj)) hnd' fun j hj hmem => ?_]
      rcases Lane.early_arrive k l j hmem with rfl | hold
      · exact hk hj
      · exact hnew j (List.mem_cons_of_mem k hj) hold

/-- Behind the first packet, the sorter is a lane at place one. -/
theorem follows_rest (hinc : inc ≠ 0) (hn : n * inc.toNat < 2 ^ 31) (rest : List Nat)
    (h : Lane.Awaits n 1 [] rest) (q : PacketSorter δ) (hdata : q.data = [])
    (hinc' : q.increase = inc) (hnow : q.nowSn = s + inc) :
    q.deliver (rest.map fun k => (nth s inc k, d k)) =
      (Lane.deliver { waiting := q.isFirst, next := 1, early := [] } rest).map d := by
  have hone : s + inc = nth s inc 1 := by
    rw [nth]
    simp only [BitVec.one_mul]
  have hplaces : ∀ k ∈ rest, 1 ≤ k ∧ k ≤ n := by
    intro k hk
    have := (h.mem_iff k).mp hk
    omega
  refine follows_deliver hinc hn rest _ q ⟨le_refl _, h.le, fun b hb => absurd hb List.not_mem_nil⟩
    ⟨rfl, hinc', hnow.trans hone, ?_⟩ hplaces h.nodup fun _ _ => List.not_mem_nil
  rw [hdata, List.map_nil]

end Stream

/-- The orders of arrival that are put right: everything but the last packet in
    order, and the last one too when the stream starts with number zero. -/
def PutRight (s : BitVec 32) (n : Nat) (order : List Nat) : Prop :=
  if s = 0 then order.Pairwise (· < ·) else (order.filter (· ≠ n)).Pairwise (· < ·)

/-- A stream of `n + 1` packets, arriving in any order that starts with the
    first one, is handed on in full, once each and in sequence, exactly when all
    its packets but the last arrive in order, and the last one too if the
    stream starts with number zero. -/
theorem deliver_iff (s inc : BitVec 32) (n : Nat) (d : Nat → δ) (order : List Nat)
    (q : PacketSorter δ) (hinc : inc ≠ 0) (hn : n * inc.toNat < 2 ^ 31)
    (hd : Function.Injective d) (hperm : order.Perm (List.range (n + 1)))
    (hfirst : order.head? = some 0) :
    (q.init inc).1.deliver (order.map fun k => (nth s inc k, d k)) =
        (List.range (n + 1)).map d ↔
      PutRight s n order := by
  obtain ⟨rest, rfl⟩ : ∃ rest, order = 0 :: rest := by
    cases order with
    | nil => exact absurd hfirst (by simp only [List.head?_nil, reduceCtorEq, not_false_eq_true])
    | cons k rest =>
        rw [List.head?_cons, Option.some.injEq] at hfirst
        exact ⟨rest, by rw [hfirst]⟩
  have hall := Lane.awaits_of_perm n rest hperm
  have hrest := (Lane.awaits_next n 0 [] rest hall (List.cons_ne_nil _ _).symm).2
  have hrange : (List.range (n + 1)).map d = d 0 :: (List.range' 1 (n + 1 - 1)).map d := by
    rw [List.range_eq_range', List.range'_succ, List.map_cons, Nat.add_sub_cancel]
  have hzero : nth s inc 0 = s := by
    rw [nth]
    simp only [BitVec.zero_mul, BitVec.add_zero]
  rw [List.map_cons, deliver, hzero, hrange, PutRight, arrive]
  -- The first packet is handed on at once. Whether the sorter is synchronised
  -- by it depends on its number.
  by_cases hs : s = 0
  · have hins : (q.init inc).1.insert s (d 0) =
        (.kPacketNow, { (q.init inc).1 with nowSn := s + inc }) := by
      subst hs
      exact insert_of_now (d 0) (q.init inc).1
    rw [hins, if_pos hs]
    simp only [drain_of_nil { (q.init inc).1 with nowSn := s + inc } rfl,
      List.singleton_append, List.cons.injEq, true_and]
    rw [follows_rest hinc hn rest hrest { (q.init inc).1 with nowSn := s + inc } rfl rfl rfl,
      hd.list_map.eq_iff]
    exact (Lane.lane_deliver_waiting_iff n rest 1 hrest).trans
      (Lane.pairwise_expected_iff n 0 [] rest rest hall (List.Subset.refl rest)).symm
  · have hins : (q.init inc).1.insert s (d 0) =
        (.kPacketNow, { (q.init inc).1 with nowSn := s + inc, isFirst := false }) :=
      insert_of_first s (d 0) (q.init inc).1 (fun hc => hs hc.symm) rfl
    rw [hins, if_neg hs]
    simp only [drain_of_nil { (q.init inc).1 with nowSn := s + inc, isFirst := false } rfl,
      List.singleton_append, List.cons.injEq, true_and]
    rw [follows_rest hinc hn rest hrest
      { (q.init inc).1 with nowSn := s + inc, isFirst := false } rfl rfl rfl, hd.list_map.eq_iff]
    exact (Lane.lane_deliver_iff n rest 1 [] hrest).trans
      (Lane.pairwise_front_iff n 0 [] rest hall).symm

/-- Three packets from number 5, the last one overtaking the second. -/
theorem deliver_iff_three :
    ((constructed 0 0).init 1).1.deliver ([0, 2, 1].map fun k => (nth 5 1 k, k)) =
        (List.range 3).map id ↔ PutRight 5 2 [0, 2, 1] :=
  deliver_iff 5 1 2 id [0, 2, 1] (constructed 0 0) (by decide) (by decide)
    Function.injective_id (by decide) rfl

/-- Four packets from number 5, the third overtaking the second: the sorter
    hands on the third and goes on waiting for it, and the fourth stays in the
    map. -/
theorem deliver_fails :
    ((constructed 0 0).init 1).1.deliver ([0, 2, 1, 3].map fun k => (nth 5 1 k, k)) ≠
      List.range 4 := by
  decide +kernel

end PacketSorter

end CodecChanger
