import CodecChanger.Core.Sorter
import CodecChanger.Lib.Trace

/-!
# Pending Packets and the Expected Number

Whether the packets the sorter holds stay ahead of the number it expects.

Three calls move the expected number and only `skip` trims the map afterwards.
`insert` moves it by one increment when the expected packet arrives, which is
harmless as long as that number is not in the map: all numbers are congruent
modulo the increment, so everything else in the map is at least one increment
ahead. If the expected number *is* in the map, because it arrived early and
nobody has called `get` since, a second copy of it moves the expected number
past the first.

`Lined` is the invariant behind this. It says that the numbers are congruent,
that the map is in the order of the distances from the expected number, and
that nothing is buffered before the first packet. `pending_insert_iff` and its
companions find for each call exactly when it keeps the map ahead, and
`pending_ahead_iff` carries that along every run.

## Main definitions

* `PendingAhead`: Every buffered number is at or ahead of the expected one.
* `Lined`: The invariant of a sorter fed with congruent numbers.
* `passed`: An entry that a move of the expected number leaves behind.
* `Admissible`: The calls of a stream of congruent numbers.
* `ExpectedNotHeld`: The expected packet does not arrive while it is held.

## Theorems

* `skip_split`: What `skip` keeps and what it deletes.
* `lined_init`: A sorter just set up.
* `lined_insert`, `lined_get`, `lined_skip`: The calls keep the invariant.
* `not_pending_of_held`: The one way to leave a key behind.
* `pending_insert_iff`: When `insert` keeps the map ahead.
* `pending_call_iff`: When any call does.
* `pending_ahead_iff`: The runs in which the map stays ahead throughout.
* `pending_ahead_iff_gap`: A run that closes a gap.
* `pending_ahead_fails`: A run with a duplicate in which it does not.
-/

namespace CodecChanger

open Circular OrderedMap Trace

namespace PacketSorter

variable {δ : Type*}

/-- Every key of the map is at or ahead of the expected number. -/
def PendingAhead (q : PacketSorter δ) : Prop := ∀ k ∈ q.keys, ahead q.nowSn k < 2 ^ 31

instance (q : PacketSorter δ) : Decidable q.PendingAhead :=
  List.decidableBAll (fun k => ahead q.nowSn k < 2 ^ 31) q.keys

/-- A sorter in use with increment `inc` on numbers congruent to `r`. -/
structure Lined (inc : BitVec 32) (r : Nat) (q : PacketSorter δ) : Prop where
  increase_eq : q.increase = inc
  ranked : Ranked (ahead q.nowSn) q.data
  congruent : ∀ k ∈ q.keys, k.toNat % inc.toNat = r
  expected : q.isFirst = false → q.nowSn.toNat % inc.toNat = r
  waiting : q.isFirst = true → q.data = [] ∧ q.nowSn.toNat % inc.toNat = 0

/-- The calls considered: numbers congruent modulo the increment, and skips of
    less than half the ring. -/
def Admissible (inc : BitVec 32) (r : Nat) : Call δ → Prop
  | .init _ => False
  | .insert sn _ => sn.toNat % inc.toNat = r
  | .get => True
  | .skip num => num.toNat * inc.toNat < 2 ^ 31

/-- The expected packet does not arrive while the map holds one of that
    number. -/
def ExpectedNotHeld (q : PacketSorter δ) : Call δ → Prop
  | .insert sn _ => sn = q.nowSn → sn ∉ q.keys
  | _ => True

instance ExpectedNotHeld.decidable (q : PacketSorter δ) :
    ∀ c : Call δ, Decidable (q.ExpectedNotHeld c)
  | .insert sn _ => inferInstanceAs (Decidable (sn = q.nowSn → sn ∉ q.keys))
  | .init _ => inferInstanceAs (Decidable True)
  | .get => inferInstanceAs (Decidable True)
  | .skip _ => inferInstanceAs (Decidable True)

/-- Adding in the ring is adding modulo every divisor of the ring. -/
theorem toNat_add_mod (a b : BitVec 32) (m : Nat) (hm : m ∣ 2 ^ 32) :
    (a + b).toNat % m = (a.toNat + b.toNat) % m := by
  rw [BitVec.toNat_add, Nat.mod_mod_of_dvd _ hm]

theorem two_pow_dvd (inc : BitVec 32) (j : Nat) (hinc : inc.toNat = 2 ^ j) :
    inc.toNat ∣ 2 ^ 32 ∧ inc.toNat ≤ 2 ^ 31 := by
  have hj : j < 32 := by
    rw [← Nat.pow_lt_pow_iff_right (show 1 < 2 by omega), ← hinc]
    exact inc.isLt
  rw [hinc]
  exact ⟨pow_dvd_pow 2 (by omega), Nat.pow_le_pow_right (by omega) (by omega)⟩

theorem mem_keys (q : PacketSorter δ) (e : BitVec 32 × δ) (he : e ∈ q.data) : e.1 ∈ q.keys :=
  List.mem_map_of_mem he

/-- Moving the expected number on, but not past any key, keeps the order. -/
theorem ranked_move (n x : BitVec 32) (m : List (BitVec 32 × δ)) (hm : Ranked (ahead n) m)
    (hx : ∀ e ∈ m, x.toNat ≤ ahead n e.1) : Ranked (ahead (n + x)) m := by
  refine List.Pairwise.imp_of_mem (fun {a b} ha hb hlt => ?_) hm
  rw [ahead_add_left_of_le n x a.1 (hx a ha), ahead_add_left_of_le n x b.1 (hx b hb)]
  have := hx a ha
  omega

/-- The distance test behind `Skip`: a key in the half window is behind the
    moved number exactly when the move passed it. -/
theorem less_move_iff (n x k : BitVec 32) (hk : ahead n k < 2 ^ 31) (hx : x.toNat < 2 ^ 31) :
    less k (n + x) ↔ ahead n k < x.toNat := by
  have h := precedes_iff_ahead_lt n k (n + x) (by omega) (by rw [ahead_add_right]; omega)
  rw [ahead_add_right] at h
  exact h

/-- Keys other than the expected number lie at least one increment ahead. -/
theorem increment_le_ahead (inc : BitVec 32) (j r : Nat) (hinc : inc.toNat = 2 ^ j)
    (q : PacketSorter δ) (hq : Lined inc r q) (hf : q.isFirst = false) (k : BitVec 32)
    (hk : k ∈ q.keys) (hne : k ≠ q.nowSn) : inc.toNat ≤ ahead q.nowSn k := by
  have hdvd : inc.toNat ∣ ahead q.nowSn k :=
    ahead_dvd q.nowSn k inc.toNat (two_pow_dvd inc j hinc).1
      (by rw [hq.expected hf, hq.congruent k hk])
  have hpos : 0 < ahead q.nowSn k :=
    Nat.pos_of_ne_zero fun hc => hne ((ahead_eq_zero_iff _ _).mp hc)
  exact Nat.le_of_dvd hpos hdvd

theorem lined_init (inc : BitVec 32) (r : Nat) (q : PacketSorter δ) :
    Lined inc r (q.init inc).1 where
  increase_eq := rfl
  ranked := List.Pairwise.nil
  congruent := fun k hk => absurd hk List.not_mem_nil
  expected := fun h => absurd h (by simp only [init, Bool.true_eq_false, not_false_eq_true])
  waiting := fun _ => ⟨rfl, Nat.zero_mod inc.toNat⟩

/-- The sorter after the expected packet arrived while nothing of that number
    is held. -/
theorem lined_advance (inc : BitVec 32) (j r : Nat) (hinc : inc.toNat = 2 ^ j)
    (q : PacketSorter δ) (hq : Lined inc r q) (hp : q.PendingAhead)
    (hnow : q.nowSn.toNat % inc.toNat = r) (hnot : q.nowSn ∉ q.keys) :
    Lined inc r { q with nowSn := q.nowSn + q.increase } ∧
      PendingAhead { q with nowSn := q.nowSn + q.increase } := by
  have hmod : (q.nowSn + q.increase).toNat % inc.toNat = r := by
    rw [hq.increase_eq, toNat_add_mod _ _ _ (two_pow_dvd inc j hinc).1, Nat.add_mod_right, hnow]
  -- The expected number passes no key, for all of them are an increment ahead.
  have hle : ∀ k ∈ q.keys, inc.toNat ≤ ahead q.nowSn k := by
    intro k hk
    cases hf : q.isFirst with
    | true =>
        rw [keys, (hq.waiting hf).1] at hk
        exact absurd hk List.not_mem_nil
    | false => exact increment_le_ahead inc j r hinc q hq hf k hk fun hc => hnot (hc ▸ hk)
  refine ⟨⟨hq.increase_eq, ?_, hq.congruent, fun _ => hmod, fun hf => ⟨(hq.waiting hf).1, ?_⟩⟩,
    fun k hk => ?_⟩
  · refine ranked_move q.nowSn q.increase q.data hq.ranked fun e he => ?_
    rw [hq.increase_eq]
    exact hle e.1 (mem_keys q e he)
  · rw [hmod, ← hnow]
    exact (hq.waiting hf).2
  · have hlt := hp k hk
    simp only []
    rw [hq.increase_eq, ahead_add_left_of_le _ _ _ (hle k hk)]
    omega

/-- An early packet takes its place in the map. -/
theorem lined_emplace (inc : BitVec 32) (r : Nat) (q : PacketSorter δ) (hq : Lined inc r q)
    (hp : q.PendingAhead) (sn : BitVec 32) (d : δ) (hsn : sn.toNat % inc.toNat = r)
    (hf : q.isFirst = false) (hwin : ahead q.nowSn sn < 2 ^ 31) :
    Lined inc r { q with data := emplace less sn d q.data } ∧
      PendingAhead { q with data := emplace less sn d q.data } := by
  have hkeys : ∀ k ∈ keys { q with data := emplace less sn d q.data }, k ∈ q.keys ∨ k = sn := by
    intro k hk
    rcases List.mem_map.mp hk with ⟨e, he, rfl⟩
    rcases (mem_emplace less sn d q.data e).mp he with he | ⟨rfl, -⟩
    · exact Or.inl (mem_keys q e he)
    · exact Or.inr rfl
  have hag : Agrees (ahead q.nowSn) less sn q.data := by
    intro e he
    have hw := hp e.1 (mem_keys q e he)
    exact ⟨precedes_iff_ahead_lt q.nowSn sn e.1 (by omega) (by omega),
      precedes_iff_ahead_lt q.nowSn e.1 sn (by omega) (by omega)⟩
  refine ⟨⟨hq.increase_eq, ranked_emplace _ less sn d q.data hag hq.ranked, fun k hk => ?_,
    hq.expected, fun hf' => ?_⟩, fun k hk => ?_⟩
  · rcases hkeys k hk with hk | rfl
    · exact hq.congruent k hk
    · exact hsn
  · exact absurd hf' (by simp only [hf, Bool.false_eq_true, not_false_eq_true])
  · rcases hkeys k hk with hk | rfl
    · exact hp k hk
    · exact hwin

/-- The sorter after the first packet of the stream synchronised it. -/
theorem lined_first (inc : BitVec 32) (j r : Nat) (hinc : inc.toNat = 2 ^ j)
    (q : PacketSorter δ) (hq : Lined inc r q) (sn : BitVec 32) (hsn : sn.toNat % inc.toNat = r)
    (hf : q.isFirst = true) :
    Lined inc r { q with nowSn := sn + q.increase, isFirst := false } ∧
      PendingAhead { q with nowSn := sn + q.increase, isFirst := false } := by
  have hmod : (sn + q.increase).toNat % inc.toNat = r := by
    rw [hq.increase_eq, toNat_add_mod _ _ _ (two_pow_dvd inc j hinc).1, Nat.add_mod_right, hsn]
  -- Nothing has been buffered before it.
  have hempty : q.data = [] := (hq.waiting hf).1
  refine ⟨⟨hq.increase_eq, ?_, hq.congruent, fun _ => hmod, fun h => ?_⟩, fun k hk => ?_⟩
  · rw [hempty]
    exact List.Pairwise.nil
  · exact absurd h (by simp only [Bool.false_eq_true, not_false_eq_true])
  · rw [keys, hempty] at hk
    exact absurd hk List.not_mem_nil

/-- `insert` keeps the invariant and the map ahead unless the expected packet
    arrives while the map holds one of that number. -/
theorem lined_insert (inc : BitVec 32) (j r : Nat) (hinc : inc.toNat = 2 ^ j)
    (q : PacketSorter δ) (hq : Lined inc r q) (hp : q.PendingAhead) (sn : BitVec 32) (d : δ)
    (hsn : sn.toNat % inc.toNat = r) (hnot : sn = q.nowSn → sn ∉ q.keys) :
    Lined inc r (q.insert sn d).2 ∧ (q.insert sn d).2.PendingAhead := by
  rcases insert_cases sn d q with ⟨hnow, h⟩ | ⟨-, hf, h⟩ | ⟨-, -, -, h⟩ | ⟨-, hf, hl, h⟩
  · subst hnow
    rw [h]
    exact lined_advance inc j r hinc q hq hp hsn (hnot rfl)
  · rw [h]
    exact lined_first inc j r hinc q hq sn hsn hf
  · rw [h]
    exact ⟨hq, hp⟩
  · rw [h]
    rw [less_iff] at hl
    exact lined_emplace inc r q hq hp sn d hsn hf (by omega)

/-- When the expected packet arrives while the map holds one of that number, the
    one held is left behind. -/
theorem not_pending_of_held (inc : BitVec 32) (j : Nat) (hinc : inc.toNat = 2 ^ j)
    (q : PacketSorter δ) (hincrease : q.increase = inc) (hk : q.nowSn ∈ q.keys) (d : δ) :
    ¬ (q.insert q.nowSn d).2.PendingAhead := by
  rw [insert_of_now]
  intro h
  -- The held copy is now almost a whole ring ahead.
  have hbehind := h q.nowSn hk
  have hpos : 0 < inc.toNat := by
    rw [hinc]
    exact Nat.two_pow_pos j
  have hinc31 := (two_pow_dvd inc j hinc).2
  simp only [] at hbehind
  rw [hincrease, ahead_add_left_of_lt _ _ _ (by rw [ahead_self]; exact hpos), ahead_self]
    at hbehind
  omega

/-- `insert` keeps the map ahead unless the expected packet arrives while the
    map holds one of that number, and then it never does. -/
theorem pending_insert_iff (inc : BitVec 32) (j r : Nat) (hinc : inc.toNat = 2 ^ j)
    (q : PacketSorter δ) (hq : Lined inc r q) (hp : q.PendingAhead) (sn : BitVec 32) (d : δ)
    (hsn : sn.toNat % inc.toNat = r) :
    (q.insert sn d).2.PendingAhead ↔ (sn = q.nowSn → sn ∉ q.keys) := by
  constructor
  · rintro h rfl hk
    exact not_pending_of_held inc j hinc q hq.increase_eq hk d h
  · intro hnot
    exact (lined_insert inc j r hinc q hq hp sn d hsn hnot).2

/-- Entries can leave the map without harm. -/
theorem lined_sublist (inc : BitVec 32) (r : Nat) (q : PacketSorter δ) (hq : Lined inc r q)
    (hp : q.PendingAhead) (m : List (BitVec 32 × δ)) (hm : m.Sublist q.data) :
    Lined inc r { q with data := m } ∧ PendingAhead { q with data := m } := by
  have hkeys : ∀ k ∈ keys { q with data := m }, k ∈ q.keys := fun k hk => (hm.map _).subset hk
  refine ⟨⟨hq.increase_eq, hq.ranked.sublist hm, fun k hk => hq.congruent k (hkeys k hk),
    hq.expected, fun hf => ⟨?_, (hq.waiting hf).2⟩⟩, fun k hk => hp k (hkeys k hk)⟩
  exact List.sublist_nil.mp ((hq.waiting hf).1 ▸ hm)

theorem lined_get (inc : BitVec 32) (r : Nat) (q : PacketSorter δ) (hq : Lined inc r q)
    (hp : q.PendingAhead) : Lined inc r q.get.2 ∧ q.get.2.PendingAhead := by
  rcases get_cases q with ⟨-, hsame⟩ | ⟨e, rest, hd, -, hget⟩
  · rw [hsame]
    exact ⟨hq, hp⟩
  · rw [hget]
    exact lined_sublist inc r q hq hp rest (hd ▸ List.sublist_cons_self e rest)

/-- The entry is less than `num` increments ahead. -/
def passed (q : PacketSorter δ) (num : BitVec 32) (e : BitVec 32 × δ) : Bool :=
  ahead q.nowSn e.1 < num.toNat * q.increase.toNat

/-- A move of less than half the ring does not wrap around. -/
theorem toNat_move (q : PacketSorter δ) (num : BitVec 32)
    (hnum : num.toNat * q.increase.toNat < 2 ^ 31) :
    (num * q.increase).toNat = num.toNat * q.increase.toNat := by
  rw [BitVec.toNat_mul, Nat.mod_eq_of_lt (by omega)]

/-- The test of the loop in `Skip`, on the keys of the map. -/
theorem less_iff_passed (q : PacketSorter δ) (hp : q.PendingAhead) (num : BitVec 32)
    (hnum : num.toNat * q.increase.toNat < 2 ^ 31) (e : BitVec 32 × δ) (he : e ∈ q.data) :
    decide (less e.1 (q.nowSn + num * q.increase)) = passed q num e := by
  have hmove := toNat_move q num hnum
  have hless := less_move_iff q.nowSn (num * q.increase) e.1 (hp e.1 (mem_keys q e he)) (by omega)
  rw [hmove] at hless
  exact decide_eq_decide.mpr hless

/-- Whatever is below an entry left behind is left behind as well. -/
theorem passed_of_below (q : PacketSorter δ) (num : BitVec 32) (x y : BitVec 32 × δ)
    (hxy : ahead q.nowSn x.1 < ahead q.nowSn y.1) (hy : passed q num y = true) :
    passed q num x = true :=
  decide_eq_true (lt_trans hxy (of_decide_eq_true hy))

/-- What `skip` keeps and what it deletes: the entries behind the new expected number
    form a prefix of the map. -/
theorem skip_split (q : PacketSorter δ) (hp : q.PendingAhead)
    (hr : Ranked (ahead q.nowSn) q.data) (num : BitVec 32)
    (hnum : num.toNat * q.increase.toNat < 2 ^ 31) :
    (q.skip num).1.data = q.data.filter (fun e => !passed q num e) ∧
      (q.skip num).2 = (q.data.filter (passed q num)).map Prod.snd := by
  have htest := less_iff_passed q hp num hnum
  have hbelow : ∀ x ∈ q.data, ∀ y ∈ q.data, ahead q.nowSn x.1 < ahead q.nowSn y.1 →
      decide (less y.1 (q.nowSn + num * q.increase)) = true →
      decide (less x.1 (q.nowSn + num * q.increase)) = true := by
    intro x hx y hy hxy hbehind
    rw [htest y hy] at hbehind
    rw [htest x hx]
    exact passed_of_below q num x y hxy hbehind
  constructor
  · change q.data.dropWhile _ = _
    rw [dropWhile_eq_filter (ahead q.nowSn) _ q.data hr hbelow]
    refine List.filter_congr fun e he => ?_
    rw [htest e he]
  · change (q.data.takeWhile _).map Prod.snd = _
    rw [takeWhile_eq_filter (ahead q.nowSn) _ q.data hr hbelow, List.filter_congr htest]

/-- The distance of an entry that stays shrinks by the move. -/
theorem ahead_of_kept (q : PacketSorter δ) (num : BitVec 32)
    (hnum : num.toNat * q.increase.toNat < 2 ^ 31) (e : BitVec 32 × δ)
    (he : (!passed q num e) = true) :
    num.toNat * q.increase.toNat ≤ ahead q.nowSn e.1 ∧
      ahead (q.skip num).1.nowSn e.1 = ahead q.nowSn e.1 - num.toNat * q.increase.toNat := by
  have hmove := toNat_move q num hnum
  have hle : num.toNat * q.increase.toNat ≤ ahead q.nowSn e.1 := by
    rw [Bool.not_eq_true'] at he
    exact not_lt.mp (of_decide_eq_false he)
  refine ⟨hle, ?_⟩
  change ahead (q.nowSn + num * q.increase) e.1 = _
  rw [ahead_add_left_of_le _ _ _ (by omega), hmove]

theorem lined_skip (inc : BitVec 32) (j r : Nat) (hinc : inc.toNat = 2 ^ j)
    (q : PacketSorter δ) (hq : Lined inc r q) (hp : q.PendingAhead) (num : BitVec 32)
    (hnum : num.toNat * inc.toNat < 2 ^ 31) :
    Lined inc r (q.skip num).1 ∧ (q.skip num).1.PendingAhead := by
  have hdvd := (two_pow_dvd inc j hinc).1
  rw [← hq.increase_eq] at hnum
  have hx := toNat_move q num hnum
  have hmod : (q.nowSn + num * q.increase).toNat % inc.toNat = q.nowSn.toNat % inc.toNat := by
    rw [toNat_add_mod _ _ _ hdvd, hx, hq.increase_eq, Nat.add_mul_mod_self_right]
  have hkept : ∀ e ∈ (q.skip num).1.data, num.toNat * q.increase.toNat ≤ ahead q.nowSn e.1 ∧
      ahead (q.skip num).1.nowSn e.1 = ahead q.nowSn e.1 - num.toNat * q.increase.toNat := by
    intro e he
    rw [(skip_split q hp hq.ranked num hnum).1, List.mem_filter] at he
    exact ahead_of_kept q num hnum e he.2
  -- Trim the map first, then move the expected number.
  obtain ⟨hq', hp'⟩ := lined_sublist inc r q hq hp (q.skip num).1.data
    (List.dropWhile_suffix _).sublist
  refine ⟨⟨hq'.increase_eq, ranked_move _ _ _ hq'.ranked fun e he => ?_, hq'.congruent,
    fun hf => ?_, fun hf => ⟨(hq'.waiting hf).1, ?_⟩⟩, fun k hk => ?_⟩
  · rw [hx]
    exact (hkept e he).1
  · exact hmod.trans (hq.expected hf)
  · exact hmod.trans (hq.waiting hf).2
  · rcases List.mem_map.mp hk with ⟨e, he, rfl⟩
    have hlt := hp' e.1 (mem_keys _ e he)
    simp only [] at hlt
    rw [(hkept e he).2]
    omega

theorem lined_call (inc : BitVec 32) (j r : Nat) (hinc : inc.toNat = 2 ^ j)
    (q : PacketSorter δ) (c : Call δ) (hq : Lined inc r q) (hp : q.PendingAhead)
    (hadm : Admissible inc r c) (hnot : q.ExpectedNotHeld c) : Lined inc r (q.call c) := by
  cases c with
  | init _ => exact absurd hadm not_false
  | insert sn d => exact (lined_insert inc j r hinc q hq hp sn d hadm hnot).1
  | get => exact (lined_get inc r q hq hp).1
  | skip num => exact (lined_skip inc j r hinc q hq hp num hadm).1

theorem pending_call_iff (inc : BitVec 32) (j r : Nat) (hinc : inc.toNat = 2 ^ j)
    (q : PacketSorter δ) (c : Call δ) (hq : Lined inc r q) (hp : q.PendingAhead)
    (hadm : Admissible inc r c) : (q.call c).PendingAhead ↔ q.ExpectedNotHeld c := by
  cases c with
  | init _ => exact absurd hadm not_false
  | insert sn d => exact pending_insert_iff inc j r hinc q hq hp sn d hadm
  | get => exact ⟨fun _ => trivial, fun _ => (lined_get inc r q hq hp).2⟩
  | skip num => exact ⟨fun _ => trivial, fun _ => (lined_skip inc j r hinc q hq hp num hadm).2⟩

/-- Along a run of congruent numbers, whatever the duplicates, late packets and
    skips, the map stays ahead of the expected number in every state exactly
    when the expected packet never arrives while the map holds one of its
    number. -/
theorem pending_ahead_iff (inc : BitVec 32) (j r : Nat) (hinc : inc.toNat = 2 ^ j)
    (q : PacketSorter δ) (calls : List (Call δ)) (hadm : ∀ c ∈ calls, Admissible inc r c) :
    Along call PendingAhead (q.init inc).1 calls ↔
      Steps call ExpectedNotHeld (q.init inc).1 calls :=
  along_iff_steps call PendingAhead (Lined inc r) (Admissible inc r) ExpectedNotHeld
    (fun q c hq hp hc hnot => lined_call inc j r hinc q c hq hp hc hnot)
    (fun q c hq hp hc => pending_call_iff inc j r hinc q c hq hp hc)
    calls _ (lined_init inc r q) (fun _ hk => absurd hk List.not_mem_nil) hadm

/-- The packets 5, 7, 6 and 7 again: six closes the gap without a `get`, and
    the second seven leaves the first one behind. -/
def duplicateRun : List (Call Nat) :=
  [.insert 5 0, .insert 7 1, .insert 6 2, .insert 7 3]

/-- The packets 5, 7 and 6: seven waits until six has closed the gap, and then it is got. -/
def gapRun : List (Call Nat) := [.insert 5 0, .insert 7 1, .insert 6 2, .get]

/-- Nothing of its number is held when six arrives, and the map stays ahead. -/
theorem pending_ahead_iff_gap :
    Along call PendingAhead ((constructed 0 0).init 1).1 gapRun :=
  (pending_ahead_iff 1 0 0 rfl (constructed 0 0) gapRun (by
    intro c hc
    simp only [gapRun, List.mem_cons, List.not_mem_nil, or_false] at hc
    rcases hc with rfl | rfl | rfl | rfl
    · exact Nat.mod_one _
    · exact Nat.mod_one _
    · exact Nat.mod_one _
    · exact trivial)).mpr (by decide +kernel)

theorem pending_ahead_fails :
    ¬ Along call PendingAhead ((constructed 0 0).init 1).1 duplicateRun := by
  intro h
  have hlast := (along_iff_prefixes call PendingAhead duplicateRun _).mp h _ (List.prefix_refl _)
  exact absurd hlast (by decide +kernel)

end PacketSorter

end CodecChanger
