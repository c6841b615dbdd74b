import CodecChanger.Theory.Sorter.Pending

/-!
# Skipping

What `skip` drops. Its loop takes entries off the front of the map until one is not
behind the new expected number, and by the look of it that is a matter of where the
loop happens to stop.

With all keys in the half window ahead of the expected number it is not. The order of
the map is the order of the distances from that number, wherever the window lies on
the ring. A key is behind the new expected number when its distance is less than the
move, so that the keys behind are a prefix, and the loop drops them and no others. The
keys that stay are in the half window ahead of the new expected number, in the order
they were in, and two skips are as good as one.

## Main definitions

* `Windowed`: The keys lie in the half window, and the map is in order.

## Theorems

* `Windowed.ranked`: The map is in the order of the distances.
* `passed_add`: An entry is left behind by one of two skips or by both together.
* `windowed_skip`: The half window moves along.
* `skip_skip`: Two skips are one.
* `skip_exact`: What `skip` does, and that it composes.
-/

namespace CodecChanger

open Circular OrderedMap

namespace PacketSorter

variable {δ : Type*}

/-- The keys lie in the half window ahead of the expected number, and the map is in
    the order of `Less`. -/
structure Windowed (q : PacketSorter δ) : Prop where
  pending : q.PendingAhead
  ordered : q.data.Pairwise fun x y => less x.1 y.1

/-- In the half window the order of the map is that of the distances. -/
theorem Windowed.ranked (q : PacketSorter δ) (hq : Windowed q) :
    Ranked (ahead q.nowSn) q.data := by
  refine List.Pairwise.imp_of_mem (fun {x y} hx hy hless => ?_) hq.ordered
  have hxw := hq.pending x.1 (mem_keys q x hx)
  have hyw := hq.pending y.1 (mem_keys q y hy)
  exact (precedes_iff_ahead_lt q.nowSn x.1 y.1 (by omega) (by omega)).mp hless

/-- The half window moves along with the expected number. -/
theorem windowed_skip (q : PacketSorter δ) (hq : Windowed q) (num : BitVec 32)
    (hnum : num.toNat * q.increase.toNat < 2 ^ 31) : Windowed (q.skip num).1 := by
  have hdata := (skip_split q hq.pending hq.ranked num hnum).1
  constructor
  · intro k hk
    rcases List.mem_map.mp hk with ⟨e, he, hek⟩
    rw [hdata, List.mem_filter] at he
    have hwin := hq.pending e.1 (mem_keys q e he.1)
    have hnear := (ahead_of_kept q num hnum e he.2).2
    rw [← hek]
    omega
  · rw [hdata]
    exact hq.ordered.filter _

/-- Two moves that together are less than half the ring add up. -/
theorem toNat_add_move (q : PacketSorter δ) (a b : BitVec 32)
    (hab : (a.toNat + b.toNat) * q.increase.toNat < 2 ^ 31) :
    (a + b).toNat * q.increase.toNat =
      a.toNat * q.increase.toNat + b.toNat * q.increase.toNat := by
  rw [Nat.add_mul] at hab
  -- The numbers do not wrap around, or the increment is zero.
  rcases Nat.eq_zero_or_pos q.increase.toNat with hzero | hpos
  · rw [hzero, Nat.mul_zero, Nat.mul_zero, Nat.mul_zero]
  · have ha := Nat.le_mul_of_pos_right a.toNat hpos
    have hb := Nat.le_mul_of_pos_right b.toNat hpos
    rw [BitVec.toNat_add, Nat.mod_eq_of_lt (by omega), Nat.add_mul]

/-- An entry is left behind by one skip or by the next. -/
theorem passed_add (q : PacketSorter δ) (a b : BitVec 32)
    (hab : (a.toNat + b.toNat) * q.increase.toNat < 2 ^ 31) (e : BitVec 32 × δ) :
    (!passed q (a + b) e) = (!passed (q.skip a).1 b e && !passed q a e) := by
  have hsum := toNat_add_move q a b hab
  rw [Nat.add_mul] at hab
  by_cases hkept : (!passed q a e) = true
  · rcases ahead_of_kept q a (by omega) e hkept with ⟨hle, hnear⟩
    have hinc : (q.skip a).1.increase = q.increase := rfl
    rw [hkept, Bool.and_true]
    unfold passed
    rw [hsum, hnear, hinc]
    refine congrArg not (decide_eq_decide.mpr ?_)
    omega
  · -- Gone by the first, and the sum moves farther.
    have hgone : passed q a e = true := by
      rw [Bool.not_eq_true', Bool.not_eq_false] at hkept
      exact hkept
    have hlt := of_decide_eq_true hgone
    have hboth : passed q (a + b) e = true := decide_eq_true (by omega)
    rw [hgone, hboth, Bool.not_true, Bool.and_false]

/-- Two skips leave what one of both leaves. -/
theorem skip_skip (q : PacketSorter δ) (hq : Windowed q) (a b : BitVec 32)
    (hab : (a.toNat + b.toNat) * q.increase.toNat < 2 ^ 31) :
    ((q.skip a).1.skip b).1 = (q.skip (a + b)).1 := by
  have hsum := toNat_add_move q a b hab
  have hpassed := passed_add q a b hab
  rw [Nat.add_mul] at hab
  have hnow : ((q.skip a).1.skip b).1.nowSn = (q.skip (a + b)).1.nowSn := by
    change q.nowSn + a * q.increase + b * q.increase = q.nowSn + (a + b) * q.increase
    rw [add_mul, add_assoc]
  have hfirst := windowed_skip q hq a (by omega)
  have hinc : (q.skip a).1.increase = q.increase := rfl
  -- The map after the first skip is a window again, so the second is a filter too.
  have hdata : ((q.skip a).1.skip b).1.data = (q.skip (a + b)).1.data := by
    rw [(skip_split (q.skip a).1 hfirst.pending hfirst.ranked b (by rw [hinc]; omega)).1,
      (skip_split q hq.pending hq.ranked a (by omega)).1,
      (skip_split q hq.pending hq.ranked (a + b) (by omega)).1, List.filter_filter]
    exact (List.filter_congr fun e _ => hpassed e).symm
  calc ((q.skip a).1.skip b).1
      = { q with
          nowSn := ((q.skip a).1.skip b).1.nowSn
          data := ((q.skip a).1.skip b).1.data } := rfl
    _ = { q with nowSn := (q.skip (a + b)).1.nowSn, data := (q.skip (a + b)).1.data } := by
        rw [hnow, hdata]
    _ = (q.skip (a + b)).1 := rfl

/-- With all keys in the half window, `skip` moves the expected number, keeps the
    entries that are not left behind and deletes the others, and two skips are as
    good as one. -/
theorem skip_exact (q : PacketSorter δ) (hpending : q.PendingAhead)
    (hordered : q.data.Pairwise fun x y => less x.1 y.1) (num : BitVec 32)
    (hnum : num.toNat * q.increase.toNat < 2 ^ 31) :
    (q.skip num).1.nowSn.toNat =
        (q.nowSn.toNat + num.toNat * q.increase.toNat) % 2 ^ 32 ∧
      (q.skip num).1.data =
        q.data.filter (fun e => num.toNat * q.increase.toNat ≤ ahead q.nowSn e.1) ∧
      (q.skip num).2 =
        (q.data.filter fun e => ahead q.nowSn e.1 < num.toNat * q.increase.toNat).map Prod.snd ∧
      ∀ a b : BitVec 32, (a.toNat + b.toNat) * q.increase.toNat < 2 ^ 31 →
        ((q.skip a).1.skip b).1 = (q.skip (a + b)).1 := by
  have hq : Windowed q := ⟨hpending, hordered⟩
  rcases skip_split q hpending hq.ranked num hnum with ⟨hkept, hdeleted⟩
  refine ⟨?_, hkept.trans (List.filter_congr fun e _ => ?_), hdeleted, skip_skip q hq⟩
  · change (q.nowSn + num * q.increase).toNat = _
    rw [BitVec.toNat_add, toNat_move q num hnum]
  · unfold passed
    rw [← decide_not, decide_eq_decide, not_lt]

/-- A sorter whose window goes round the end of the ring. -/
def straddling : PacketSorter Nat where
  isFirst := false
  increase := 16
  nowSn := 0xfffffff0
  data := [(0xfffffff0, 0), (0, 1), (16, 2)]

/-- Two increments leave behind the entries at the end of the ring and at zero. -/
theorem skip_exact_straddling :
    (straddling.skip 2).1.data =
        straddling.data.filter (fun e => 2 * 16 ≤ ahead straddling.nowSn e.1) ∧
      ((straddling.skip 1).1.skip 1).1 = (straddling.skip (1 + 1)).1 :=
  have h := skip_exact straddling (by decide) (by decide) 2 (by decide)
  ⟨h.2.1, h.2.2.2 1 1 (by decide)⟩

end PacketSorter

end CodecChanger
