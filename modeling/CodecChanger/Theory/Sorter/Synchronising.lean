import CodecChanger.Core.Sorter
import CodecChanger.Lib.Trace

/-!
# Synchronising the Sorter

Which packets the sorter takes for the current one.

The first packet of a stream may have any number, and `insert` takes it and expects
the one behind it. From then on `is_first_` is to see to it that only the expected
packet is current. But `insert` compares with the expected number first, and in that
branch `is_first_` stays set. A stream that starts with the very number the sorter
expects, zero for one just set up, leaves it ready to be synchronised, and it stays
so while the packets come in order. The first one that does not passes for the first
packet of a stream.

## Main definitions

* `Watched`: A sorter, and whether it has taken a packet.
* `OnlyExpected`: From the first packet taken on, only expected ones are.
* `StartsElsewhere`: The first packet is not the one expected.
* `InOrder`: Every packet is the one expected.

## Theorems

* `insert_now_iff`: When a packet is taken for the current one.
* `steps_of_synchronised`: Once `is_first_` is clear, only expected packets are.
* `steps_iff_inOrder`: While it is set, packets have to come in order.
* `onlyExpected_iff`: The exact condition, for every run.
-/

namespace CodecChanger

open Trace

namespace PacketSorter

variable {δ : Type*}

/-- A sorter, and whether an `insert` has returned `kPacketNow`. -/
structure Watched (δ : Type*) where
  sorter : PacketSorter δ
  synchronised : Bool

/-- The call is an `insert` that returns `kPacketNow`. -/
def takes (q : PacketSorter δ) : Call δ → Bool
  | .insert sn d => (q.insert sn d).1 = .kPacketNow
  | _ => false

/-- A call on a sorter that is watched. -/
def watch (w : Watched δ) (c : Call δ) : Watched δ where
  sorter := w.sorter.call c
  synchronised := w.synchronised || takes w.sorter c

/-- An `insert` is for the expected number. -/
def InOrder (q : PacketSorter δ) : Call δ → Prop
  | .insert sn _ => sn = q.nowSn
  | _ => True

/-- A packet that is taken after another one is the expected one. -/
def TakesExpected (w : Watched δ) (c : Call δ) : Prop :=
  w.synchronised = true → takes w.sorter c = true → InOrder w.sorter c

/-- In a run after `Init`, every packet that is taken after another one is the one
    expected at that moment. -/
def OnlyExpected (inc : BitVec 32) (q : PacketSorter δ) (calls : List (Call δ)) : Prop :=
  Steps watch TakesExpected ⟨(q.init inc).1, false⟩ calls

/-- The calls of a client between two calls of `Init`. -/
def NotInit : Call δ → Prop
  | .init _ => False
  | _ => True

/-- The first `insert` of the run is for another number than the expected one. -/
def StartsElsewhere (q : PacketSorter δ) : List (Call δ) → Prop
  | [] => False
  | .insert sn _ :: _ => sn ≠ q.nowSn
  | c :: calls => StartsElsewhere (q.call c) calls

/-- A packet is taken when it is the expected one or the first. -/
theorem insert_now_iff (sn : BitVec 32) (d : δ) (q : PacketSorter δ) :
    (q.insert sn d).1 = .kPacketNow ↔ sn = q.nowSn ∨ q.isFirst = true := by
  rcases insert_cases sn d q with ⟨hnow, h⟩ | ⟨-, hf, h⟩ | ⟨hne, hf, -, h⟩ | ⟨hne, hf, -, h⟩
  · rw [h]
    exact ⟨fun _ => Or.inl hnow.symm, fun _ => rfl⟩
  · rw [h]
    exact ⟨fun _ => Or.inr hf, fun _ => rfl⟩
  · rw [h, hf]
    refine ⟨fun hc => absurd hc (by simp only [reduceCtorEq, not_false_eq_true]), fun hc => ?_⟩
    exact absurd (hc.resolve_right Bool.false_ne_true).symm hne
  · rw [h, hf]
    refine ⟨fun hc => absurd hc (by simp only [reduceCtorEq, not_false_eq_true]), fun hc => ?_⟩
    exact absurd (hc.resolve_right Bool.false_ne_true).symm hne

/-- No call but `Init` sets `is_first_`. -/
theorem call_isFirst (q : PacketSorter δ) (c : Call δ) (hc : NotInit c) (hf : q.isFirst = false) :
    (q.call c).isFirst = false := by
  cases c with
  | init _ => exact absurd hc not_false
  | insert sn d =>
      change (q.insert sn d).2.isFirst = false
      rcases insert_cases sn d q with ⟨-, h⟩ | ⟨-, -, h⟩ | ⟨-, -, -, h⟩ | ⟨-, -, -, h⟩
      · rw [h]
        exact hf
      · rw [h]
      · rw [h]
        exact hf
      · rw [h]
        exact hf
  | get =>
      change q.get.2.isFirst = false
      rcases get_cases q with ⟨-, hsame⟩ | ⟨e, rest, -, -, hget⟩
      · rw [hsame]
        exact hf
      · rw [hget]
        exact hf
  | skip num => exact hf

/-- The expected packet leaves `is_first_` as it is, and so do the other calls. -/
theorem call_isFirst_of_inOrder (q : PacketSorter δ) (c : Call δ) (hc : NotInit c)
    (hin : InOrder q c) : (q.call c).isFirst = q.isFirst := by
  cases c with
  | init _ => exact absurd hc not_false
  | insert sn d =>
      change (q.insert sn d).2.isFirst = q.isFirst
      rw [show sn = q.nowSn from hin, insert_of_now]
  | get =>
      change q.get.2.isFirst = q.isFirst
      rcases get_cases q with ⟨-, hsame⟩ | ⟨e, rest, -, -, hget⟩
      · rw [hsame]
      · rw [hget]
  | skip num => rfl

/-- Once `is_first_` is clear, only expected packets are taken. -/
theorem steps_of_synchronised (calls : List (Call δ)) (hcalls : ∀ c ∈ calls, NotInit c)
    (w : Watched δ) (hf : w.sorter.isFirst = false) : Steps watch TakesExpected w calls := by
  refine steps_of_invariant watch (fun w => w.sorter.isFirst = false) NotInit TakesExpected
    (fun w c hf hc => call_isFirst w.sorter c hc hf) (fun w c hf hc => ?_) calls w hf hcalls
  intro _ htakes
  cases c with
  | init _ => exact absurd hc not_false
  | insert sn d =>
      have hnow := (insert_now_iff sn d w.sorter).mp (of_decide_eq_true htakes)
      rw [hf] at hnow
      exact hnow.resolve_right Bool.false_ne_true
  | get => exact trivial
  | skip num => exact trivial

/-- After a packet that has left `is_first_` set, all have to come in order. -/
theorem steps_iff_inOrder (calls : List (Call δ)) (hcalls : ∀ c ∈ calls, NotInit c)
    (w : Watched δ) (hf : w.sorter.isFirst = true) (hs : w.synchronised = true) :
    Steps watch TakesExpected w calls ↔ Steps call InOrder w.sorter calls := by
  -- Every packet is taken, so that the two conditions are one.
  have hsame : ∀ (w : Watched δ) (c : Call δ), w.sorter.isFirst = true → w.synchronised = true →
      NotInit c → (TakesExpected w c ↔ InOrder w.sorter c) := by
    intro w c hf hs hc
    cases c with
    | init _ => exact absurd hc not_false
    | insert sn d =>
        have htakes : takes w.sorter (.insert sn d) = true :=
          decide_eq_true ((insert_now_iff sn d w.sorter).mpr (Or.inr hf))
        exact ⟨fun h => h hs htakes, fun h _ _ => h⟩
    | get => exact ⟨fun _ => trivial, fun _ _ _ => trivial⟩
    | skip num => exact ⟨fun _ => trivial, fun _ _ _ => trivial⟩
  refine steps_iff_of_simulation watch call
    (fun w q => w.sorter = q ∧ w.sorter.isFirst = true ∧ w.synchronised = true) NotInit
    TakesExpected InOrder ?_ ?_ calls w w.sorter ⟨rfl, hf, hs⟩ hcalls
  · intro w q c ⟨hq, hf, hs⟩ hc
    rw [← hq]
    exact hsame w c hf hs hc
  · intro w q c ⟨hq, hf, hs⟩ hc hexp
    have hin := (hsame w c hf hs hc).mp hexp
    refine ⟨by rw [← hq]; rfl, (call_isFirst_of_inOrder w.sorter c hc hin).trans hf, ?_⟩
    change (w.synchronised || takes w.sorter c) = true
    rw [hs, Bool.true_or]

/-- The runs of a sorter that has taken no packet, in which only expected packets
    are taken after the first. -/
theorem steps_iff_of_waiting (calls : List (Call δ)) (hcalls : ∀ c ∈ calls, NotInit c)
    (q : PacketSorter δ) (hf : q.isFirst = true) :
    Steps watch TakesExpected ⟨q, false⟩ calls ↔
      StartsElsewhere q calls ∨ Steps call InOrder q calls := by
  -- By induction on the calls before the first packet, which leave `is_first_` set.
  induction calls generalizing q with
  | nil => exact ⟨fun _ => Or.inr trivial, fun _ => trivial⟩
  | cons c calls ih =>
      have hc := hcalls c List.mem_cons_self
      have hrest : ∀ c ∈ calls, NotInit c := fun c' hc' => hcalls c' (List.mem_cons_of_mem c hc')
      -- Nothing has been taken, so nothing is asked of this call.
      have hfree : TakesExpected ⟨q, false⟩ c := fun h => absurd h Bool.false_ne_true
      cases c with
      | init _ => exact absurd hc not_false
      | insert sn d =>
          have htakes : takes q (.insert sn d) = true :=
            decide_eq_true ((insert_now_iff sn d q).mpr (Or.inr hf))
          by_cases hnow : sn = q.nowSn
          · -- The sorter goes on waiting for its first packet.
            have hstill : (q.call (.insert sn d)).isFirst = true :=
              (call_isFirst_of_inOrder q (.insert sn d) trivial hnow).trans hf
            have hiff := steps_iff_inOrder calls hrest (watch ⟨q, false⟩ (.insert sn d)) hstill
              htakes
            constructor
            · rintro ⟨-, hsteps⟩
              exact Or.inr ⟨hnow, hiff.mp hsteps⟩
            · intro h
              exact ⟨hfree, hiff.mpr (h.resolve_left fun hne => hne hnow).2⟩
          · have hsync : (q.call (.insert sn d)).isFirst = false := by
              change (q.insert sn d).2.isFirst = false
              rw [insert_of_first sn d q (fun h => hnow h.symm) hf]
            exact ⟨fun _ => Or.inl hnow, fun _ => ⟨hfree, steps_of_synchronised calls hrest
              (watch ⟨q, false⟩ (.insert sn d)) hsync⟩⟩
      | get =>
          have hstill := (call_isFirst_of_inOrder q .get trivial trivial).trans hf
          constructor
          · rintro ⟨-, hsteps⟩
            exact ((ih hrest (q.call .get) hstill).mp hsteps).imp id fun h => ⟨trivial, h⟩
          · intro h
            exact ⟨hfree, (ih hrest (q.call .get) hstill).mpr (h.imp id And.right)⟩
      | skip num =>
          constructor
          · rintro ⟨-, hsteps⟩
            exact ((ih hrest (q.call (.skip num)) hf).mp hsteps).imp id fun h => ⟨trivial, h⟩
          · intro h
            exact ⟨hfree, (ih hrest (q.call (.skip num)) hf).mpr (h.imp id And.right)⟩

/-- After `Init`, only expected packets are taken behind the first exactly when the
    first is not the one expected, or all of them are. -/
theorem onlyExpected_iff (inc : BitVec 32) (q : PacketSorter δ) (calls : List (Call δ))
    (hcalls : ∀ c ∈ calls, NotInit c) :
    OnlyExpected inc q calls ↔
      StartsElsewhere (q.init inc).1 calls ∨ Steps call InOrder (q.init inc).1 calls :=
  steps_iff_of_waiting calls hcalls (q.init inc).1 rfl

/-- A stream that starts with number five. -/
theorem onlyExpected_iff_five :
    OnlyExpected 1 (constructed 0 0) [.insert 5 0, .get, .insert 7 (1 : Nat)] :=
  (onlyExpected_iff 1 (constructed 0 0) [.insert 5 0, .get, .insert 7 1] (by
    intro c hc
    rcases List.mem_cons.mp hc with rfl | hc
    · trivial
    · rcases List.mem_cons.mp hc with rfl | hc
      · trivial
      · rw [List.mem_singleton.mp hc]
        trivial)).mpr (Or.inl (by
          change (5 : BitVec 32) ≠ 0
          decide))

/-- A stream that starts with number zero: the packet five passes for its first. -/
theorem onlyExpected_fails :
    ¬ OnlyExpected 1 (constructed 0 0) [.insert 0 0, .insert 5 (1 : Nat)] := by
  rintro ⟨-, h, -⟩
  have hfive : (5 : BitVec 32) = 1 := h rfl rfl
  exact absurd hfive (by decide)

end PacketSorter

end CodecChanger
