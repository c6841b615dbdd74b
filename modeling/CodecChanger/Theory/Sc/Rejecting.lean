import CodecChanger.Core.Sc
import CodecChanger.Lib.Trace

/-!
# Datagrams That Are Rejected

`Recv` gets whatever comes in. It rejects a datagram that is too short, one that is
not as long as its header says, and, behind the first it has accepted, one of another
direction. Both tests on the length come before the first datagram is latched, and none
of the three ways out has assigned a member. So a receiver is what the datagrams it
has accepted have made it, and the others can be left out of a run.

What it has latched is the first header it has accepted, and of that header it is the
direction that later datagrams are compared with.

## Main definitions

* `Datagram`: A datagram that comes in.
* `SC.arrive`: The call of `Recv` for it.
* `SC.accepted`: The datagrams of a run that are accepted.
* `Datagram.WellFormed`: It is as long as its header says.
* `SC.Latched`: What a receiver keeps of the datagrams it has accepted.

## Theorems

* `getScForward_load`, `length_load`: Two fields of a header, as bytes on the wire.
* `arrive_cases`: What `Recv` does with a datagram.
* `latched_run`: What a receiver keeps over a run.
* `rejected_invisible`: Which datagrams are accepted, and that the others do not matter.
-/

namespace CodecChanger

open Bytes

/-- A datagram that comes in, and what the variable for its number holds before. -/
structure Datagram where
  data : List Byte
  sn : BitVec 32
  deriving DecidableEq, Repr

/-- The datagram has a header, and the length it has by the two bytes there. -/
def Datagram.WellFormed (a : Datagram) : Prop :=
  kSCHeadSize ≤ a.data.length ∧
    a.data.length = kSCHeadSize + ((a.data.getD 8 0).toNat * 256 + (a.data.getD 9 0).toNat)

instance (a : Datagram) : Decidable a.WellFormed := inferInstanceAs (Decidable (_ ∧ _))

/-- The byte of the direction. -/
def Datagram.forward (a : Datagram) : Byte := a.data.getD 4 0

namespace SC

/-- The call of `Recv` for a datagram: the new state, and what is returned and
    reported. -/
def arrive (q : SC) (a : Datagram) : SC × (Int × BitVec 32) := q.recv a.data a.data.length a.sn

/-- The call does not fail. -/
def accepts (r : Int × BitVec 32) : Bool := decide (0 ≤ r.1)

/-- The datagrams of a run that are accepted. -/
def accepted (q : SC) (l : List Datagram) : List Datagram := Trace.kept arrive accepts q l

/-- The receiver after a run. -/
def afterDatagrams (q : SC) (l : List Datagram) : SC := Trace.run (fun q a => (arrive q a).1) q l

/-- The receiver waits for its first datagram, or it has the header of the first one of
    these. -/
def Latched (q : SC) : List Datagram → Prop
  | [] => q.firstPack = true
  | first :: _ => q.firstPack = false ∧ getScForward q.recvHeader = first.forward

/-- The direction of a header on the wire is its fifth byte. -/
theorem getScForward_load (data : List Byte) :
    getScForward (scCopyFromNet (SCHeader.load data)) = data.getD 4 0 := by
  change (bytes32 (swap32 (load32 data 4))).getD 3 0 = _
  rw [load32, swap32_word, bytes32_word]
  rfl

/-- The length in a header on the wire is in its ninth and tenth bytes, the high one
    first. -/
theorem length_load (data : List Byte) :
    (scCopyFromNet (SCHeader.load data)).length.toNat =
      (data.getD 8 0).toNat * 256 + (data.getD 9 0).toNat := by
  change (swap16 (load16 data 8)).toNat = _
  rw [load16, swap16_word, toNat_word16]

/-- What `Recv` does: it accepts a datagram that is well formed and has the direction of
    the header it keeps, if it keeps one. The first it accepts is kept, and nothing else
    changes. -/
theorem arrive_cases (q : SC) (a : Datagram) :
    (accepts (arrive q a).2 = true ↔ a.WellFormed ∧
        (q.firstPack = false → a.forward = getScForward q.recvHeader)) ∧
      (arrive q a).1 = if accepts (arrive q a).2 = true ∧ q.firstPack = true then
          { q with firstPack := false, recvHeader := scCopyFromNet (SCHeader.load a.data) }
        else q := by
  have hneg : ∀ sn : BitVec 32, accepts (-1, sn) = false := fun _ => rfl
  have hpos : ∀ sn : BitVec 32, accepts ((kSCHeadSize : Int), sn) = true := fun _ => rfl
  have hforward : getScForward (scCopyFromNet (SCHeader.load a.data)) = a.forward :=
    getScForward_load a.data
  -- Every way of rejecting a datagram returns the receiver as it was.
  have hrejected : ∀ (P : Prop) (first : Bool) (kept : SC), ¬ P →
      (false = true ↔ P) ∧ q = if false = true ∧ first = true then kept else q := by
    intro P first kept h
    rw [if_neg fun hc => Bool.false_ne_true hc.1]
    exact ⟨iff_of_false Bool.false_ne_true h, rfl⟩
  unfold Datagram.WellFormed arrive recv
  rw [← length_load]
  by_cases hshort : (a.data.length : Int) < kSCHeadSize
  · rw [if_pos hshort, hneg]
    exact hrejected _ _ _ fun h => by omega
  · rw [if_neg hshort]
    simp only []
    by_cases hlen : (a.data.length : Int) ≠
        kSCHeadSize + (scCopyFromNet (SCHeader.load a.data)).length.toNat
    · rw [if_pos hlen, hneg]
      exact hrejected _ _ _ fun h => by omega
    · rw [if_neg hlen]
      cases hfirst : q.firstPack with
      | true =>
          rw [if_pos rfl, hpos, if_pos ⟨rfl, rfl⟩]
          refine ⟨⟨fun _ => ⟨by omega, fun h => ?_⟩, fun _ => rfl⟩, rfl⟩
          exact absurd h.symm Bool.false_ne_true
      | false =>
          rw [if_neg Bool.false_ne_true, hforward]
          by_cases hway : a.forward ≠ getScForward q.recvHeader
          · rw [if_pos hway, hneg]
            exact hrejected _ _ _ fun h => absurd (h.2 rfl) hway
          · rw [if_neg hway, hpos, if_neg fun h => Bool.false_ne_true h.2]
            exact ⟨⟨fun _ => ⟨by omega, fun _ => not_not.mp hway⟩, fun _ => rfl⟩, rfl⟩

/-- A datagram that is rejected changes nothing. -/
theorem arrive_of_rejected (q : SC) (a : Datagram) (h : ¬ accepts (arrive q a).2 = true) :
    (arrive q a).1 = q := by
  rw [(arrive_cases q a).2, if_neg fun hc => h hc.1]

/-- One more datagram. -/
theorem latched_arrive (q : SC) (acc : List Datagram) (a : Datagram) (h : Latched q acc) :
    Latched (arrive q a).1 (if accepts (arrive q a).2 = true then acc ++ [a] else acc) := by
  by_cases hacc : accepts (arrive q a).2 = true
  · rw [if_pos hacc, (arrive_cases q a).2]
    cases acc with
    | nil =>
        -- The header that is kept is the one that has just been read.
        rw [if_pos ⟨hacc, h⟩]
        exact ⟨rfl, getScForward_load a.data⟩
    | cons first acc =>
        rw [if_neg fun hc => Bool.false_ne_true (h.1.symm.trans hc.2)]
        exact h
  · rw [if_neg hacc, arrive_of_rejected q a hacc]
    exact h

/-- What a receiver keeps over a run is the first of all datagrams it has accepted. -/
theorem latched_run (l : List Datagram) (q : SC) (acc : List Datagram) (h : Latched q acc) :
    Latched (afterDatagrams q l) (acc ++ accepted q l) := by
  induction l generalizing q acc with
  | nil =>
      change Latched q (acc ++ [])
      rw [List.append_nil]
      exact h
  | cons a l ih =>
      have hstep : afterDatagrams q (a :: l) = afterDatagrams (arrive q a).1 l := rfl
      have hnext := ih _ _ (latched_arrive q acc a h)
      rw [hstep]
      unfold accepted Trace.kept
      by_cases hacc : accepts (arrive q a).2 = true
      · rw [if_pos hacc, List.append_assoc] at hnext
        rw [if_pos hacc]
        exact hnext
      · rw [if_neg hacc] at hnext
        rw [if_neg hacc]
        exact hnext

/-- A receiver that has just been set up or reset. -/
inductive Fresh : SC → Prop
  | init (q : SC) (ueid : BitVec 32) (forward : Transforward) (sn : BitVec 32) :
      Fresh (q.init ueid forward sn)
  | resetRecv (q : SC) : Fresh q.resetRecv

/-- In every run of a receiver that was set up or reset, a datagram is accepted exactly
    when it is well formed and has the direction of the first accepted one, if there is
    one. Without the rejected datagrams the others get the same answers, and the receiver
    ends in the same state. -/
theorem rejected_invisible (q : SC) (hq : Fresh q) (l : List Datagram) :
    (∀ before a after, l = before ++ a :: after →
      (accepts (arrive (afterDatagrams q before) a).2 = true ↔
        a.WellFormed ∧ ∀ first ∈ (accepted q before).head?, a.forward = first.forward)) ∧
    Trace.answers arrive q (accepted q l) = (Trace.answers arrive q l).filter accepts ∧
    afterDatagrams q (accepted q l) = afterDatagrams q l := by
  have hwaits : Latched q [] := by
    cases hq with
    | init q ueid forward sn => rfl
    | resetRecv q => rfl
  refine ⟨fun before a after _ => ?_, Trace.answers_kept arrive accepts arrive_of_rejected l q,
    Trace.run_kept arrive accepts arrive_of_rejected l q⟩
  have hlatched := latched_run before q [] hwaits
  rw [(arrive_cases (afterDatagrams q before) a).1, List.nil_append] at *
  refine and_congr_right fun _ => ?_
  cases hacc : accepted q before with
  | nil =>
      rw [hacc] at hlatched
      refine ⟨fun _ first hfirst => absurd hfirst (by simp only [List.head?_nil, Option.mem_def,
        reduceCtorEq, not_false_eq_true]), fun _ hlater => ?_⟩
      exact absurd (hlater.symm.trans hlatched) Bool.false_ne_true
  | cons first rest =>
      rw [hacc] at hlatched
      rw [List.head?_cons]
      constructor
      · intro h f hf
        rw [← Option.some.inj hf, ← hlatched.2]
        exact h hlatched.1
      · intro h _
        rw [hlatched.2]
        exact h first rfl

/-- A receiver that was reset gets a datagram without a header, its first, one of the
    other direction and one more. -/
theorem rejected_invisible_four :
    Trace.answers arrive (resetRecv ⟨SCHeader.zero, SCHeader.zero, false⟩)
        (accepted (resetRecv ⟨SCHeader.zero, SCHeader.zero, false⟩)
          [⟨[], 9⟩, ⟨[0, 0, 0, 1, 0, 0, 0, 5, 0, 0, 0, 0], 9⟩,
            ⟨[0, 0, 0, 1, 1, 0, 0, 6, 0, 0, 0, 0], 9⟩,
            ⟨[0, 0, 0, 1, 0, 0, 0, 7, 0, 1, 0, 0, 3], 9⟩]) =
      (Trace.answers arrive (resetRecv ⟨SCHeader.zero, SCHeader.zero, false⟩)
          [⟨[], 9⟩, ⟨[0, 0, 0, 1, 0, 0, 0, 5, 0, 0, 0, 0], 9⟩,
            ⟨[0, 0, 0, 1, 1, 0, 0, 6, 0, 0, 0, 0], 9⟩,
            ⟨[0, 0, 0, 1, 0, 0, 0, 7, 0, 1, 0, 0, 3], 9⟩]).filter accepts :=
  (rejected_invisible (resetRecv ⟨SCHeader.zero, SCHeader.zero, false⟩) (.resetRecv _) _).2.1

end SC

end CodecChanger
