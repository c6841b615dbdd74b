import CodecChanger.Core.Sc
import CodecChanger.Lib.Trace

/-!
# SC Headers on the Wire

The bytes of the headers that a sender writes, one call of `Send` after the other.

The sequence number and the direction share a word, of which the direction is the high
byte. `Init` sets the two one after the other. `Send` increases the number as a word
and masks it, so that a carry out of the 24 bits is lost and never gets to the
direction, however many packets there are. In network order the direction is the first
byte of the word, and the three bytes behind it are the number.

## Main definitions

* `SC.SendCall`: What `Send` is called with.
* `SC.sends`: A sender after some calls.
* `SC.numbered`: How many calls have moved the number.
* `SC.wire`: The bytes of a header.
* `SC.Sends`: What a sender keeps over a run.

## Theorems

* `store_scCopyToNet`: A header in network order, byte by byte.
* `sends_sends`: What a call keeps.
* `send_wire`: The bytes of every header of every run.
-/

namespace CodecChanger

open Bytes

namespace SC

/-- What `Send` is called with. -/
structure SendCall where
  payloadLength : BitVec 16
  buff : List Byte
  buffLength : Int

/-- The sender after some calls of `Send`. -/
def sends (q : SC) (calls : List SendCall) : SC :=
  Trace.run (fun q c => (q.send c.payloadLength c.buff c.buffLength).1) q calls

/-- The number of calls that have room for a header. -/
def numbered (calls : List SendCall) : Nat :=
  calls.countP fun c => decide ((kSCHeadSize : Int) ≤ c.buffLength)

/-- A header on the wire: the UEID, the direction, the number, the length of the payload
    and two zeros, all with the high byte first. -/
def wire (ueid : BitVec 32) (forward : Transforward) (number : Nat) (payloadLength : BitVec 16) :
    List Byte :=
  bigEndian 4 ueid.toNat ++ [forward.value] ++ bigEndian 3 number ++
    bigEndian 2 payloadLength.toNat ++ [0, 0]

/-- The sender has its UEID and its direction, and the number is `n`. -/
structure Sends (q : SC) (ueid : BitVec 32) (forward : Transforward) (n : Nat) : Prop where
  ueid_eq : q.sendHeader.ueid = ueid
  forward_eq : getScForward q.sendHeader = forward.value
  sn_eq : (getScSn q.sendHeader).toNat = n % 2 ^ 24
  rev_eq : q.sendHeader.rev = 0

/-- A header in network order. The direction is the byte in front of the number. -/
theorem store_scCopyToNet (h : SCHeader) :
    (scCopyToNet h).store =
      bigEndian 4 h.ueid.toNat ++ [getScForward h] ++ bigEndian 3 (getScSn h).toNat ++
        bigEndian 2 h.length.toNat ++ bigEndian 2 h.rev.toNat := by
  have hword : bytes32 (swap32 h.snForward) =
      [getScForward h] ++ bigEndian 3 (getScSn h).toNat := by
    have hforward : getScForward h = BitVec.ofNat 8 (h.snForward.toNat / 256 ^ 3) := byte_eq _ 3
    -- Cutting the word to 24 bits leaves its three low bytes.
    have hcut := bigEndian_mod 3 3 h.snForward.toNat (Nat.le_refl 3)
    have hpow : (2 : Nat) ^ 24 = 256 ^ 3 := rfl
    rw [bytes32_swap_bigEndian, hforward, toNat_getScSn, hpow, hcut]
    rfl
  unfold SCHeader.store scCopyToNet
  rw [bytes32_swap_bigEndian, hword, bytes16_swap_bigEndian, bytes16_swap_bigEndian]
  simp only [List.append_assoc]

/-- `Init` sets all of it. -/
theorem sends_init (q : SC) (ueid : BitVec 32) (forward : Transforward) (sn : BitVec 32) :
    Sends (q.init ueid forward sn) ueid forward sn.toNat where
  ueid_eq := rfl
  forward_eq := by
    unfold init
    simp only []
    rw [getScForward_setScSn, getScForward_setScForward]
  sn_eq := toNat_getScSn_setScSn _ sn
  rev_eq := rfl

/-- With room the number moves on by one, and the rest is kept. -/
theorem sends_nextHeader (q : SC) (ueid : BitVec 32) (forward : Transforward) (n : Nat)
    (h : Sends q ueid forward n) (payloadLength : BitVec 16) :
    Sends { q with sendHeader := q.nextHeader payloadLength } ueid forward (n + 1) where
  ueid_eq := h.ueid_eq
  forward_eq := (getScForward_setScSn _ _).trans h.forward_eq
  sn_eq := by
    change (getScSn (q.nextHeader payloadLength)).toNat = _
    rw [getScSn_nextHeader, h.sn_eq]
    omega
  rev_eq := h.rev_eq

/-- Without room nothing is written and the number stays. -/
theorem send_of_short (q : SC) (c : SendCall) (h : c.buffLength < kSCHeadSize) :
    q.send c.payloadLength c.buff c.buffLength = (q, c.buff, -1) := by
  rw [send, if_pos h]

/-- What a sender keeps over a run. -/
theorem sends_sends (q : SC) (ueid : BitVec 32) (forward : Transforward) (n : Nat)
    (h : Sends q ueid forward n) (calls : List SendCall) :
    Sends (q.sends calls) ueid forward (n + numbered calls) := by
  induction calls generalizing q n with
  | nil => exact h
  | cons c calls ih =>
      have hstep : q.sends (c :: calls) =
          (q.send c.payloadLength c.buff c.buffLength).1.sends calls := rfl
      rw [hstep]
      unfold numbered
      by_cases hroom : c.buffLength < kSCHeadSize
      · rw [send_of_short q c hroom, List.countP_cons_of_neg (by rw [decide_eq_true_eq]; omega)]
        exact ih q n h
      · rw [send_eq q _ _ _ (by omega), List.countP_cons_of_pos (by rw [decide_eq_true_eq]; omega),
          Nat.add_comm (List.countP _ calls), ← Nat.add_assoc]
        exact ih _ (n + 1) (sends_nextHeader q ueid forward n h c.payloadLength)

/-- In a run of a sender that was set up, a call without room changes neither the buffer
    nor the sender, and one with room writes a header with the number of its place, which
    is modulo 2 ^ 24, and leaves what follows alone. -/
theorem send_wire (q : SC) (ueid : BitVec 32) (forward : Transforward) (sn : BitVec 32)
    (earlier : List SendCall) (c : SendCall) :
    let sender := (q.init ueid forward sn).sends earlier
    (c.buffLength < kSCHeadSize →
      sender.send c.payloadLength c.buff c.buffLength = (sender, c.buff, -1)) ∧
    (kSCHeadSize ≤ c.buffLength →
      (sender.send c.payloadLength c.buff c.buffLength).2 =
        (wire ueid forward ((sn.toNat + (numbered earlier + 1)) % 2 ^ 24) c.payloadLength ++
          c.buff.drop kSCHeadSize, (kSCHeadSize : Int))) := by
  have hrun := sends_sends _ ueid forward sn.toNat (sends_init q ueid forward sn) earlier
  generalize (q.init ueid forward sn).sends earlier = sender at hrun
  refine ⟨send_of_short sender c, fun hroom => ?_⟩
  have hnext := sends_nextHeader sender ueid forward _ hrun c.payloadLength
  rw [send_eq sender _ _ _ hroom, store_scCopyToNet, length_nextHeader]
  rw [show (sender.nextHeader c.payloadLength).ueid = ueid from hnext.ueid_eq,
    show getScForward (sender.nextHeader c.payloadLength) = forward.value from hnext.forward_eq,
    show (getScSn (sender.nextHeader c.payloadLength)).toNat = _ from hnext.sn_eq,
    show (sender.nextHeader c.payloadLength).rev = 0 from hnext.rev_eq, Nat.add_assoc]
  rfl

/-- The number goes round from its largest value to zero, and the direction stays. -/
theorem send_wire_wrapping :
    (((SC.init ⟨SCHeader.zero, SCHeader.zero, false⟩ 0x01020304 .from4G 0xabfffffe).sends
        [⟨5, [], 12⟩, ⟨6, [], 11⟩]).send 0x0708 (List.replicate 14 9) 12).2 =
      ([1, 2, 3, 4, 1, 0, 0, 0, 7, 8, 0, 0, 9, 9], 12) :=
  (send_wire ⟨SCHeader.zero, SCHeader.zero, false⟩ 0x01020304 .from4G 0xabfffffe
    [⟨5, [], 12⟩, ⟨6, [], 11⟩] ⟨0x0708, List.replicate 14 9, 12⟩).2 (by decide)

end SC

end CodecChanger
