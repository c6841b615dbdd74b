import CodecChanger.Core.Rtp
import CodecChanger.Lib.Trace

/-!
# RTP Headers Over a Run

What `DecodeRtpHeader` reads from the headers that a session writes, one call of
`GenerateRtpHeader` after the other.

A call with room for a header counts the packet and the samples of its frames, and
one without changes nothing. So after a run the sequence number has moved on by the
calls with room and the timestamp by the frames these were told of, the product of an
`int` and a `uint32_t` being one modulo 2 ^ 32. Nothing else of the header changes,
and the decoder asks for nothing that it does not have.

## Main definitions

* `HeaderCall`: What `GenerateRtpHeader` is called with.
* `RtpSession.generated`: A session after some calls.
* `RtpSession.counted`: The frames that are counted.
* `RtpSession.buffer`: The buffer after a call.
* `Decoded`: What a packet is decoded to.

## Theorems

* `generateRtpHeader_of_short`: Without room, nothing changes.
* `generated_eq`: What a run does to a session.
* `timestamp_counted`: The timestamp after a run.
* `buffer_of_room`: With room, the buffer starts with the header.
* `decodeRtpHeader_generated`: The headers of a run are decoded.
-/

namespace CodecChanger

open Bytes

/-- What `GenerateRtpHeader` is called with, but for the buffer. -/
structure HeaderCall where
  length : Nat
  frameNum : Int
  deriving DecidableEq, Repr

/-- With every length that has room for a header, the packet is accepted, and these
    are its sequence number and its timestamp. -/
def Decoded (packet : List Byte) (sequenceNum : Nat) (timestamp : Int) : Prop :=
  ∀ pktLen : BitVec 32, kRtpHeaderSize ≤ pktLen.toNat →
    ∃ pkt sn ts, RtpSession.decodeRtpHeader packet pktLen =
        ((kRtpHeaderSize : Int), pkt, some (sn, ts)) ∧
      sn.toNat = sequenceNum ∧ (ts.toNat : Int) = timestamp

namespace RtpSession

/-- The session after some calls of `GenerateRtpHeader`. -/
def generated (q : RtpSession) (calls : List HeaderCall) : RtpSession :=
  Trace.run (fun q c => (q.generateRtpHeader c.length c.frameNum).1) q calls

/-- The numbers of frames in the calls that have room for a header. -/
def counted (calls : List HeaderCall) : List Int :=
  (calls.filter fun c => kRtpHeaderSize ≤ c.length).map HeaderCall.frameNum

/-- The buffer after a call of `GenerateRtpHeader`. -/
def buffer (q : RtpSession) (c : HeaderCall) (buff : List Byte) : List Byte :=
  let head := (q.generateRtpHeader c.length c.frameNum).2.1
  head ++ buff.drop head.length

/-- Without room for a header nothing is written and nothing counted. -/
theorem generateRtpHeader_of_short (q : RtpSession) (c : HeaderCall)
    (h : c.length < kRtpHeaderSize) : q.generateRtpHeader c.length c.frameNum = (q, [], -1) := by
  rw [generateRtpHeader, if_pos h]

/-- What a run does: the calls with room are counted, and so are their frames. -/
theorem generated_eq (q : RtpSession) (calls : List HeaderCall) :
    q.generated calls = { q with sendHeader := { q.sendHeader with
      sequenceNum := q.sendHeader.sequenceNum + BitVec.ofNat 16 (counted calls).length
      timestamp := q.sendHeader.timestamp +
        BitVec.ofInt 32 (counted calls).sum * q.param.samplesPreFrames } } := by
  induction calls generalizing q with
  | nil =>
      have hseq : q.sendHeader.sequenceNum + BitVec.ofNat 16 (counted []).length =
          q.sendHeader.sequenceNum := BitVec.add_zero _
      have hts : q.sendHeader.timestamp + BitVec.ofInt 32 (counted []).sum *
          q.param.samplesPreFrames = q.sendHeader.timestamp := by
        change q.sendHeader.timestamp + 0 * q.param.samplesPreFrames = _
        rw [zero_mul, add_zero]
      rw [hseq, hts]
      rfl
  | cons c calls ih =>
      have hstep : q.generated (c :: calls) =
          (q.generateRtpHeader c.length c.frameNum).1.generated calls := rfl
      rw [hstep, ih]
      by_cases hroom : c.length < kRtpHeaderSize
      · have hcounted : counted (c :: calls) = counted calls := by
          unfold counted
          rw [List.filter_cons_of_neg (by rw [decide_eq_true_eq]; omega)]
        rw [generateRtpHeader_of_short q c hroom, hcounted]
      · have hcounted : counted (c :: calls) = c.frameNum :: counted calls := by
          unfold counted
          rw [List.filter_cons_of_pos (by rw [decide_eq_true_eq]; omega), List.map_cons]
        rw [hcounted, List.length_cons, List.sum_cons, BitVec.ofInt_add, BitVec.ofNat_add,
          generateRtpHeader, if_neg hroom]
        simp only [RtpSession.mk.injEq, RtpHeader.mk.injEq, true_and, and_true]
        refine ⟨?_, ?_⟩
        · rw [add_assoc, add_comm (BitVec.ofNat 16 _)]
          rfl
        · rw [add_mul, add_assoc]

/-- The timestamp after a run, modulo 2 ^ 32. -/
theorem timestamp_counted (timestamp samples : BitVec 32) (frames : Int) :
    ((timestamp + BitVec.ofInt 32 frames * samples).toNat : Int) =
      ((timestamp.toNat : Int) + samples.toNat * frames) % 2 ^ 32 := by
  -- All of it is the word of one integer.
  have hword : timestamp + BitVec.ofInt 32 frames * samples =
      BitVec.ofInt 32 ((timestamp.toNat : Int) + samples.toNat * frames) := by
    rw [BitVec.ofInt_add, BitVec.ofInt_mul, BitVec.ofInt_natCast, BitVec.ofInt_natCast,
      BitVec.ofNat_toNat, BitVec.ofNat_toNat, BitVec.setWidth_eq, BitVec.setWidth_eq, mul_comm]
  rw [hword, BitVec.toNat_ofInt]
  omega

/-- With room the buffer starts with the header, and what follows is left alone. -/
theorem buffer_of_room (q : RtpSession) (c : HeaderCall) (buff : List Byte)
    (h : kRtpHeaderSize ≤ c.length) :
    q.buffer c buff = q.sendHeader.swap.store ++ buff.drop kRtpHeaderSize ∧
      (q.generateRtpHeader c.length c.frameNum).2.2 = kRtpHeaderSize := by
  unfold buffer generateRtpHeader
  rw [if_neg (by omega)]
  exact ⟨rfl, rfl⟩

/-- In a run of a session that was set up, a call without room changes neither the
    buffer nor the session. One with room writes a header that is accepted whatever the
    packet is, with the number of calls with room before it and the frames of those. -/
theorem decodeRtpHeader_generated (q : RtpSession) (param : MediaParam) (sequenceNum : BitVec 16)
    (timestamp ssrc : BitVec 32) (earlier : List HeaderCall) (c : HeaderCall) (buff : List Byte)
    (hpt : 0 ≤ param.payloadType) (hpt' : param.payloadType ≤ 127) :
    let session := (q.init param sequenceNum timestamp ssrc).generated earlier
    let packet := session.buffer c buff
    (c.length < kRtpHeaderSize →
      session.generateRtpHeader c.length c.frameNum = (session, [], -1) ∧ packet = buff) ∧
    (kRtpHeaderSize ≤ c.length →
      (session.generateRtpHeader c.length c.frameNum).2.2 = kRtpHeaderSize ∧
      packet.getD 0 0 = 0x80 ∧ ((packet.getD 1 0).toNat : Int) = param.payloadType ∧
      (packet.drop 8).take 4 = bigEndian 4 ssrc.toNat ∧
      packet.drop kRtpHeaderSize = buff.drop kRtpHeaderSize ∧
      Decoded packet ((sequenceNum.toNat + (counted earlier).length) % 2 ^ 16)
        (((timestamp.toNat : Int) + param.samplesPreFrames.toNat * (counted earlier).sum) %
          2 ^ 32)) := by
  have hrun := generated_eq (q.init param sequenceNum timestamp ssrc) earlier
  generalize (q.init param sequenceNum timestamp ssrc).generated earlier = session at hrun
  -- All of the header but its two counters is what `Init` has made it.
  have hfixed : session.sendHeader.v = 2 ∧ session.sendHeader.p = 0 ∧ session.sendHeader.x = 0 ∧
      session.sendHeader.cc = 0 ∧ session.sendHeader.m = 0 ∧
      session.sendHeader.pt = BitVec.ofInt 7 param.payloadType ∧
      session.sendHeader.ssrc = ssrc := by
    rw [hrun]
    exact ⟨rfl, rfl, rfl, rfl, rfl, rfl, rfl⟩
  rcases hfixed with ⟨hv, hp, hx, hcc, hm, hpayload, hssrc⟩
  refine ⟨fun hshort => ?_, fun hroom => ?_⟩
  · refine ⟨generateRtpHeader_of_short session c hshort, ?_⟩
    rw [buffer, generateRtpHeader_of_short session c hshort]
    rfl
  · rcases buffer_of_room session c buff hroom with ⟨hbuffer, hret⟩
    simp only [hbuffer]
    refine ⟨hret, ?_, ?_, ?_, rfl, fun pktLen hlen => ?_⟩
    · change session.sendHeader.v ++ session.sendHeader.p ++ session.sendHeader.x ++
        session.sendHeader.cc = (0x80 : Byte)
      rw [hv, hp, hx, hcc]
      rfl
    · change ((session.sendHeader.m ++ session.sendHeader.pt).toNat : Int) = _
      have hzero : (0 : BitVec 1).toNat = 0 := rfl
      rw [hm, hpayload, BitVec.toNat_append, BitVec.toNat_ofInt, hzero, Nat.zero_shiftLeft,
        Nat.zero_or]
      omega
    · rw [← hssrc, ← bytes32_swap_bigEndian]
      rfl
    · refine ⟨_, _, _, decodeRtpHeader_of_plain session 0 (buff.drop kRtpHeaderSize) pktLen
        ⟨hv, hx, hcc, hm⟩ hlen, ?_, ?_⟩
      · have hseq : session.sendHeader.sequenceNum =
            sequenceNum + BitVec.ofNat 16 (counted earlier).length := by
          rw [hrun]
          rfl
        rw [hseq, BitVec.toNat_setWidth, BitVec.toNat_add, BitVec.toNat_ofNat]
        omega
      · have hts : session.sendHeader.timestamp = timestamp +
            BitVec.ofInt 32 (counted earlier).sum * param.samplesPreFrames := by
          rw [hrun]
          rfl
        rw [hts]
        exact timestamp_counted timestamp param.samplesPreFrames _

/-- The third packet of a run in which both counters pass their ends, and a call in
    between has no room. -/
theorem decodeRtpHeader_generated_third :
    let session := (RtpSession.init ⟨generateDefaultParam .err, RtpHeader.load []⟩
      (generateDefaultParam .amrWb) 0xffff 0xffffff00 1).generated [⟨12, 1⟩, ⟨11, 5⟩, ⟨12, 2⟩]
    Decoded (session.buffer ⟨12, 1⟩ (List.replicate 14 7)) 1 704 :=
  ((decodeRtpHeader_generated ⟨generateDefaultParam .err, RtpHeader.load []⟩
    (generateDefaultParam .amrWb) 0xffff 0xffffff00 1 [⟨12, 1⟩, ⟨11, 5⟩, ⟨12, 2⟩] ⟨12, 1⟩
    (List.replicate 14 7) (by decide) (by decide)).2 (by decide)).2.2.2.2.2

end RtpSession

end CodecChanger
