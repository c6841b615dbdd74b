import CodecChanger.Lib.Bytes

/-!
# The RTP Layer

`rtp.h` and `rtp.cpp`: a header with a sequence number and a timestamp that move
on from packet to packet. The numbers a session starts with are random, and its
identifier is a hash of the time and the machine; all three are given to `init`
here.

`DecodeRtpHeader` is declared with one more output parameter than it is defined
with, and assigns a member `lost_samples` that no class has. The model follows
the definition, without that member: nothing of the session is read or written.

## Main definitions

* `CodecType`, `MediaParam`, `generateDefaultParam`: What is known of a codec.
* `RtpHeader`: The header.
* `RtpHeader.store`, `RtpHeader.load`, `RtpHeader.swap`: The header in memory.
* `RtpSession`: The members that sending uses.
* `RtpSession.init`, `RtpSession.generateRtpHeader`: Its calls.
* `RtpSession.decodeRtpHeader`: The header of a packet that comes in.
* `RtpSession.decodeReach`: How much of the packet that looks at.
* `RtpSession.Plain`: A session makes headers of the fixed form.

## Theorems

* `load_store`: A stored header is read back.
* `generateRtpHeader_of_room`: What `generateRtpHeader` writes.
* `plain_init`, `plain_generateRtpHeader`: The headers of a session are plain.
* `decodeRtpHeader_cases`: A packet is rejected, or stripped of a header that was
  there.
* `decodeRtpHeader_take`: Nothing else of the packet matters.
* `decodeRtpHeader_of_plain`: A plain header is accepted.
-/

namespace CodecChanger

open Bytes

/-- `CodecType`. -/
inductive CodecType where
  | amrWb
  | codec2
  | pcmA
  | pcmU
  | err
  deriving DecidableEq, Repr

/-- `MediaParam`. -/
structure MediaParam where
  payloadType : Int
  clockRate : BitVec 32
  samplesPreFrames : BitVec 32
  deriving DecidableEq, Repr

/-- `GenerateDefaultParam`. -/
def generateDefaultParam : CodecType → MediaParam
  | .amrWb => ⟨99, 16000, 320⟩
  | .codec2 => ⟨96, 8000, 160⟩
  | .pcmA => ⟨8, 8000, 160⟩
  | .pcmU => ⟨0, 8000, 160⟩
  | .err => ⟨0, 0, 0⟩

/-- `RtpHeader`. -/
@[ext] structure RtpHeader where
  v : BitVec 2
  p : BitVec 1
  x : BitVec 1
  cc : BitVec 4
  m : BitVec 1
  pt : BitVec 7
  sequenceNum : BitVec 16
  timestamp : BitVec 32
  ssrc : BitVec 32
  deriving DecidableEq, Repr

def kRtpHeaderSize : Nat := 12

/-- The header in memory. Of the first two bytes `v` and `m` are the high ends. -/
def RtpHeader.store (h : RtpHeader) : List Byte :=
  [h.v ++ h.p ++ h.x ++ h.cc, h.m ++ h.pt] ++ bytes16 h.sequenceNum ++ bytes32 h.timestamp ++
    bytes32 h.ssrc

/-- The header at the start of a stretch of memory. -/
def RtpHeader.load (m : List Byte) : RtpHeader where
  v := (m.getD 0 0).extractLsb' 6 2
  p := (m.getD 0 0).extractLsb' 5 1
  x := (m.getD 0 0).extractLsb' 4 1
  cc := (m.getD 0 0).extractLsb' 0 4
  m := (m.getD 1 0).extractLsb' 7 1
  pt := (m.getD 1 0).extractLsb' 0 7
  sequenceNum := load16 m 2
  timestamp := load32 m 4
  ssrc := load32 m 8

/-- The header with its words in the other order. -/
def RtpHeader.swap (h : RtpHeader) : RtpHeader :=
  { h with
    sequenceNum := swap16 h.sequenceNum
    timestamp := swap32 h.timestamp
    ssrc := swap32 h.ssrc }

@[simp] theorem RtpHeader.length_store (h : RtpHeader) : h.store.length = kRtpHeaderSize := rfl

@[simp] theorem RtpHeader.swap_swap (h : RtpHeader) : h.swap.swap = h := by
  simp only [RtpHeader.swap, swap16_swap16, swap32_swap32]

/-- A stored header is read back, whatever follows it. -/
theorem RtpHeader.load_store (h : RtpHeader) (rest : List Byte) :
    RtpHeader.load (h.store ++ rest) = h := by
  ext1
  -- The parts of the first two bytes, then the words.
  iterate 4
    · change (h.v ++ h.p ++ h.x ++ h.cc).extractLsb' _ _ = _
      ext i hi
      simp only [BitVec.getElem_extractLsb', BitVec.getLsbD_append]
      grind
  iterate 2
    · change (h.m ++ h.pt).extractLsb' _ _ = _
      ext i hi
      simp only [BitVec.getElem_extractLsb', BitVec.getLsbD_append]
      grind
  · exact word16_bytes h.sequenceNum
  · exact word32_bytes h.timestamp
  · exact word32_bytes h.ssrc

/-- `RtpSession`, without what receiving uses. -/
structure RtpSession where
  param : MediaParam
  sendHeader : RtpHeader
  deriving DecidableEq, Repr

namespace RtpSession

/-- `Init`. The size of the header is right, so it succeeds. -/
def init (_ : RtpSession) (param : MediaParam) (sequenceNum : BitVec 16)
    (timestamp ssrc : BitVec 32) : RtpSession where
  param := param
  sendHeader :=
    { v := 2
      p := 0
      x := 0
      cc := 0
      m := 0
      pt := BitVec.ofInt 7 param.payloadType
      sequenceNum := sequenceNum
      timestamp := timestamp
      ssrc := ssrc }

/-- `GenerateRtpHeader`: the new state, the bytes written to `buff` and the value
    returned. -/
def generateRtpHeader (q : RtpSession) (length : Nat) (frameNum : Int) :
    RtpSession × List Byte × Int :=
  let h := q.sendHeader
  if length < kRtpHeaderSize then (q, [], -1)
  else
    -- The first two bytes have no order and go over as they are.
    let head := [h.v ++ h.p ++ h.x ++ h.cc, h.m ++ h.pt] ++ bytes16 (swap16 h.sequenceNum) ++
      bytes32 (swap32 h.timestamp) ++ bytes32 (swap32 h.ssrc)
    let q' := { q with sendHeader := { h with
      sequenceNum := h.sequenceNum + 1
      timestamp := h.timestamp + BitVec.ofInt 32 frameNum * q.param.samplesPreFrames } }
    (q', head, kRtpHeaderSize)

/-- `DecodeRtpHeader`: the value returned, the packet, whose header is put into
    host order where it lies, and the output parameters `sequence_number` and
    `time_stamp` if they are assigned. -/
def decodeRtpHeader (pkt : List Byte) (pktLen : BitVec 32) :
    Int × List Byte × Option (BitVec 32 × BitVec 32) :=
  if pktLen.toNat < kRtpHeaderSize then (-1, pkt, none)
  else
    let nowHead := RtpHeader.load pkt
    if nowHead.v ≠ 2 ∨ nowHead.x ≠ 0 ∨ nowHead.cc ≠ 0 ∨ nowHead.m ≠ 0 then (-1, pkt, none)
    else
      let nowHead := nowHead.swap
      (kRtpHeaderSize, nowHead.store ++ pkt.drop kRtpHeaderSize,
        some (nowHead.sequenceNum.setWidth 32, nowHead.timestamp))

/-- How many bytes of the packet `DecodeRtpHeader` looks at: the header, once the
    length has room for it. -/
def decodeReach (pktLen : BitVec 32) : Nat :=
  if pktLen.toNat < kRtpHeaderSize then 0 else kRtpHeaderSize

/-- Given room, a header of twelve bytes is written. -/
theorem generateRtpHeader_of_room (q : RtpSession) (length : Nat) (frameNum : Int)
    (h : kRtpHeaderSize ≤ length) :
    ∃ q' head, q.generateRtpHeader length frameNum = (q', head, (kRtpHeaderSize : Int)) ∧
      head.length = kRtpHeaderSize := by
  unfold generateRtpHeader
  rw [if_neg (by omega)]
  exact ⟨_, _, rfl, rfl⟩

/-- The version is two, and there is neither an extension, nor a contributing
    source, nor a marker. -/
def Plain (q : RtpSession) : Prop :=
  q.sendHeader.v = 2 ∧ q.sendHeader.x = 0 ∧ q.sendHeader.cc = 0 ∧ q.sendHeader.m = 0

theorem plain_init (q : RtpSession) (param : MediaParam) (sequenceNum : BitVec 16)
    (timestamp ssrc : BitVec 32) : (q.init param sequenceNum timestamp ssrc).Plain :=
  ⟨rfl, rfl, rfl, rfl⟩

theorem plain_generateRtpHeader (q : RtpSession) (length : Nat) (frameNum : Int)
    (h : q.Plain) : (q.generateRtpHeader length frameNum).1.Plain := by
  unfold generateRtpHeader
  split
  · exact h
  · exact h

/-- A packet is rejected, or it has room for a header, whose length is returned,
    and what follows it is left alone. -/
theorem decodeRtpHeader_cases (pkt : List Byte) (pktLen : BitVec 32) :
    (decodeRtpHeader pkt pktLen).1 = -1 ∨
      (decodeRtpHeader pkt pktLen).1 = kRtpHeaderSize ∧ kRtpHeaderSize ≤ pktLen.toNat ∧
        (decodeRtpHeader pkt pktLen).2.1.drop kRtpHeaderSize = pkt.drop kRtpHeaderSize := by
  unfold decodeRtpHeader
  simp only []
  split
  · exact Or.inl rfl
  · rename_i hlen
    split
    · exact Or.inl rfl
    · exact Or.inr ⟨rfl, not_lt.mp hlen, List.drop_left' (RtpHeader.length_store _)⟩

/-- Nothing else of the packet matters. -/
theorem decodeRtpHeader_take (pkt : List Byte) (pktLen : BitVec 32) :
    (decodeRtpHeader (pkt.take (decodeReach pktLen)) pktLen).1 = (decodeRtpHeader pkt pktLen).1 ∧
      (decodeRtpHeader (pkt.take (decodeReach pktLen)) pktLen).2.2 =
        (decodeRtpHeader pkt pktLen).2.2 := by
  unfold decodeRtpHeader decodeReach
  by_cases hlen : pktLen.toNat < kRtpHeaderSize
  · simp only [if_pos hlen]
    exact ⟨trivial, trivial⟩
  · have hload : RtpHeader.load (pkt.take kRtpHeaderSize) = RtpHeader.load pkt := by
      unfold RtpHeader.load kRtpHeaderSize
      rw [getD_take _ _ _ (by omega), getD_take _ _ _ (by omega), load16_take _ _ _ (by omega),
        load32_take _ _ _ (by omega), load32_take _ _ _ (by omega)]
    simp only [if_neg hlen, hload]
    split
    · exact ⟨rfl, rfl⟩
    · exact ⟨rfl, rfl⟩

/-- A header that a plain session made is accepted, and what follows it left
    alone. -/
theorem decodeRtpHeader_of_plain (q : RtpSession) (frameNum : Int) (rest : List Byte)
    (pktLen : BitVec 32) (h : q.Plain) (hlen : kRtpHeaderSize ≤ pktLen.toNat) :
    decodeRtpHeader ((q.generateRtpHeader kRtpHeaderSize frameNum).2.1 ++ rest) pktLen =
      ((kRtpHeaderSize : Int), q.sendHeader.store ++ rest,
        some (q.sendHeader.sequenceNum.setWidth 32, q.sendHeader.timestamp)) := by
  have hhead : (q.generateRtpHeader kRtpHeaderSize frameNum).2.1 = q.sendHeader.swap.store := rfl
  rcases h with ⟨hv, hx, hcc, hm⟩
  unfold decodeRtpHeader
  rw [if_neg (by omega), hhead]
  simp only [RtpHeader.load_store]
  rw [if_neg (by simp only [RtpHeader.swap, hv, hx, hcc, hm]; decide), RtpHeader.swap_swap]
  have hdrop : (q.sendHeader.swap.store ++ rest).drop kRtpHeaderSize = rest :=
    List.drop_left' (RtpHeader.length_store _)
  rw [hdrop]

end RtpSession

end CodecChanger
