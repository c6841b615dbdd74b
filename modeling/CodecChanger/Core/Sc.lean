import CodecChanger.Lib.Bytes

/-!
# The SC Layer

`sc.h` and `sc.cpp`: a twelve-byte header with the sender's UEID, a 24-bit
sequence number that shares a word with the direction, and the length of the
payload. The header goes over the wire in network order; the machine is
little-endian, so the direction is the high byte of its word.

`Recv` has one output parameter. It is called `sn` where it is declared and
`lost_pack` where it is defined, and the body uses both names; the model takes
both for that one parameter.

## Main definitions

* `SCHeader`: The header.
* `getScForward`, `setScForward`, `getScSn`, `setScSn`: Its shared word.
* `scCopyToNet`, `scCopyFromNet`: Between host and network order.
* `SCHeader.store`, `SCHeader.load`: The header in memory.
* `SC`: The layer's members.
* `SC.init`, `SC.resetRecv`, `SC.send`, `SC.recv`: Its calls.
* `SC.nextHeader`: The header of the next packet.
* `SC.recvReach`: How much of a packet `recv` looks at.

## Theorems

* `load_store`: A stored header is read back.
* `scCopyFromNet_scCopyToNet`: The two copies undo each other.
* `toNat_getScSn`: The sequence number modulo 2 ^ 24.
* `toNat_getScSn_setScSn`, `getScForward_setScSn`, `getScForward_setScForward`:
  The parts of the shared word.
* `send_eq`, `send_of_room`: What `send` does.
* `recv_first`, `recv_later`: What `recv` does with a packet it accepts.
* `recv_cases`: A packet is rejected, or stripped of a header that was there.
* `recv_take`: Nothing else of the packet matters.
-/

namespace CodecChanger

open Bytes

/-- `Transforward`. -/
inductive Transforward where
  | to4G
  | from4G
  deriving DecidableEq, Repr

/-- The value of the enumeration, a `uint8_t`. -/
def Transforward.value : Transforward → Byte
  | .to4G => 0
  | .from4G => 1

def kSCHeadSize : Nat := 12

/-- `SCHeader`. -/
@[ext] structure SCHeader where
  ueid : BitVec 32
  snForward : BitVec 32
  length : BitVec 16
  rev : BitVec 16
  deriving DecidableEq, Repr

/-- `GetScForward`: byte 3 of the word in memory. -/
def getScForward (h : SCHeader) : Byte := (bytes32 h.snForward).getD 3 0

/-- `SetScForward`: byte 3 of the word in memory is replaced. -/
def setScForward (h : SCHeader) (forward : Byte) : SCHeader :=
  { h with snForward := load32 ((bytes32 h.snForward).set 3 forward) 0 }

def getScSn (h : SCHeader) : BitVec 32 := h.snForward &&& 0x00ffffff

def setScSn (h : SCHeader) (sn : BitVec 32) : SCHeader :=
  { h with snForward := (h.snForward &&& 0xff000000) ||| (sn &&& 0x00ffffff) }

/-- `ScCopyToNet`: every field in network order. -/
def scCopyToNet (h : SCHeader) : SCHeader where
  ueid := swap32 h.ueid
  snForward := swap32 h.snForward
  rev := swap16 h.rev
  length := swap16 h.length

/-- `ScCopyFromNet`: every field in host order. -/
def scCopyFromNet (h : SCHeader) : SCHeader where
  ueid := swap32 h.ueid
  snForward := swap32 h.snForward
  rev := swap16 h.rev
  length := swap16 h.length

/-- The header in memory, packed. -/
def SCHeader.store (h : SCHeader) : List Byte :=
  bytes32 h.ueid ++ bytes32 h.snForward ++ bytes16 h.length ++ bytes16 h.rev

/-- The header at the start of a stretch of memory. -/
def SCHeader.load (m : List Byte) : SCHeader where
  ueid := load32 m 0
  snForward := load32 m 4
  length := load16 m 8
  rev := load16 m 10

def SCHeader.zero : SCHeader where
  ueid := 0
  snForward := 0
  length := 0
  rev := 0

/-- `SC`. -/
structure SC where
  sendHeader : SCHeader
  recvHeader : SCHeader
  firstPack : Bool
  deriving DecidableEq, Repr

namespace SC

/-- `SC::Init`. The size of the header is right, so it succeeds. -/
def init (_ : SC) (ueid : BitVec 32) (forward : Transforward) (sn : BitVec 32) : SC where
  sendHeader := setScSn (setScForward { SCHeader.zero with ueid := ueid } forward.value) sn
  recvHeader := SCHeader.zero
  firstPack := true

/-- `SC::ResetRecv`. -/
def resetRecv (q : SC) : SC := { q with recvHeader := SCHeader.zero, firstPack := true }

/-- `SC::Send`: the new state, the buffer and the value returned. -/
def send (q : SC) (payloadLength : BitVec 16) (buff : List Byte) (buffLength : Int) :
    SC × List Byte × Int :=
  if buffLength < kSCHeadSize then (q, buff, -1)
  else
    let h := { q.sendHeader with length := payloadLength }
    let h := setScSn h (getScSn h + 1)
    ({ q with sendHeader := h }, (scCopyToNet h).store ++ buff.drop kSCHeadSize, kSCHeadSize)

/-- `SC::Recv`: the new state, the value returned and the output parameter, which
    came in as `sn`. -/
def recv (q : SC) (data : List Byte) (dataLength : Int) (sn : BitVec 32) :
    SC × Int × BitVec 32 :=
  if dataLength < kSCHeadSize then (q, -1, sn)
  else
    let nowHeader := scCopyFromNet (SCHeader.load data)
    -- `lost_pack = 0`, the only assignment on the way of the first packet.
    let sn := 0
    if dataLength ≠ kSCHeadSize + nowHeader.length.toNat then (q, -1, sn)
    else if q.firstPack then
      ({ q with firstPack := false, recvHeader := nowHeader }, kSCHeadSize, sn)
    else if getScForward nowHeader ≠ getScForward q.recvHeader then (q, -1, sn)
    else
      -- The header kept from the first packet, not the one just read.
      (q, kSCHeadSize, getScSn q.recvHeader)

/-- How many bytes of the packet `Recv` looks at: the header, once the length has
    room for it. -/
def recvReach (dataLength : Int) : Nat := if dataLength < kSCHeadSize then 0 else kSCHeadSize

end SC

/-- A stored header is read back, whatever follows it. -/
theorem load_store (h : SCHeader) (rest : List Byte) : SCHeader.load (h.store ++ rest) = h := by
  ext1
  · exact word32_bytes h.ueid
  · exact word32_bytes h.snForward
  · exact word16_bytes h.length
  · exact word16_bytes h.rev

@[simp] theorem length_store (h : SCHeader) : h.store.length = kSCHeadSize := rfl

/-- The two copies undo each other. -/
@[simp] theorem scCopyFromNet_scCopyToNet (h : SCHeader) : scCopyFromNet (scCopyToNet h) = h := by
  simp only [scCopyFromNet, scCopyToNet, swap32_swap32, swap16_swap16]

/-- The sequence number is the word modulo 2 ^ 24. -/
theorem toNat_getScSn (h : SCHeader) : (getScSn h).toNat = h.snForward.toNat % 2 ^ 24 := by
  rw [getScSn, BitVec.toNat_and]
  exact Nat.and_two_pow_sub_one_eq_mod _ 24

/-- The bits the sequence number has of the word. -/
theorem getLsbD_low : ∀ i < 32, (0x00ffffff : BitVec 32).getLsbD i = decide (i < 24) := by
  decide

/-- The bits the direction has of it. -/
theorem getLsbD_high : ∀ i < 32, (0xff000000 : BitVec 32).getLsbD i = decide (24 ≤ i) := by
  decide

/-- What is set as the sequence number is read modulo 2 ^ 24. -/
theorem toNat_getScSn_setScSn (h : SCHeader) (sn : BitVec 32) :
    (getScSn (setScSn h sn)).toNat = sn.toNat % 2 ^ 24 := by
  have hsn : getScSn (setScSn h sn) = sn &&& 0x00ffffff := by
    refine BitVec.eq_of_getLsbD_eq fun i hi => ?_
    unfold getScSn setScSn
    simp only [BitVec.getLsbD_and, BitVec.getLsbD_or, getLsbD_low i hi, getLsbD_high i hi]
    grind
  rw [hsn, BitVec.toNat_and]
  exact Nat.and_two_pow_sub_one_eq_mod _ 24

/-- Setting the sequence number leaves the direction. -/
theorem getScForward_setScSn (h : SCHeader) (sn : BitVec 32) :
    getScForward (setScSn h sn) = getScForward h := by
  change byte _ 3 = byte _ 3
  unfold byte setScSn
  ext i hi
  simp only [BitVec.getElem_extractLsb', BitVec.getLsbD_or, BitVec.getLsbD_and,
    getLsbD_low (8 * 3 + i) (by omega), getLsbD_high (8 * 3 + i) (by omega)]
  grind

/-- The direction is read as it was set. -/
theorem getScForward_setScForward (h : SCHeader) (forward : Byte) :
    getScForward (setScForward h forward) = forward := by
  unfold getScForward setScForward
  change (bytes32 (word32 _ _ _ forward)).getD 3 0 = forward
  rw [bytes32_word]
  rfl

namespace SC

variable (q : SC) (data : List Byte) (dataLength : Int) (sn : BitVec 32)

/-- The header of the next packet a sender makes. -/
def nextHeader (payloadLength : BitVec 16) : SCHeader :=
  setScSn { q.sendHeader with length := payloadLength } (getScSn q.sendHeader + 1)

theorem length_nextHeader (payloadLength : BitVec 16) :
    (q.nextHeader payloadLength).length = payloadLength := rfl

/-- The counter is increased as a word and then cut to 24 bits. -/
theorem getScSn_nextHeader (payloadLength : BitVec 16) :
    (getScSn (q.nextHeader payloadLength)).toNat =
      ((getScSn q.sendHeader).toNat + 1) % 2 ^ 24 := by
  have hone : (1 : BitVec 32).toNat = 1 := rfl
  rw [nextHeader, toNat_getScSn_setScSn, BitVec.toNat_add, toNat_getScSn, hone]
  omega

/-- Given room, a sender moves on to the next header and writes it. -/
theorem send_eq (payloadLength : BitVec 16) (buff : List Byte) (buffLength : Int)
    (hb : kSCHeadSize ≤ buffLength) :
    q.send payloadLength buff buffLength =
      ({ q with sendHeader := q.nextHeader payloadLength },
        (scCopyToNet (q.nextHeader payloadLength)).store ++ buff.drop kSCHeadSize,
        (kSCHeadSize : Int)) := by
  unfold send
  rw [if_neg (by omega)]
  rfl

/-- A sender numbers its packets on, and keeps everything else. -/
theorem send_of_room (payloadLength : BitVec 16) (buff : List Byte) (buffLength : Int)
    (hb : kSCHeadSize ≤ buffLength) :
    ∃ h, q.send payloadLength buff buffLength =
        ({ q with sendHeader := h }, (scCopyToNet h).store ++ buff.drop kSCHeadSize,
          (kSCHeadSize : Int)) ∧
      h.length = payloadLength ∧ getScForward h = getScForward q.sendHeader ∧
      (getScSn h).toNat = ((getScSn q.sendHeader).toNat + 1) % 2 ^ 24 :=
  ⟨q.nextHeader payloadLength, send_eq q payloadLength buff buffLength hb,
    length_nextHeader q payloadLength, getScForward_setScSn _ _,
    getScSn_nextHeader q payloadLength⟩

/-- The first packet of the right length is accepted and reported as zero. -/
theorem recv_first (h : SCHeader) (hd : scCopyFromNet (SCHeader.load data) = h)
    (hl : dataLength = kSCHeadSize + h.length.toNat) (hf : q.firstPack = true) :
    q.recv data dataLength sn =
      ({ q with firstPack := false, recvHeader := h }, (kSCHeadSize : Int), (0 : BitVec 32)) := by
  unfold recv
  simp only [hd]
  rw [if_neg (by omega), if_neg (not_not_intro hl), if_pos hf]

/-- A later packet of the right length and direction is accepted, and reported
    with the number of the header that was kept. -/
theorem recv_later (h : SCHeader) (hd : scCopyFromNet (SCHeader.load data) = h)
    (hl : dataLength = kSCHeadSize + h.length.toNat) (hf : q.firstPack = false)
    (hw : getScForward h = getScForward q.recvHeader) :
    q.recv data dataLength sn = (q, (kSCHeadSize : Int), getScSn q.recvHeader) := by
  unfold recv
  simp only [hd]
  rw [if_neg (by omega), if_neg (not_not_intro hl), if_neg (by rw [hf]; decide),
    if_neg (not_not_intro hw)]

/-- A packet is rejected, or it is as long as its header says and the header's
    length is returned. -/
theorem recv_cases :
    (q.recv data dataLength sn).2.1 = -1 ∨
      (q.recv data dataLength sn).2.1 = kSCHeadSize ∧
        dataLength = kSCHeadSize + (scCopyFromNet (SCHeader.load data)).length.toNat := by
  unfold recv
  simp only []
  split
  · exact Or.inl rfl
  · split
    · exact Or.inl rfl
    · rename_i hl
      -- The length is right, whichever packet this is.
      split
      · exact Or.inr ⟨rfl, not_not.mp hl⟩
      · split
        · exact Or.inl rfl
        · exact Or.inr ⟨rfl, not_not.mp hl⟩

/-- Nothing else of the packet matters. -/
theorem recv_take :
    q.recv (data.take (recvReach dataLength)) dataLength sn = q.recv data dataLength sn := by
  unfold recv recvReach
  by_cases hlen : dataLength < kSCHeadSize
  · rw [if_pos hlen, if_pos hlen]
  · have hload : SCHeader.load (data.take kSCHeadSize) = SCHeader.load data := by
      unfold SCHeader.load kSCHeadSize
      rw [load32_take _ _ _ (by omega), load32_take _ _ _ (by omega),
        load16_take _ _ _ (by omega), load16_take _ _ _ (by omega)]
    rw [if_neg hlen, if_neg hlen, if_neg hlen, hload]

end SC

end CodecChanger
