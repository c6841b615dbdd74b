import CodecChanger.Theory.Upload.Packet

/-!
# The Numbers of Upload Packets

Four counters move on with the packets of an upload session: the sequence number
and the timestamp of RTP, the identification of IP and the number of SC. `Send`
can fail in seven places. Those that can be reached come before any counter has
moved, so a failure leaves no gap, and in a run of calls the numbers in the
packets that are made follow one another as if the failures had not been.

## Main definitions

* `sequenceNumAt`, `timestampAt`, `ipIdAt`, `scSnAt`: The numbers in a packet.
* `SendCall`: What `Send` is called with.
* `sents`: The calls of a run that succeed.
* `Still`: The counters of two states are the same.
* `Numbered`: The numbers in a packet are those of its place.

## Theorems

* `read_head`: The headers are read back from the output.
* `still_of_failure`: A call that fails moves no counter.
* `numbered_head`: The packet made in a state carries the state's numbers.
* `numbered_packed`: One packet later the place is one further on.
* `numbered_send`: Both, for a call.
* `numbered_sents`: The numbers in the packets of a run.
* `numbering`: There are no gaps across failures.
-/

namespace CodecChanger

open Bytes

variable {χ : Type*}

namespace UploadSession

/-- The RTP sequence number of the packet in the output. -/
def sequenceNumAt (param : SessionParam) (out : Memory) : BitVec 16 :=
  swap16 (load16 (out.read (rtpOffset param) kRtpHeaderSize) 2)

/-- The RTP timestamp. -/
def timestampAt (param : SessionParam) (out : Memory) : BitVec 32 :=
  swap32 (load32 (out.read (rtpOffset param) kRtpHeaderSize) 4)

/-- The IP identification. -/
def ipIdAt (param : SessionParam) (out : Memory) : BitVec 16 :=
  swap16 (load16 (out.read (udpOffset param) kUdpIpLen) 4)

/-- The SC sequence number. -/
def scSnAt (out : Memory) : BitVec 32 :=
  getScSn (scCopyFromNet (SCHeader.load (out.read 0 kSCHeadSize)))

/-- What `Send` is called with. -/
structure SendCall where
  input : List Byte
  len : Int
  out : Memory
  outputLen : Int

/-- The state after a call. -/
def afterSend (lib : CoderLib χ) (s : UploadSession χ) (c : SendCall) : UploadSession χ :=
  (s.send lib c.input c.len c.out c.outputLen).1

/-- What a call returns. -/
def retSend (lib : CoderLib χ) (s : UploadSession χ) (c : SendCall) : Int :=
  (s.send lib c.input c.len c.out c.outputLen).2.2

/-- The number of PCM frames the decoder makes for a call. -/
def framesSend (lib : CoderLib χ) (s : UploadSession χ) (c : SendCall) : Nat :=
  ((decoded lib s c.input c.len).2.ret / kPcmFrameLength).toNat

/-- The calls of a run that do not return -1: for each the output it leaves and
    the number of frames it sends. -/
def sents (lib : CoderLib χ) (s : UploadSession χ) : List SendCall → List (Memory × Nat)
  | [] => []
  | c :: l =>
      if retSend lib s c = -1 then sents lib (afterSend lib s c) l
      else ((s.send lib c.input c.len c.out c.outputLen).2.1, framesSend lib s c) ::
        sents lib (afterSend lib s c) l

/-- The four counters are the same, and so is what they are advanced by. -/
structure Still (s s' : UploadSession χ) : Prop where
  param_eq : s'.param = s.param
  rtp_eq : s'.rtp = s.rtp
  ipId_eq : s'.udp.iphdr.id = s.udp.iphdr.id
  scSn_eq : getScSn s'.scSend.sendHeader = getScSn s.scSend.sendHeader

/-- The packet in the output is number `i`, from zero, of those that are made from
    the session's state on, and `frames` frames went before it. -/
structure Numbered (s : UploadSession χ) (i frames : Nat) (out : Memory) : Prop where
  sequenceNum_eq : (sequenceNumAt s.param out).toNat =
    (s.rtp.sendHeader.sequenceNum.toNat + i) % 2 ^ 16
  timestamp_eq : (timestampAt s.param out).toNat =
    (s.rtp.sendHeader.timestamp.toNat + s.rtp.param.samplesPreFrames.toNat * frames) % 2 ^ 32
  ipId_eq : s.param.ifAddUdpip = true →
    (ipIdAt s.param out).toNat = ((swap16 s.udp.iphdr.id).toNat + (i + 1)) % 2 ^ 16
  scSn_eq : s.param.ifSendSc = true →
    (scSnAt out).toNat = ((getScSn s.scSend.sendHeader).toNat + (i + 1)) % 2 ^ 24

variable (lib : CoderLib χ) (s s' : UploadSession χ) (out : Memory)

/-- The headers are read back from the output. -/
theorem read_head (c : Int) (payload : List Byte) :
    (out.store 0 (head s c ++ payload)).read 0 (udpOffset s.param) = scHead s (scLength s c) ∧
      (out.store 0 (head s c ++ payload)).read (udpOffset s.param) (udpIpHead s).length =
        udpIpHead s ∧
      (out.store 0 (head s c ++ payload)).read (rtpOffset s.param) kRtpHeaderSize =
        rtpHead s := by
  have hsc := length_scHead s (scLength s c)
  have hhead := length_head s c
  have hudp : (scHead s (scLength s c) ++ udpIpHead s).length = rtpOffset s.param := by
    rw [List.length_append, hsc, length_udpIpHead]
    rfl
  have hsplit : udpOffset s.param + (udpIpHead s).length = rtpOffset s.param := by
    rw [← hudp, List.length_append, hsc]
  refine ⟨?_, ?_, ?_⟩
  · have hread := Memory.read_store_part out 0 0 (udpOffset s.param) (head s c ++ payload) (by
      rw [List.length_append]
      omega)
    rw [Nat.zero_add, List.drop_zero] at hread
    rw [hread, head, List.append_assoc, List.append_assoc]
    exact List.take_left' hsc
  · have hread := Memory.read_store_part out 0 (udpOffset s.param) (udpIpHead s).length
      (head s c ++ payload) (by
        rw [List.length_append]
        omega)
    rw [Nat.zero_add] at hread
    rw [hread, head, List.append_assoc, List.append_assoc, List.drop_left' hsc]
    exact List.take_left' rfl
  · have hread := Memory.read_store_part out 0 (rtpOffset s.param) kRtpHeaderSize
      (head s c ++ payload) (by
        rw [List.length_append]
        omega)
    rw [Nat.zero_add] at hread
    rw [hread, head, List.append_assoc, List.drop_left' hudp]
    exact List.take_left' rfl

/-- A call that fails moves no counter. -/
theorem still_of_failure (c : SendCall) (h : retSend lib s c = -1) :
    Still s (afterSend lib s c) := by
  have hpacks : ¬ Packs lib s c.input c.len c.outputLen := by
    rw [← send_nonneg_iff lib s c.out]
    unfold retSend at h
    omega
  rcases (send_of_not_packs lib s c.out c.input c.len c.outputLen hpacks).2 with
    ⟨decoder, encoder, hs⟩
  unfold afterSend
  rw [hs]
  exact ⟨rfl, rfl, rfl, rfl⟩

/-- The numbers do not depend on anything else. -/
theorem numbered_of_still (i frames : Nat) (h : Still s s') (hn : Numbered s' i frames out) :
    Numbered s i frames out := by
  rcases hn with ⟨hseq, hts, hid, hsn⟩
  rw [h.param_eq, h.rtp_eq] at hseq hts
  rw [h.param_eq, h.ipId_eq] at hid
  rw [h.param_eq, h.scSn_eq] at hsn
  exact ⟨hseq, hts, hid, hsn⟩

/-- The packet that is made in a state carries the next numbers of the state. -/
theorem numbered_head (c : Int) (payload : List Byte) :
    Numbered s 0 0 (out.store 0 (head s c ++ payload)) := by
  rcases read_head s out c payload with ⟨hsc, hudp, hrtp⟩
  refine ⟨?_, ?_, fun hadd => ?_, fun hs => ?_⟩
  · have hload : load16 (rtpHead s) 2 = swap16 s.rtp.sendHeader.sequenceNum := word16_bytes _
    rw [sequenceNumAt, hrtp, hload, swap16_swap16, Nat.add_zero, Nat.mod_eq_of_lt (BitVec.isLt _)]
  · have hload : load32 (rtpHead s) 4 = swap32 s.rtp.sendHeader.timestamp := word32_bytes _
    rw [timestampAt, hrtp, hload, swap32_swap32, Nat.mul_zero, Nat.add_zero,
      Nat.mod_eq_of_lt (BitVec.isLt _)]
  · have hhead : udpIpHead s = (s.udp.generateHeader kUdpIpLen).2.1 := if_pos hadd
    have hlen : (udpIpHead s).length = kUdpIpLen := by rw [length_udpIpHead, if_pos hadd]
    have hload : load16 (udpIpHead s) 4 = swap16 (swap16 s.udp.iphdr.id + 1) := by
      rw [hhead]
      exact word16_bytes _
    rw [hlen] at hudp
    rw [ipIdAt, hudp, hload, swap16_swap16, BitVec.toNat_add]
    rfl
  · have hhead : scHead s (scLength s c) = (scCopyToNet (s.scSend.nextHeader
        (BitVec.ofInt 16 (scLength s c)))).store := if_pos hs
    have hoffset : udpOffset s.param = kSCHeadSize := if_pos hs
    have hload := load_store (scCopyToNet (s.scSend.nextHeader
      (BitVec.ofInt 16 (scLength s c)))) []
    rw [List.append_nil] at hload
    rw [hoffset] at hsc
    rw [scSnAt, hsc, hhead, hload, scCopyFromNet_scCopyToNet, SC.getScSn_nextHeader]

/-- One packet later the place is one further on. -/
theorem numbered_packed (pcmLen c : Int) (i frames : Nat) (hpcm : 0 ≤ pcmLen)
    (h : Numbered (packed s pcmLen c) i frames out) :
    Numbered s (i + 1) ((pcmLen / kPcmFrameLength).toNat + frames) out := by
  have hone : (1 : BitVec 16).toNat = 1 := rfl
  refine ⟨?_, ?_, fun hadd => ?_, fun hsc => ?_⟩
  · have hnext : (packed s pcmLen c).rtp.sendHeader.sequenceNum =
        s.rtp.sendHeader.sequenceNum + 1 := rfl
    have heq := h.sequenceNum_eq
    rw [hnext, BitVec.toNat_add, hone] at heq
    rw [show s.param = (packed s pcmLen c).param from rfl, heq]
    omega
  · have hnext : (packed s pcmLen c).rtp.sendHeader.timestamp = s.rtp.sendHeader.timestamp +
        BitVec.ofInt 32 (pcmLen / kPcmFrameLength) * s.rtp.param.samplesPreFrames := rfl
    have hparam : (packed s pcmLen c).rtp.param = s.rtp.param := rfl
    have hframes : (BitVec.ofInt 32 (pcmLen / kPcmFrameLength)).toNat =
        (pcmLen / kPcmFrameLength).toNat % 2 ^ 32 := by
      unfold kPcmFrameLength
      rw [BitVec.toNat_ofInt]
      omega
    have heq := h.timestamp_eq
    rw [hnext, hparam, BitVec.toNat_add, BitVec.toNat_mul, hframes] at heq
    rw [show s.param = (packed s pcmLen c).param from rfl, heq, Nat.mul_add, ← Nat.add_assoc,
      Nat.mul_comm s.rtp.param.samplesPreFrames.toNat (pcmLen / kPcmFrameLength).toNat]
    simp only [Nat.add_mod, Nat.mul_mod, Nat.mod_mod]
  · have hnext : swap16 (packed s pcmLen c).udp.iphdr.id = swap16 s.udp.iphdr.id + 1 := by
      have hudp : (packed s pcmLen c).udp = (s.udp.generateHeader kUdpIpLen).1 := if_pos hadd
      rw [hudp]
      exact swap16_swap16 _
    have heq := h.ipId_eq hadd
    rw [hnext, BitVec.toNat_add, hone] at heq
    rw [show s.param = (packed s pcmLen c).param from rfl, heq]
    omega
  · have hnext : (packed s pcmLen c).scSend.sendHeader =
        s.scSend.nextHeader (BitVec.ofInt 16 (scLength s c)) := by
      have hsend : (packed s pcmLen c).scSend = { s.scSend with
          sendHeader := s.scSend.nextHeader (BitVec.ofInt 16 (scLength s c)) } := if_pos hsc
      rw [hsend]
    have heq := h.scSn_eq hsc
    rw [hnext, SC.getScSn_nextHeader] at heq
    rw [heq]
    omega

/-- The packet of a call that succeeds carries the next numbers of the state, and
    what is numbered from the state after it is one further on from the state
    before. -/
theorem numbered_send (c : SendCall) (h : retSend lib s c ≠ -1) :
    Numbered s 0 0 (s.send lib c.input c.len c.out c.outputLen).2.1 ∧
      ∀ i frames, Numbered (afterSend lib s c) i frames out →
        Numbered s (i + 1) (framesSend lib s c + frames) out := by
  have hpacks : Packs lib s c.input c.len c.outputLen := by
    by_contra hpacks
    exact h (send_of_not_packs lib s c.out c.input c.len c.outputLen hpacks).1
  unfold afterSend framesSend
  rw [send_of_packs lib s c.out c.input c.len c.outputLen hpacks]
  refine ⟨numbered_head s c.out _ _, fun i frames hn => ?_⟩
  have hnext := numbered_packed _ out _ _ i frames hpacks.1 hn
  exact ⟨hnext.sequenceNum_eq, hnext.timestamp_eq, hnext.ipId_eq, hnext.scSn_eq⟩

/-- The numbers in the packets of a run are those of their places, whatever calls
    fail in between. -/
theorem numbered_sents (l : List SendCall) (i frames : Nat)
    (h : (sents lib s l)[i]? = some (out, frames)) :
    Numbered s i (((sents lib s l).take i).map Prod.snd).sum out := by
  induction l generalizing s i with
  | nil => exact absurd h (by simp only [sents, List.getElem?_nil, reduceCtorEq, not_false_eq_true])
  | cons c l ih =>
      unfold sents at h ⊢
      by_cases hret : retSend lib s c = -1
      · rw [if_pos hret] at h ⊢
        exact numbered_of_still s _ out i _ (still_of_failure lib s c hret) (ih _ i h)
      · rw [if_neg hret] at h ⊢
        cases i with
        | zero =>
            rw [List.getElem?_cons_zero, Option.some.injEq, Prod.mk.injEq] at h
            rw [← h.1]
            exact (numbered_send lib s out c hret).1
        | succ i =>
            -- The rest of the run is numbered from the state after the call.
            rw [List.getElem?_cons_succ] at h
            rw [List.take_succ_cons, List.map_cons, List.sum_cons]
            exact (numbered_send lib s out c hret).2 i _ (ih _ i h)

/-- A call that returns -1 moves no counter, and the packets of a run of calls are
    numbered one after the other. -/
theorem numbering (l : List SendCall) :
    (∀ s : UploadSession χ, ∀ c, retSend lib s c = -1 → Still s (afterSend lib s c)) ∧
      ∀ i out frames, (sents lib s l)[i]? = some (out, frames) →
        Numbered s i (((sents lib s l).take i).map Prod.snd).sum out :=
  ⟨fun s c h => still_of_failure lib s c h,
    fun i out frames h => numbered_sents lib s out l i frames h⟩

end UploadSession

end CodecChanger
