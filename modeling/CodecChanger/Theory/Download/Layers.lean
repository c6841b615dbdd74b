import CodecChanger.Core.Download
import CodecChanger.Lib.Trace
import CodecChanger.Theory.Upload.Header
import CodecChanger.Theory.Upload.Packet

/-!
# From an Upload Session to a Download Session

`Recv` of a download session undoes `Send` of an upload session: with the same
options on both sides, the decoder of the one is called with exactly what the
encoder of the other made.

Each header is accepted by its parser whatever follows it, so the stages of
`Recv` are taken from the inside out. Of the sender it matters that its RTP
headers are plain and that its packer's IP headers, if it puts any out, are five
words long. Both hold once `Init` and `SetIpPort` have been called, and every call
keeps them.

## Main definitions

* `Plain`: What of the sender matters.
* `Fits`: A payload is not too long for the lengths that are written and passed.

## Theorems

* `plain_call`: Every call keeps a session plain.
* `handed_recvRtp`, `handed_recvUdpIp`, `handed_recv`: The stages of `Recv`, on
  what is left of a packet.
* `recv_send`: What is sent is received.
-/

namespace CodecChanger

open Bytes Trace

variable {χ : Type*}

/-- The parser takes an IP header of five words and the UDP header off what it is
    given, whatever follows. -/
theorem udpParser_of_hl (q : UdpPacker) (packLen len : Int) (rest : List Byte)
    (h : q.iphdr.hl = 5) (hlen : kUdpIpLen ≤ len) :
    (udpParser ((q.generateHeader packLen).2.1 ++ rest) len).1 = kUdpIpLen := by
  have hread := UdpPacker.udpParser_headers (q.generateHeader packLen).1.iphdr
    (q.generateHeader packLen).1.udphdr rest len h hlen
  exact congrArg Prod.fst hread

namespace UploadSession

/-- The RTP headers are plain, and the IP headers, if there are any, are five words
    long. -/
def Plain (s : UploadSession χ) : Prop :=
  s.rtp.Plain ∧ (s.param.ifAddUdpip = true → s.udp.iphdr.hl = 5)

/-- Whatever the addresses, `SetIpPort` sets the length of the IP header. -/
theorem hl_setIpPort (q : UdpPacker) (srcIp dstIp : List Char) (srcPort dstPort : BitVec 16) :
    (q.setIpPort srcIp srcPort dstIp dstPort).1.iphdr.hl = 5 := by
  unfold UdpPacker.setIpPort
  simp only []
  split
  · rfl
  · split
    · rfl
    · rfl

/-- A packer that `SetIpPort` has set up puts out IP headers of five words. -/
theorem hl_of_setIpPort (q u : UdpPacker) (srcIp dstIp : List Char)
    (srcPort dstPort : BitVec 16) (h : q.setIpPort srcIp srcPort dstIp dstPort = (u, 0)) :
    u.iphdr.hl = 5 := by
  have hl := hl_setIpPort q srcIp dstIp srcPort dstPort
  rw [h] at hl
  exact hl

theorem plain_packed (s : UploadSession χ) (pcmLen c : Int) (h : s.Plain) :
    (s.packed pcmLen c).Plain := by
  refine ⟨RtpSession.plain_generateRtpHeader s.rtp _ _ h.1, ?_⟩
  unfold packed
  simp only []
  split
  · exact h.2
  · exact h.2

/-- Every call keeps a session plain. -/
theorem plain_call (lib : CoderLib χ) (s : UploadSession χ) (c : Call) (h : s.Plain) :
    (s.call lib c).Plain := by
  cases c with
  | unPak data len sc =>
      unfold call unPak
      simp only []
      split_ifs <;> exact h
  | send input len out outputLen =>
      exact send_keeps lib s out Plain (fun _ _ _ hs => hs) (fun s _ _ hs => plain_packed s _ _ hs)
        input len outputLen h

/-- The parameters are those there were. -/
theorem param_call (lib : CoderLib χ) (s : UploadSession χ) (c : Call) :
    (s.call lib c).param = s.param := by
  cases c with
  | unPak data len sc => exact (unPak_kept s data len sc).1
  | send input len out outputLen =>
      exact send_keeps lib s out (fun s' => s'.param = s.param) (fun _ _ _ hs => hs)
        (fun _ _ _ hs => hs) input len outputLen rfl

/-- A payload of `c` bytes is not too long: the packet's length is an `int`, and
    with an SC header what follows that can be told in sixteen bits. -/
structure Fits (s : UploadSession χ) (c : Int) : Prop where
  length_lt : (head s c).length + c < 2 ^ 31
  told_lt : s.param.ifSendSc = true → scLength s c < 2 ^ 16

end UploadSession

namespace DownloadSession

open UploadSession

variable {ψ : Type*} (lib : CoderLib ψ) (t : DownloadSession ψ) (s : UploadSession χ)
  (outputLength : Int)

/-- The RTP header is taken off, and the payload decoded. -/
theorem handed_recvRtp (data payload : List Byte) (k : Nat) (n : Int) (h : s.Plain)
    (hdata : data.drop k = rtpHead s ++ payload) (hn : n = kRtpHeaderSize + payload.length)
    (hlt : n < 2 ^ 31) :
    (t.recvRtp lib data k n outputLength).2.handed = some (payload, (payload.length : Int)) := by
  have hroom : kRtpHeaderSize ≤ (BitVec.ofInt 32 n).toNat := by
    rw [BitVec.toNat_ofInt]
    omega
  have hdecode : RtpSession.decodeRtpHeader (rtpHead s ++ payload) (BitVec.ofInt 32 n) =
      ((kRtpHeaderSize : Int), s.rtp.sendHeader.store ++ payload,
        some (s.rtp.sendHeader.sequenceNum.setWidth 32, s.rtp.sendHeader.timestamp)) :=
    RtpSession.decodeRtpHeader_of_plain s.rtp 0 payload _ h.1 hroom
  have hdrop : (s.rtp.sendHeader.store ++ payload).drop kRtpHeaderSize = payload :=
    List.drop_left' (RtpHeader.length_store _)
  have hrest : n - (kRtpHeaderSize : Int) = payload.length := by omega
  unfold recvRtp
  simp only [hdata, hdecode]
  rw [if_neg (by omega)]
  simp only [Int.toNat_natCast, hdrop, hrest]

/-- The UDP/IP header is taken off. -/
theorem handed_recvUdpIp (data payload : List Byte) (k : Nat) (n : Int) (h : s.Plain)
    (hadd : t.param.ifAddUdpip = s.param.ifAddUdpip)
    (hdata : data.drop k = udpIpHead s ++ (rtpHead s ++ payload))
    (hn : n = (udpIpHead s).length + (kRtpHeaderSize + payload.length)) (hlt : n < 2 ^ 31) :
    (t.recvUdpIp lib data k n outputLength).2.handed =
      some (payload, (payload.length : Int)) := by
  unfold recvUdpIp
  rw [hadd]
  by_cases hudp : s.param.ifAddUdpip = true
  · have hhead : udpIpHead s = (s.udp.generateHeader kUdpIpLen).2.1 := if_pos hudp
    have hlen : (udpIpHead s).length = kUdpIpLen := by rw [length_udpIpHead, if_pos hudp]
    have hret : (udpParser (data.drop k) n).1 = kUdpIpLen := by
      rw [hdata, hhead]
      exact udpParser_of_hl s.udp kUdpIpLen n _ (h.2 hudp) (by omega)
    rw [if_pos hudp, hret]
    simp only []
    rw [if_neg (by omega), Int.toNat_natCast]
    refine handed_recvRtp lib t s outputLength data payload _ _ h ?_ (by omega) (by omega)
    rw [← List.drop_drop, hdata, List.drop_left' hlen]
  · have hnil : udpIpHead s = [] := if_neg hudp
    rw [hnil, List.nil_append] at hdata
    rw [hnil, List.length_nil, Nat.cast_zero, zero_add] at hn
    rw [if_neg hudp]
    exact handed_recvRtp lib t s outputLength data payload k n h hdata hn hlt

/-- A whole packet is taken apart. -/
theorem handed_recv (payload : List Byte) (h : s.Plain)
    (hsc : t.param.ifSendSc = s.param.ifSendSc) (hadd : t.param.ifAddUdpip = s.param.ifAddUdpip)
    (hfirst : t.scRecv.firstPack = true) (hfits : Fits s payload.length) :
    (t.recv lib (head s payload.length ++ payload)
        ((head s payload.length).length + payload.length) outputLength).2.handed =
      some (payload, (payload.length : Int)) := by
  have hlt := hfits.length_lt
  have hlen : (head s payload.length).length =
      (scHead s (scLength s payload.length)).length + (udpIpHead s).length + kRtpHeaderSize := by
    unfold head
    rw [List.length_append, List.length_append]
    rfl
  have hhead : head s payload.length ++ payload =
      scHead s (scLength s payload.length) ++ (udpIpHead s ++ (rtpHead s ++ payload)) := by
    unfold head
    rw [List.append_assoc, List.append_assoc]
  rw [hlen] at hlt ⊢
  unfold recv
  rw [hsc]
  by_cases hs : s.param.ifSendSc = true
  · -- The length in the header is that of what follows it.
    have htold := hfits.told_lt hs
    have hnext : scHead s (scLength s payload.length) = (scCopyToNet (s.scSend.nextHeader
        (BitVec.ofInt 16 (scLength s payload.length)))).store := if_pos hs
    have hsize : (scHead s (scLength s payload.length)).length = kSCHeadSize := by
      rw [hnext]
      exact length_store _
    have hload : scCopyFromNet (SCHeader.load (head s payload.length ++ payload)) =
        s.scSend.nextHeader (BitVec.ofInt 16 (scLength s payload.length)) := by
      rw [hhead, hnext, load_store, scCopyFromNet_scCopyToNet]
    have hlength : (s.scSend.nextHeader (BitVec.ofInt 16 (scLength s payload.length))).length =
        BitVec.ofInt 16 (scLength s payload.length) := rfl
    have htold' : ((BitVec.ofInt 16 (scLength s payload.length)).toNat : Int) =
        scLength s payload.length := by
      unfold scLength at htold ⊢
      rw [BitVec.toNat_ofInt]
      omega
    rw [if_pos hs, SC.recv_first t.scRecv _ _ _ _ hload (by
      rw [hlength, htold', hsize]
      unfold scLength
      push_cast
      omega) hfirst]
    simp only []
    rw [if_neg (by omega)]
    refine handed_recvUdpIp lib _ s outputLength _ payload kSCHeadSize _ h hadd ?_
      (by push_cast; omega) (by omega)
    rw [hhead, List.drop_left' hsize]
  · have hnil : scHead s (scLength s payload.length) = [] := if_neg hs
    rw [if_neg hs, hhead, hnil, List.nil_append]
    rw [hnil, List.length_nil] at hlt
    exact handed_recvUdpIp lib t s outputLength _ payload 0 _ h hadd rfl
      (by simp only [List.length_nil]; push_cast; omega)
      (by simp only [List.length_nil]; push_cast; omega)

/-- What is sent is received. A sender whose RTP session was set up by `Init` and
    whose packer by `SetIpPort` makes any calls; then it sends a packet. A receiver
    with the same options that has had no packet yet calls its decoder with what the
    encoder made, no more and no less. -/
theorem recv_send (lib : CoderLib χ) (lib' : CoderLib ψ) (s₀ s : UploadSession χ)
    (t : DownloadSession ψ) (calls : List Call) (input : List Byte) (len : Int) (out : Memory)
    (outputLen outputLength : Int) (q : RtpSession) (param : MediaParam)
    (sequenceNum : BitVec 16) (timestamp ssrc : BitVec 32) (u : UdpPacker)
    (srcIp dstIp : List Char) (srcPort dstPort : BitVec 16)
    (hrtp : s₀.rtp = q.init param sequenceNum timestamp ssrc)
    (hudp : u.setIpPort srcIp srcPort dstIp dstPort = (s₀.udp, 0))
    (hrun : run (call lib) s₀ calls = s)
    (hsc : t.param.ifSendSc = s₀.param.ifSendSc)
    (hadd : t.param.ifAddUdpip = s₀.param.ifAddUdpip)
    (hfirst : t.scRecv.firstPack = true)
    (hsend : 0 ≤ (s.send lib input len out outputLen).2.2)
    (henc : (encoded lib s input len outputLen).2.ret =
      (encoded lib s input len outputLen).2.written.length)
    (hfits : Fits s (encoded lib s input len outputLen).2.ret) :
    (t.recv lib' ((s.send lib input len out outputLen).2.1.read 0
        (s.send lib input len out outputLen).2.2.toNat)
        (s.send lib input len out outputLen).2.2 outputLength).2.handed =
      some ((encoded lib s input len outputLen).2.written,
        (encoded lib s input len outputLen).2.ret) := by
  have hstart : s₀.Plain := by
    refine ⟨?_, ?_⟩
    · rw [hrtp]
      exact RtpSession.plain_init q param sequenceNum timestamp ssrc
    · exact fun _ => hl_of_setIpPort u s₀.udp srcIp dstIp srcPort dstPort hudp
  have hplain : s.Plain := by
    rw [← hrun]
    exact run_invariant (call lib) Plain (plain_call lib) calls s₀ hstart
  have hparam : s.param = s₀.param := by
    rw [← hrun]
    exact run_invariant (call lib) (fun s => s.param = s₀.param)
      (fun s c h => (param_call lib s c).trans h) calls s₀ rfl
  rw [← hparam] at hsc hadd
  -- The output is the headers and the payload, and its length theirs.
  rw [send_of_packs lib s out input len outputLen ((send_nonneg_iff lib s out _ _ _).mp hsend)]
  simp only [henc] at hfits ⊢
  generalize (encoded lib s input len outputLen).2.written = payload at hfits ⊢
  have htoNat : (((head s payload.length).length : Int) + payload.length).toNat =
      (head s payload.length ++ payload).length := by
    rw [List.length_append]
    omega
  rw [htoNat, Memory.read_store_self]
  exact handed_recv lib' t s outputLength payload hplain hsc hadd hfirst hfits

/-- A receiver that has had no packet yet. -/
def listener (param : SessionParam) : DownloadSession Nat where
  scRecv := ⟨SCHeader.zero, SCHeader.zero, true⟩
  scSend := ⟨SCHeader.zero, SCHeader.zero, true⟩
  param := param
  encoder := 0
  decoder := 0

/-- One AMR-WB frame of 61 bytes goes over, with all three headers. -/
theorem recv_send_frame :
    let s := ((raw (UdpPacker.setIpPort ⟨Ip.zero, Udphdr.zero⟩ loopParam.udpipSip 5000
      loopParam.udpipDip 6000).1).init loopParam (answers 61)).1
    ((listener loopParam).recv zeros
      ((s.send zeros [0] 1 (fun _ => 0) 2048).2.1.read 0
        (s.send zeros [0] 1 (fun _ => 0) 2048).2.2.toNat)
      (s.send zeros [0] 1 (fun _ => 0) 2048).2.2 65536).2.handed =
        some (List.replicate 61 0, 61) :=
  recv_send zeros zeros _ _ (listener loopParam) [] [0] 1 (fun _ => 0) 2048 65536
    ⟨⟨0, 0, 0⟩, ⟨0, 0, 0, 0, 0, 0, 0, 0, 0⟩⟩ (generateDefaultParam .amrWb) 0 0 0
    ⟨Ip.zero, Udphdr.zero⟩ loopParam.udpipSip loopParam.udpipDip 5000 6000 rfl
    (by decide +kernel) rfl rfl rfl rfl (by decide +kernel) (by decide +kernel)
    ⟨by decide +kernel, by decide +kernel⟩

end DownloadSession

end CodecChanger
