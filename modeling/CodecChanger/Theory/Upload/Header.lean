import CodecChanger.Core.Upload
import CodecChanger.Lib.Trace

/-!
# The UDP/IP Header of an Upload Packet

Whether the UDP/IP header that `Send` puts into a packet fits the packet. It is
to give the packet's length twice, as IP and as UDP count it, and the addresses
and ports of the session's parameters.

Neither is arranged for. `Send` tells the packer the length of the UDP/IP header
where the length of what follows it is meant. And nothing in the session calls
`SetIpPort`: the packer's addresses, its ports and the length of its IP header
are never assigned and stay what the memory of the session held when it was
made, through any number of packets. So the header fits exactly when what
follows it happens to be as long as itself, which makes a payload of 16 bytes,
and when the session's memory happened to hold the right values.

## Main definitions

* `transInfo`: The addresses and ports of the parameters, in host order.
* `Described`: The header in a packet fits the packet.
* `Untouched`: What no call changes.

## Theorems

* `untouched_call`: No call changes the parameters or what the packer holds.
* `described_iff`: The exact condition for the header to fit.
-/

namespace CodecChanger

open Bytes Trace

variable {χ : Type*}

namespace UploadSession

/-- The addresses and ports of the parameters, in host order, if both addresses
    are such. -/
def transInfo (param : SessionParam) : Option TransInfo :=
  match inetPton param.udpipSip, inetPton param.udpipDip with
  | some sip, some dip => some {
      srcIp := swap32 sip
      dstIp := swap32 dip
      srcPort := param.udpipSport
      dstPort := param.udpipDport }
  | _, _ => none

/-- After `Send`, the UDP/IP header in the output names the addresses and ports of
    the session's parameters, and fits what follows it, an RTP header and the
    payload the encoder made. -/
def Described (lib : CoderLib χ) (s : UploadSession χ) (input : List Byte) (len : Int)
    (out : Memory) (outputLen : Int) : Prop :=
  ∃ info, transInfo s.param = some info ∧
    Describes ((s.send lib input len out outputLen).2.1.read (udpOffset s.param) kUdpIpLen)
      (kRtpHeaderSize + (encoded lib s input len outputLen).2.ret.toNat) info

/-- The parameters are these, and the packer holds what it held. -/
def Untouched (param : SessionParam) (udp : UdpPacker) (s : UploadSession χ) : Prop :=
  s.param = param ∧ ∀ info, s.udp.Holds info ↔ udp.Holds info

/-- Packing one packet changes neither the parameters nor what the packer holds. -/
theorem untouched_packed (param : SessionParam) (udp : UdpPacker) (s s' : UploadSession χ)
    (out' : Memory) (hs : Untouched param udp s) (h : Packed s s' out') :
    Untouched param udp s' := by
  rcases h with ⟨hparam, hadd, hnot⟩
  refine ⟨hparam.trans hs.1, fun info => ?_⟩
  rw [← hs.2 info]
  cases hudp : s.param.ifAddUdpip with
  | true =>
      rw [(hadd hudp).1]
      exact UdpPacker.holds_generateHeader_iff s.udp kUdpIpLen info
  | false => rw [hnot hudp]

/-- No call changes the parameters or what the packer holds. -/
theorem untouched_call (lib : CoderLib χ) (param : SessionParam) (udp : UdpPacker)
    (s : UploadSession χ) (c : Call) (hs : Untouched param udp s) :
    Untouched param udp (s.call lib c) := by
  cases c with
  | unPak data len sc =>
      rcases unPak_kept s data len sc with ⟨hparam, hudp⟩
      unfold call Untouched
      simp only [hparam, hudp]
      exact hs
  | send input len out outputLen =>
      rcases send_cases lib s out input len outputLen with ⟨-, hparam, hudp⟩ | ⟨-, hpacked⟩
      · unfold call Untouched
        simp only [hparam, hudp]
        exact hs
      · exact untouched_packed param udp s _ _ hs hpacked

/-- A session is set up and makes any calls; then a `Send` succeeds. The header
    it puts into the packet fits exactly when the payload is 16 bytes long and
    the packer held the addresses and ports of the parameters, and a header
    length of five words, before the session was set up. -/
theorem described_iff (lib : CoderLib χ) (s₀ : UploadSession χ) (param : SessionParam)
    (env : Setup χ) (calls : List Call) (input : List Byte) (len : Int) (out : Memory)
    (outputLen : Int) (hadd : param.ifAddUdpip = true)
    (hsend : 0 ≤ ((run (call lib) (s₀.init param env).1 calls).send lib input len out
      outputLen).2.2) :
    Described lib (run (call lib) (s₀.init param env).1 calls) input len out outputLen ↔
      (encoded lib (run (call lib) (s₀.init param env).1 calls) input len outputLen).2.ret = 16 ∧
        ∃ info, transInfo param = some info ∧ s₀.udp.Holds info := by
  have hkept : Untouched param s₀.udp (run (call lib) (s₀.init param env).1 calls) := by
    rcases init_kept s₀ param env with ⟨hparam, hudp⟩
    refine run_invariant (call lib) (Untouched param s₀.udp) (untouched_call lib param s₀.udp)
      calls _ ⟨hparam, fun info => ?_⟩
    rw [hudp]
  generalize run (call lib) (s₀.init param env).1 calls = s at hkept hsend ⊢
  rcases send_cases lib s out input len outputLen with ⟨hfail, -⟩ | ⟨hret, -, hpacked, -⟩
  · rw [hfail] at hsend
    exact absurd hsend (by decide)
  · rw [← hkept.1] at hadd
    -- The lengths written are 56 and 36, whatever the payload.
    have htotal : (BitVec.ofInt 16 ((kUdpIpLen : Int) + kUdpIpLen)).toNat = 56 := by decide
    have hulen : (BitVec.ofInt 16 ((kUdpHeaderLen : Int) + kUdpIpLen)).toNat = 36 := by decide
    have hinfo : ∀ info, Describes
        ((s.send lib input len out outputLen).2.1.read (udpOffset s.param) kUdpIpLen)
        (kRtpHeaderSize + (encoded lib s input len outputLen).2.ret.toNat) info ↔
          (encoded lib s input len outputLen).2.ret = 16 ∧ s₀.udp.Holds info := by
      intro info
      rw [(hpacked hadd).2, UdpPacker.describes_generateHeader_iff, hkept.2, htotal, hulen]
      unfold kUdpIpLen kUdpHeaderLen kIpHeaderLen kRtpHeaderSize
      refine ⟨fun h => ⟨by omega, h.2.2⟩, fun h => ⟨by omega, by omega, h.2⟩⟩
    unfold Described
    simp only [hinfo]
    rw [hkept.1]
    constructor
    · rintro ⟨info, hi, h16, hholds⟩
      exact ⟨h16, info, hi, hholds⟩
    · rintro ⟨h16, info, hi, hholds⟩
      exact ⟨info, hi, h16, hholds⟩

/-- Coders that answer every call with as many zeros as their state says. -/
def zeros : CoderLib Nat where
  codec k _ _ _ := (k, { ret := k, written := List.replicate k 0 })

/-- Parameters with the UDP/IP header, from 10.0.0.1 to 10.0.0.2. -/
def loopParam : SessionParam where
  ueid := 1
  encoderType := .amrWb
  decoderType := .pcmA
  ifAddUdpip := true
  ifSendSc := true
  udpipSip := "10.0.0.1".toList
  udpipDip := "10.0.0.2".toList
  udpipSport := 5000
  udpipDport := 6000

/-- A session before it is set up, with this packer in its memory. -/
def raw (udp : UdpPacker) : UploadSession Nat where
  firstPack := true
  udp := udp
  scRecv := ⟨SCHeader.zero, SCHeader.zero, true⟩
  scSend := ⟨SCHeader.zero, SCHeader.zero, true⟩
  rtp := ⟨⟨0, 0, 0⟩, ⟨0, 0, 0, 0, 0, 0, 0, 0, 0⟩⟩
  param := loopParam
  encoder := 0
  decoder := 0

/-- A system that sets everything up, a decoder that makes one frame of PCM, and
    an encoder that makes `k` bytes. -/
def answers (k : Nat) : Setup Nat where
  sequenceNum := 0
  timestamp := 0
  ssrc := 0
  recvSocket := 0
  sendSocket := 0
  bind := 0
  encoder := k
  encoderInit := 0
  decoder := 320
  decoderInit := 0

/-- The packer that `SetIpPort` would have set up holds the right values, and then
    a payload of 16 bytes is described. -/
theorem described_iff_short :
    let s₀ := raw (UdpPacker.setIpPort ⟨Ip.zero, Udphdr.zero⟩ loopParam.udpipSip 5000
      loopParam.udpipDip 6000).1
    Described zeros (s₀.init loopParam (answers 16)).1 [0] 1 (fun _ => 0) 2048 :=
  (described_iff zeros _ loopParam (answers 16) [] [0] 1 (fun _ => 0) 2048 rfl
    (by decide +kernel)).mpr ⟨by decide +kernel, _, rfl, by decide +kernel⟩

/-- A session is set up, and sends one AMR-WB frame of 61 bytes: the header gives
    56 bytes for what is 101 bytes long. -/
theorem described_fails :
    let s₀ := raw ⟨Ip.zero, Udphdr.zero⟩
    let s := (s₀.init loopParam (answers 61)).1
    (s₀.init loopParam (answers 61)).2 = 0 ∧ (transInfo loopParam).isSome ∧
      (s.send zeros [0] 1 (fun _ => 0) 2048).2.2 = 113 ∧
      ¬ Described zeros s [0] 1 (fun _ => 0) 2048 := by
  refine ⟨rfl, by decide +kernel, by decide +kernel, ?_⟩
  rintro ⟨info, -, hd⟩
  exact absurd hd.total_eq (by decide +kernel)

end UploadSession

end CodecChanger
