import CodecChanger.Core.RateConverter
import CodecChanger.Core.Rtp
import CodecChanger.Core.Sc
import CodecChanger.Core.UdpPacker

/-!
# The Upload Session

`UploadSession` of `session.h` and `session.cpp`, as far as it makes packets:
`Init`, `UnPak`, which takes the SC header off a packet that comes in, and
`Send`, which decodes the payload, encodes it anew and puts the headers in front
of it, the innermost first.

The coders are a parameter, given by their calls: each has a state, and a call
returns a length and writes bytes to the output. Whether sockets and coders can
be set up is up to the system, and `Init` is given its answers. The sockets are
not part of the model.

## Main definitions

* `Coded`, `CoderLib`: The coders.
* `SessionParam`: The parameters of a session.
* `UploadSession`: The session's members.
* `Setup`: What the system answers to `Init`.
* `init`, `unPak`, `send`: The session's calls.
* `Call`, `call`: `unPak` and `send` in any order.
* `Packed`: What a packet leaves of the packer and in the output.

## Theorems

* `init_kept`, `unPak_kept`: What leaves the packer alone.
* `sendSc_kept`, `sendUdpIp_packed`, `sendRtp_packed`: The stages of `send`.
* `send_cases`: A `send` fails, or packs one packet.
-/

namespace CodecChanger

open Bytes

/-- What a call of `Coder::Codec` returned, and the bytes it wrote to its
    output. -/
structure Coded where
  ret : Int
  written : List Byte
  deriving DecidableEq, Repr

/-- The coders: `Codec` from a coder's state, the input with its length, and the
    length of the output. -/
structure CoderLib (χ : Type*) where
  codec : χ → List Byte → Int → Int → χ × Coded

/-- `SessionParam`, without what the sockets use. The addresses are the texts in
    their arrays. -/
structure SessionParam where
  ueid : BitVec 32
  encoderType : CodecType
  decoderType : CodecType
  ifAddUdpip : Bool
  ifSendSc : Bool
  udpipSip : List Char
  udpipDip : List Char
  udpipSport : BitVec 16
  udpipDport : BitVec 16
  deriving DecidableEq, Repr

/-- `UploadSession`, without the sorter and the sockets. -/
structure UploadSession (χ : Type*) where
  firstPack : Bool
  udp : UdpPacker
  scRecv : SC
  scSend : SC
  rtp : RtpSession
  param : SessionParam
  encoder : χ
  decoder : χ

/-- What the system answers to `Init`: the random numbers of the RTP session,
    the return values of the socket calls, and the coders with the return values
    of their `Init`. -/
structure Setup (χ : Type*) where
  sequenceNum : BitVec 16
  timestamp : BitVec 32
  ssrc : BitVec 32
  recvSocket : Int
  sendSocket : Int
  bind : Int
  encoder : χ
  encoderInit : Int
  decoder : χ
  decoderInit : Int

variable {χ : Type*}

namespace UploadSession

/-- The size of the buffer for the decoder's output. -/
def kBuffSize : Nat := 2048

/-- `Init`. -/
def init (s : UploadSession χ) (param : SessionParam) (env : Setup χ) : UploadSession χ × Int :=
  let s := { s with
    param := param
    firstPack := true
    rtp := s.rtp.init (generateDefaultParam param.encoderType) env.sequenceNum env.timestamp
      env.ssrc
    scRecv := s.scRecv.init param.ueid .to4G 0 }
  -- From here on every failure leaves the session as far as it was set up.
  if env.recvSocket ≠ 0 ∨ env.sendSocket ≠ 0 then (s, -1)
  else if env.bind ≠ 0 then (s, -1)
  else if param.encoderType = .err then (s, -1)
  else
    let s := { s with encoder := env.encoder }
    if param.decoderType = .err then (s, -1)
    else
      let s := { s with decoder := env.decoder }
      if env.encoderInit ≠ 0 then (s, -1)
      else if env.decoderInit ≠ 0 then (s, -1)
      else (s, 0)

/-- `UnPak`: the new state, the value returned and the output parameter, which
    came in as `sc`. -/
def unPak (s : UploadSession χ) (data : List Byte) (len : Int) (sc : BitVec 32) :
    UploadSession χ × Int × BitVec 32 :=
  let (scRecv, status, sc) := s.scRecv.recv data len sc
  let s := { s with scRecv := scRecv }
  -- The sender is set up by the first call, before the status is looked at.
  let s := if s.firstPack then
      { s with
        firstPack := false
        scSend := s.scSend.init scRecv.recvHeader.ueid .to4G (getScSn scRecv.recvHeader) }
    else s
  if status < 0 then (s, -1, sc) else (s, status, sc)

/-- Where the UDP/IP header goes: behind the SC header. -/
def udpOffset (param : SessionParam) : Nat := if param.ifSendSc then kSCHeadSize else 0

/-- Where the RTP header goes: behind both. -/
def rtpOffset (param : SessionParam) : Nat :=
  udpOffset param + if param.ifAddUdpip then kUdpIpLen else 0

/-- `Send`, from the SC header on: `len` bytes are packed. -/
def sendSc (s : UploadSession χ) (out : Memory) (len : Int) : UploadSession χ × Memory × Int :=
  if s.param.ifSendSc then
    let (sc, head, scLen) := s.scSend.send (BitVec.ofInt 16 len) (out.read 0 kSCHeadSize)
      kSCHeadSize
    let s := { s with scSend := sc }
    let out := out.store 0 head
    if scLen < 0 then (s, out, -1) else (s, out, len + scLen)
  else (s, out, len)

/-- `Send`, from the UDP/IP header on. -/
def sendUdpIp (s : UploadSession χ) (out : Memory) (len : Int) :
    UploadSession χ × Memory × Int :=
  if s.param.ifAddUdpip then
    -- The header is told its own length for that of the packet.
    let (udp, head, udpLen) := s.udp.generateHeader kUdpIpLen
    let s := { s with udp := udp }
    let out := out.store (udpOffset s.param) head
    if udpLen < 0 then (s, out, -1) else sendSc s out (len + udpLen)
  else sendSc s out len

/-- `Send`, from the RTP header on: `inputLen` bytes of PCM are encoded to
    `codecLen`. -/
def sendRtp (s : UploadSession χ) (out : Memory) (inputLen codecLen : Int) :
    UploadSession χ × Memory × Int :=
  let (rtp, head, rtpLen) := s.rtp.generateRtpHeader kRtpHeaderSize (inputLen / kPcmFrameLength)
  let s := { s with rtp := rtp }
  let out := out.store (rtpOffset s.param) head
  if rtpLen < 0 then (s, out, -1) else sendUdpIp s out (codecLen + rtpLen)

/-- The PCM the decoder makes of the input. -/
def decoded (lib : CoderLib χ) (s : UploadSession χ) (input : List Byte) (len : Int) :
    χ × Coded :=
  lib.codec s.decoder input len kBuffSize

/-- The payload the encoder makes of that. The decoder's output is a buffer of
    zeros before. -/
def encoded (lib : CoderLib χ) (s : UploadSession χ) (input : List Byte) (len outputLen : Int) :
    χ × Coded :=
  let d := (decoded lib s input len).2
  let pcm := d.written ++ (List.replicate kBuffSize 0).drop d.written.length
  lib.codec s.encoder pcm d.ret (outputLen - rtpOffset s.param - kRtpHeaderSize)

/-- `Send`: the new state, the memory at `output` and the value returned. The
    `int len = 0` inside is a variable of its own. -/
def send (lib : CoderLib χ) (s : UploadSession χ) (input : List Byte) (len : Int) (out : Memory)
    (outputLen : Int) : UploadSession χ × Memory × Int :=
  let (decoder, d) := decoded lib s input len
  if d.ret < 0 then ({ s with decoder := decoder }, out, -1)
  else if d.ret % kPcmFrameLength ≠ 0 then ({ s with decoder := decoder }, out, -1)
  else
    let (encoder, e) := encoded lib s input len outputLen
    let s := { s with decoder := decoder, encoder := encoder }
    let out := out.store (rtpOffset s.param + kRtpHeaderSize) e.written
    -- What the encoder wrote stays in the output when it fails.
    if e.ret < 0 then (s, out, -1) else sendRtp s out d.ret e.ret

/-- The calls that a packet in and a packet out make. -/
inductive Call where
  | unPak (data : List Byte) (len : Int) (sc : BitVec 32)
  | send (input : List Byte) (len : Int) (out : Memory) (outputLen : Int)

/-- The state after a call. -/
def call (lib : CoderLib χ) (s : UploadSession χ) : Call → UploadSession χ
  | .unPak data len sc => (s.unPak data len sc).1
  | .send input len out outputLen => (s.send lib input len out outputLen).1

variable (lib : CoderLib χ) (s : UploadSession χ) (out : Memory)

/-- Setting a session up sets its parameters, and leaves the packer as it was. -/
theorem init_kept (param : SessionParam) (env : Setup χ) :
    (s.init param env).1.param = param ∧ (s.init param env).1.udp = s.udp := by
  unfold init
  simp only []
  -- No branch touches the packer.
  split_ifs <;> exact ⟨rfl, rfl⟩

theorem unPak_kept (data : List Byte) (len : Int) (sc : BitVec 32) :
    (s.unPak data len sc).1.param = s.param ∧ (s.unPak data len sc).1.udp = s.udp := by
  unfold unPak
  simp only []
  split_ifs <;> exact ⟨rfl, rfl⟩

/-- The SC header goes in front of the UDP/IP header and leaves it alone. -/
theorem sendSc_kept (len : Int) :
    (s.sendSc out len).1.param = s.param ∧ (s.sendSc out len).1.udp = s.udp ∧
      (s.sendSc out len).2.1.read (udpOffset s.param) kUdpIpLen =
        out.read (udpOffset s.param) kUdpIpLen := by
  unfold sendSc udpOffset
  by_cases hsc : s.param.ifSendSc = true
  · simp only [if_pos hsc]
    rcases SC.send_of_room s.scSend (BitVec.ofInt 16 len) (out.read 0 kSCHeadSize) kSCHeadSize
      (le_refl _) with ⟨h, hsend, -⟩
    have hdrop : (out.read 0 kSCHeadSize).drop kSCHeadSize = [] := List.drop_of_length_le (by
      simp only [Memory.read, List.length_map, List.length_range, le_refl])
    rw [hdrop, List.append_nil] at hsend
    simp only [hsend]
    rw [if_neg (by unfold kSCHeadSize; omega)]
    refine ⟨rfl, rfl, Memory.read_store_of_disjoint _ _ _ _ _ (Or.inr ?_)⟩
    rw [length_store]
    omega
  · simp only [if_neg hsc]
    exact ⟨trivial, trivial, trivial⟩

/-- The packer has made one more header, or none, and with the option set it is
    the one at the place of the UDP/IP header: a header for a packet of the
    header's own length. -/
def Packed (s s' : UploadSession χ) (out' : Memory) : Prop :=
  s'.param = s.param ∧
    (s.param.ifAddUdpip = true → s'.udp = (s.udp.generateHeader kUdpIpLen).1 ∧
      out'.read (udpOffset s.param) kUdpIpLen = (s.udp.generateHeader kUdpIpLen).2.1) ∧
    (s.param.ifAddUdpip = false → s'.udp = s.udp)

theorem sendUdpIp_packed (len : Int) :
    Packed s (s.sendUdpIp out len).1 (s.sendUdpIp out len).2.1 := by
  unfold sendUdpIp Packed
  by_cases hadd : s.param.ifAddUdpip = true
  · rw [if_pos hadd]
    have hlen : ¬ (s.udp.generateHeader kUdpIpLen).2.2 < 0 := by
      change ¬ (kUdpIpLen : Int) < 0
      omega
    simp only [if_neg hlen]
    rcases sendSc_kept { s with udp := (s.udp.generateHeader kUdpIpLen).1 }
      (out.store (udpOffset s.param) (s.udp.generateHeader kUdpIpLen).2.1)
      (len + (s.udp.generateHeader kUdpIpLen).2.2) with ⟨hparam, hudp, hread⟩
    refine ⟨hparam, fun _ => ⟨hudp, hread.trans ?_⟩, fun hc => ?_⟩
    · -- What is read back is what was stored.
      have hself := Memory.read_store_self out (udpOffset s.param)
        (s.udp.generateHeader kUdpIpLen).2.1
      rw [UdpPacker.length_generateHeader] at hself
      exact hself
    · rw [hadd] at hc
      exact absurd hc (by decide)
  · rw [if_neg hadd]
    rcases sendSc_kept s out len with ⟨hparam, hudp, -⟩
    exact ⟨hparam, fun hc => absurd hc hadd, fun _ => hudp⟩

theorem sendRtp_packed (inputLen codecLen : Int) :
    Packed s (s.sendRtp out inputLen codecLen).1 (s.sendRtp out inputLen codecLen).2.1 := by
  unfold sendRtp
  rcases RtpSession.generateRtpHeader_of_room s.rtp kRtpHeaderSize (inputLen / kPcmFrameLength)
    (le_refl _) with ⟨rtp, head, hgen, -⟩
  simp only [hgen]
  rw [if_neg (by unfold kRtpHeaderSize; omega)]
  exact sendUdpIp_packed { s with rtp := rtp } _ _

/-- A `send` that fails leaves the parameters and the packer alone. One that gets
    as far as the headers packs one packet. -/
theorem send_cases (input : List Byte) (len outputLen : Int) :
    ((s.send lib input len out outputLen).2.2 = -1 ∧
        (s.send lib input len out outputLen).1.param = s.param ∧
        (s.send lib input len out outputLen).1.udp = s.udp) ∨
      (0 ≤ (encoded lib s input len outputLen).2.ret ∧
        Packed s (s.send lib input len out outputLen).1
          (s.send lib input len out outputLen).2.1) := by
  unfold send
  simp only []
  split
  · exact Or.inl ⟨rfl, rfl, rfl⟩
  · split
    · exact Or.inl ⟨rfl, rfl, rfl⟩
    · split
      · exact Or.inl ⟨rfl, rfl, rfl⟩
      · rename_i henc
        exact Or.inr ⟨not_lt.mp henc, sendRtp_packed
          { s with
            decoder := (decoded lib s input len).1
            encoder := (encoded lib s input len outputLen).1 } _ _ _⟩

end UploadSession

end CodecChanger
