import CodecChanger.Core.Upload

/-!
# The Download Session

`DownloadSession` of `session.h` and `session.cpp`: `Init`, `Recv`, which takes the
headers off a datagram that comes in, the outermost first, and decodes the
payload, and `Send`, which encodes PCM and puts an SC header in front of it.

`Recv` hands its own variables to `SC::Recv` and `DecodeRtpHeader`. They are
declared with another type than the output parameters have, and are taken for
those here; nothing that is left in them matters.

Besides what `Recv` returns and writes, the model keeps a record of what it looks
at and of what it calls the decoder with.

## Main definitions

* `DownloadSession`: The session's members.
* `Received`: What a call of `Recv` returns and does.
* `Received.parsed`: What of that is up to the parsers.
* `init`, `recv`, `send`: The session's calls.
-/

namespace CodecChanger

open Bytes

/-- `DownloadSession`, without the packer, the RTP session, which receiving does
    not look at, and the sockets. -/
structure DownloadSession (χ : Type*) where
  scRecv : SC
  scSend : SC
  param : SessionParam
  encoder : χ
  decoder : χ

/-- What a call of `Recv` returns and does. -/
structure Received where
  /-- The value returned. -/
  ret : Int
  /-- What is written to `output`. -/
  written : List Byte
  /-- The stretches of the datagram that the parsers look at, each by its offset
      and its length. -/
  looked : List (Nat × Nat)
  /-- What `input_length` is when `DecodeRtpHeader` is called with it. -/
  pktLen : Option Int
  /-- What the decoder is called with: its input and the length. -/
  handed : Option (List Byte × Int)
  deriving DecidableEq

namespace Received

/-- A stage that fails before the decoder is called. -/
def failed : Received where
  ret := -1
  written := []
  looked := []
  pktLen := none
  handed := none

/-- A stretch was looked at before. -/
def after (k n : Nat) (r : Received) : Received := { r with looked := (k, n) :: r.looked }

/-- What the parsers alone decide: where they look, the length converted, and the
    length the decoder is called with. -/
def parsed (r : Received) : List (Nat × Nat) × Option Int × Option Int :=
  (r.looked, r.pktLen, r.handed.map Prod.snd)

end Received

variable {χ : Type*}

namespace DownloadSession

/-- `Init`. Of the two SC layers it sets up the one that sends. -/
def init (s : DownloadSession χ) (param : SessionParam) (env : Setup χ) :
    DownloadSession χ × Int :=
  let s := { s with param := param, scSend := s.scSend.init param.ueid .to4G 0 }
  if env.recvSocket ≠ 0 ∨ env.sendSocket ≠ 0 then (s, -1)
  else if env.bind ≠ 0 then (s, -1)
  else if param.encoderType = .err then (s, -1)
  else
    let s := { s with encoder := env.encoder }
    if param.decoderType = .err then (s, -1)
    else
      let s := { s with decoder := env.decoder }
      if env.encoderInit ≠ 0 then (s, -1)
      else if env.decoderInit ≠ 0 then (s, -1)
      else (s, 0)

/-- `Recv`, from the RTP header on. The pointer `input` is `k` bytes into the
    datagram. -/
def recvRtp (lib : CoderLib χ) (s : DownloadSession χ) (data : List Byte) (k : Nat)
    (inputLength outputLength : Int) : DownloadSession χ × Received :=
  let pktLen := BitVec.ofInt 32 inputLength
  let (rtpLen, pkt, _) := RtpSession.decodeRtpHeader (data.drop k) pktLen
  if rtpLen < 0 then
    (s, { Received.failed with pktLen := some inputLength }.after k
      (RtpSession.decodeReach pktLen))
  else
    let input := pkt.drop rtpLen.toNat
    let inputLength' := inputLength - rtpLen
    let (decoder, d) := lib.codec s.decoder input inputLength' outputLength
    ({ s with decoder := decoder },
      { ret := if d.ret < 0 then -1 else d.ret
        written := d.written
        looked := [(k, RtpSession.decodeReach pktLen)]
        pktLen := some inputLength
        handed := some (input, inputLength') })

/-- `Recv`, from the UDP/IP header on. -/
def recvUdpIp (lib : CoderLib χ) (s : DownloadSession χ) (data : List Byte) (k : Nat)
    (inputLength outputLength : Int) : DownloadSession χ × Received :=
  if s.param.ifAddUdpip then
    let udpipLen := (udpParser (data.drop k) inputLength).1
    let (s, r) := if udpipLen < 0 then (s, Received.failed)
      else recvRtp lib s data (k + udpipLen.toNat) (inputLength - udpipLen) outputLength
    (s, r.after k (udpReach (data.drop k) inputLength))
  else recvRtp lib s data k inputLength outputLength

/-- `Recv`. -/
def recv (lib : CoderLib χ) (s : DownloadSession χ) (data : List Byte)
    (inputLength outputLength : Int) : DownloadSession χ × Received :=
  if s.param.ifSendSc then
    -- What `lost_pack` comes back as decides on a line in the log.
    let (scRecv, scLen, _) := s.scRecv.recv data inputLength 0
    let s := { s with scRecv := scRecv }
    let (s, r) := if scLen < 0 then (s, Received.failed)
      else recvUdpIp lib s data kSCHeadSize (inputLength - kSCHeadSize) outputLength
    (s, r.after 0 (SC.recvReach inputLength))
  else recvUdpIp lib s data 0 inputLength outputLength

def kScFrames : Nat := 3

/-- `Send`: the new state, the memory at `output` and the value returned. -/
def send (lib : CoderLib χ) (s : DownloadSession χ) (input : List Byte) (inputLength : Int)
    (out : Memory) (outputLength : Int) : DownloadSession χ × Memory × Int :=
  if inputLength ≠ kScFrames * kPcmFrameLength then (s, out, -1)
  else
    let (encoder, e) := lib.codec s.encoder input inputLength (outputLength - kSCHeadSize)
    let s := { s with encoder := encoder }
    let out := out.store kSCHeadSize e.written
    if e.ret < 0 then (s, out, -1)
    else
      let (sc, head, scLen) := s.scSend.send (BitVec.ofInt 16 e.ret) (out.read 0 kSCHeadSize)
        kSCHeadSize
      let s := { s with scSend := sc }
      let out := out.store 0 head
      if scLen < 0 then (s, out, -1) else (s, out, scLen + e.ret)

end DownloadSession

end CodecChanger
