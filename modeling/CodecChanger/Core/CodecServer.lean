import CodecChanger.Core.Codec2
import CodecChanger.Core.G711
import CodecChanger.Core.ProcessLoop

/-!
# The Codec Server

The two loops of `codec_server.cpp`, which serve Codec2 over UDP. `EncodeLoop` encodes every
datagram of 960 bytes to a packet of 18. It also makes an RTP packet of it with the same PCM
by the mu-law, which goes to a test address. `DecodeLoop` is the way back.

The coders have been set up, and the loops go on for as long as there are datagrams. What is
printed is not part of the model. A return value that is not as expected is logged in some
places and leaves the iteration in others.

## Main definitions

* `EncodeLoop`, `DecodeLoop`: The variables of the loops.
* `EncodeLoop.start`: The encoding loop as it is entered.
* `EncodeLoop.iteration`, `DecodeLoop.iteration`: The bodies of the loops.
-/

namespace CodecChanger

open Bytes

/-- The size of the loops' buffers. -/
def kServerBuffSize : Int := 1600

variable {σ : Type*}

/-- The variables of `EncodeLoop`, and a record of what the sockets were given. -/
structure EncodeLoop (σ : Type*) where
  encoder : σ
  rtp : RtpSession
  sendBuff : Memory
  rtpBuff : Memory
  /-- What `udp_server.Send` was called with. -/
  sent : List (List Byte)
  /-- What `test_socket.Send` was called with. -/
  tested : List (List Byte)

namespace EncodeLoop

/-- The `MediaParam` of the loop. -/
def param : MediaParam where
  payloadType := 0
  clockRate := 8000
  samplesPreFrames := 160

/-- The loop as it is entered. The session's memory held `rtp`, and its numbers are random. -/
def start (encoder : σ) (rtp : RtpSession) (sequenceNum : BitVec 16) (timestamp ssrc : BitVec 32)
    (sendBuff rtpBuff : Memory) : EncodeLoop σ where
  encoder := encoder
  rtp := rtp.init param sequenceNum timestamp ssrc
  sendBuff := sendBuff
  rtpBuff := rtpBuff
  sent := []
  tested := []

/-- The body of the loop, from `// Send rtp` on. -/
def sendRtp (s : EncodeLoop σ) (buff : List Byte) : EncodeLoop σ :=
  let pcm := PcmUEnCoder.codec buff 960 (kServerBuffSize - kRtpHeaderSize)
  let s := { s with rtpBuff := s.rtpBuff.store kRtpHeaderSize pcm.written }
  if pcm.ret ≠ 480 then s
  else
    let (rtp, head, testRtp) := s.rtp.generateRtpHeader kRtpHeaderSize 3
    let s := { s with rtp := rtp, rtpBuff := s.rtpBuff.store 0 head }
    if testRtp ≠ kRtpHeaderSize then s
    else { s with tested := s.tested ++ [s.rtpBuff.read 0 (testRtp + pcm.ret).toNat] }

/-- The body of the loop. -/
def iteration (lib : Codec2Lib σ) (s : EncodeLoop σ) (a : Arrival) : EncodeLoop σ :=
  if a.recvLen ≠ 960 then s
  else
    let (encoder, e) := Codec2EnCoder.codec lib s.encoder a.recvBuff a.recvLen kServerBuffSize
    let sendBuff := s.sendBuff.store 0 e.written
    -- Another length than 18 is logged and sent nevertheless.
    sendRtp { s with
      encoder := encoder
      sendBuff := sendBuff
      sent := s.sent ++ [sendBuff.read 0 e.ret.toNat] } a.recvBuff

end EncodeLoop

/-- The variables of `DecodeLoop`, and a record of what the socket was given. -/
structure DecodeLoop (σ : Type*) where
  decoder : σ
  sendBuff : Memory
  /-- What `udp_server.Send` was called with. -/
  sent : List (List Byte)

/-- The loop as it is entered. -/
def DecodeLoop.start (decoder : σ) (sendBuff : Memory) : DecodeLoop σ where
  decoder := decoder
  sendBuff := sendBuff
  sent := []

/-- The body of the loop. -/
def DecodeLoop.iteration (lib : Codec2Lib σ) (s : DecodeLoop σ) (a : Arrival) : DecodeLoop σ :=
  if a.recvLen ≠ 18 then s
  else
    let (decoder, d) := Codec2DeCoder.codec lib s.decoder a.recvBuff a.recvLen kServerBuffSize
    let sendBuff := s.sendBuff.store 0 d.written
    -- Another length than 960 is logged and sent nevertheless.
    { decoder := decoder
      sendBuff := sendBuff
      sent := s.sent ++ [sendBuff.read 0 d.ret.toNat] }

end CodecChanger
