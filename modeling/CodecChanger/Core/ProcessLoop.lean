import CodecChanger.Core.Download
import CodecChanger.Lib.Loop

/-!
# The Process Loop

`ProcessLoop` of the two sessions, which is the same code twice: PCM is received
in pieces of any length and sent in pieces of one length. What does not fill a
piece waits in `frame_buff`. A piece that has the right length and finds nothing
waiting is sent at once, out of the buffer it was received in; that buffer also
takes the pieces that are cut from `frame_buff`.

The session's `Recv` and `Send` are a parameter. `send_frame` is positive and
small here; the source would convert a negative one to a size.

The model keeps a record of what `Recv` made, of what `Send` was called with and
of what the socket was given.

## Main definitions

* `Calls`: The session's calls.
* `LoopState`: The variables of the loop.
* `Arrival`: What the socket receives.
* `fill`: The `for` loop that cuts a piece from `frame_buff`.
* `drain`: The `while` loop that sends what is waiting.
* `iteration`: The body of the endless loop.
* `DownloadSession.calls`: The calls of a download session.
-/

namespace CodecChanger

open Bytes Loop

/-- The size of the loop's buffers. -/
def kLoopBuffSize : Nat := 65536

/-- `Recv` and `Send` of a session. `Recv` gives the value returned and what is
    written to `output`; `Send` gives `input` as it leaves it, for an encoder may
    write to it, the memory at `output` and the value returned. -/
structure Calls (σ : Type*) where
  recv : σ → List Byte → Int → Int → σ × Coded
  send : σ → Buffer kLoopBuffSize → Int → Memory → Int →
    σ × Buffer kLoopBuffSize × Memory × Int

/-- The variables of `ProcessLoop`, and the record. -/
structure LoopState (σ : Type*) where
  session : σ
  codecBuff : Buffer kLoopBuffSize
  sendBuff : Memory
  frameBuff : List Byte
  /-- What `Recv` made, a piece for each call that succeeded. -/
  received : List (List Byte)
  /-- What `Send` was called with, a piece for each call. -/
  handed : List (List Byte)
  /-- What `send_socket_.Send` was called with. -/
  posted : List (List Byte)

/-- What `RecvFrom` returned, and what is in `recv_buff`. -/
structure Arrival where
  recvLen : Int
  recvBuff : List Byte

variable {σ : Type*}

namespace LoopState

/-- `Send` is called with the first `n` bytes of `codec_buff`. -/
def hand (calls : Calls σ) (s : LoopState σ) (n : Nat) : LoopState σ × Int :=
  let (session, codecBuff, sendBuff, sendLength) :=
    calls.send s.session s.codecBuff n s.sendBuff kLoopBuffSize
  ({ s with
      session := session
      codecBuff := codecBuff
      sendBuff := sendBuff
      handed := s.handed ++ [s.codecBuff.bytes.take n] }, sendLength)

/-- `send_socket_.Send` is called with the start of `send_buff`. -/
def post (s : LoopState σ) (sendLength : Int) : LoopState σ :=
  { s with posted := s.posted ++ [s.sendBuff.read 0 sendLength.toNat] }

/-- The `for` loop: the next `n` bytes are taken from the front of `frame_buff` and
    put into `codec_buff`, from `i` on. -/
def fill (codecBuff : Buffer kLoopBuffSize) (i : Nat) :
    Nat → List Byte → Buffer kLoopBuffSize × List Byte
  | 0, frameBuff => (codecBuff, frameBuff)
  -- The loop is only entered with enough bytes waiting.
  | _ + 1, [] => (codecBuff, [])
  | n + 1, b :: frameBuff => fill (codecBuff.set i b) (i + 1) n frameBuff

/-- One round of the `while` loop, with pieces of `n` bytes. -/
def drainBody (calls : Calls σ) (n : Nat) (s : LoopState σ) : Next (LoopState σ) (LoopState σ) :=
  if n ≤ s.frameBuff.length then
    let (codecBuff, frameBuff) := fill s.codecBuff 0 n s.frameBuff
    let (s, sendLength) := hand calls { s with codecBuff := codecBuff, frameBuff := frameBuff } n
    -- After a failure `continue` goes on with the `while` loop.
    if sendLength ≤ 0 then .again s else .again (s.post sendLength)
  else .leave s

/-- The `while` loop. Every round takes bytes from `frame_buff`, so there are no
    more rounds than bytes. -/
def drain (calls : Calls σ) (n : Nat) (s : LoopState σ) : LoopState σ :=
  (run (drainBody calls n) (s.frameBuff.length + 1) s).getD s

/-- The start of an iteration: `codec_length`, if the iteration goes on. -/
def receive (calls : Calls σ) (s : LoopState σ) (a : Arrival) : LoopState σ × Option Nat :=
  if a.recvLen ≤ 0 then (s, none)
  else
    let (session, r) := calls.recv s.session a.recvBuff a.recvLen kLoopBuffSize
    let s := { s with session := session, codecBuff := s.codecBuff.write r.written }
    if r.ret < 0 then (s, none)
    else ({ s with received := s.received ++ [r.written] }, some r.ret.toNat)

/-- `frame_buff.insert`. -/
def append (s : LoopState σ) (codecLength : Nat) : LoopState σ :=
  { s with frameBuff := s.frameBuff ++ s.codecBuff.bytes.take codecLength }

/-- The body of the endless loop. -/
def iteration (calls : Calls σ) (sendFrame : Nat) (s : LoopState σ) (a : Arrival) :
    LoopState σ :=
  match receive calls s a with
  | (s, none) => s
  | (s, some codecLength) =>
      if codecLength = 2 * sendFrame ∧ s.frameBuff = [] then
        let (s, sendLength) := hand calls s codecLength
        if sendLength ≤ 0 then s else drain calls (2 * sendFrame) (s.post sendLength)
      else drain calls (2 * sendFrame) (s.append codecLength)

/-- The loop before anything has been received. -/
def start (session : σ) (codecBuff : Buffer kLoopBuffSize) (sendBuff : Memory) : LoopState σ where
  session := session
  codecBuff := codecBuff
  sendBuff := sendBuff
  frameBuff := []
  received := []
  handed := []
  posted := []

end LoopState

/-- The calls of a download session. What its encoder leaves of the input is
    `left`. -/
def DownloadSession.calls {χ : Type*} (lib : CoderLib χ)
    (left : χ → Buffer kLoopBuffSize → Buffer kLoopBuffSize) : Calls (DownloadSession χ) where
  recv s input inputLength outputLength :=
    let (s, r) := s.recv lib input inputLength outputLength
    (s, { ret := r.ret, written := r.written })
  send s input inputLength out outputLength :=
    let (s', out, sendLength) := s.send lib input.bytes inputLength out outputLength
    (s', left s.encoder input, out, sendLength)

end CodecChanger
