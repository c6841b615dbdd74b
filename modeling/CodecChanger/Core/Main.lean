import CodecChanger.Core.Json
import CodecChanger.Core.Upload

/-!
# The Main Program

`main` of `main.cpp`, from the value that was read on: the entries of the array `session` are
gone through, and each gives a thread that runs an upload or a download session, unless its
texts are too long, or a codec is unknown, which ends the program.

The threads live in a local vector. A `return` out of the loop destroys it with the threads
that have been started, which are still to be joined, so it ends the process as
`std::terminate` does. Nothing catches what the JSON accessors throw at a member that is not
of its type, and that ends the process as well.

A member that is not there is an empty text, zero or false. Texts are of characters of one
byte. What the parameters of a session hold before they are assigned is whatever the stack
held.

## Main definitions

* `stringToType`, `stringToForward`: The names of the codecs and of the directions.
* `Config`: An entry of the array.
* `Config.readUdpip`, `Config.read`: What the JSON accessors make of an entry.
* `Thread`: What a thread is started with.
* `Thread.Fits`: No `strcpy` has left its array.
* `Exit`: How the program goes on behind the loop.
* `main`: The program, when all entries can be read.
* `program`: The program.
-/

namespace CodecChanger

/-- `StringToType`. -/
def stringToType (str : String) : CodecType :=
  if str = "amr" ∨ str = "AMR" then .amrWb
  else if str = "codec2" ∨ str = "Codec2" then .codec2
  else if str = "PCMA" ∨ str = "PcmA" then .pcmA
  else if str = "PCMU" ∨ str = "PcmU" then .pcmU
  else .err

/-- `StringToForward`. Every other text is the way up. -/
def stringToForward (str : String) : Transforward :=
  if str = "To4G" ∨ str = "TO4G" then .to4G
  else if str = "From4G" ∨ str = "FROM4G" then .from4G
  else .to4G

/-- What `main` reads of an entry. -/
structure Config where
  srcCodec : String
  dstCodec : String
  forward : String
  recvPort : BitVec 32
  ip : List Char
  sendPort : BitVec 32
  addUdpip : Bool
  sendSc : Bool
  udpipSip : List Char
  udpipDip : List Char
  udpipSport : BitVec 32
  udpipDport : BitVec 32
  deriving DecidableEq, Repr

/-- The texts and ports of the UDP/IP header, or what an accessor throws at them. -/
def Config.readUdpip {ρ : Type} (R : Json.Doubles ρ) (config : Json.Value ρ) (c : Config) :
    Except String Config := do
  let udpipSip ← (← config.member "udpip_sip").asString R
  let udpipDip ← (← config.member "udpip_dip").asString R
  let udpipSport ← (← config.member "udpip_sport").asUInt R
  let udpipDport ← (← config.member "udpip_dport").asUInt R
  return { c with
    udpipSip := udpipSip.toList
    udpipDip := udpipDip.toList
    udpipSport := udpipSport
    udpipDport := udpipDport }

/-- What the accessors make of an entry, or what one of them throws. What is for the UDP/IP
    header is read only if that is to be added. -/
def Config.read {ρ : Type} (R : Json.Doubles ρ) (config : Json.Value ρ) :
    Except String Config := do
  let srcCodec ← (← config.member "src_codec").asString R
  let dstCodec ← (← config.member "dst_codec").asString R
  let forward ← (← config.member "forward").asString R
  let recvPort ← (← config.member "recv_port").asUInt R
  let ip ← (← config.member "ip").asString R
  let sendPort ← (← config.member "send_port").asUInt R
  let addUdpip ← (← config.member "add_udpip").asBool R
  let sendSc ← (← config.member "send_sc").asBool R
  let c : Config := {
    srcCodec := srcCodec
    dstCodec := dstCodec
    forward := forward
    recvPort := recvPort
    ip := ip.toList
    sendPort := sendPort
    addUdpip := addUdpip
    sendSc := sendSc
    udpipSip := []
    udpipDip := []
    udpipSport := 0
    udpipDport := 0 }
  if addUdpip then c.readUdpip R config else return c

/-- What `strcpy` copies of a text, and a character that ends it. -/
def cStr (text : List Char) : List Char := text.takeWhile (· ≠ Char.ofNat 0)

/-- The session of a thread, with the parameters of the sockets. The texts are those
    copied to the arrays. -/
structure Thread where
  forward : Transforward
  recvPort : BitVec 16
  remotePort : BitVec 16
  ip : List Char
  param : SessionParam
  deriving DecidableEq, Repr

/-- The size of the arrays `ip`, `udpip_sip` and `udpip_dip`. -/
def kIpArray : Nat := 16

/-- The texts that were copied, with the character behind each, are in their arrays. -/
def Thread.Fits (t : Thread) : Prop :=
  t.ip.length + 1 ≤ kIpArray ∧ (t.param.ifAddUdpip = true →
    t.param.udpipSip.length + 1 ≤ kIpArray ∧ t.param.udpipDip.length + 1 ≤ kIpArray)

namespace Config

/-- The texts are too long. The size is compared without the character behind a text. -/
def tooLong (c : Config) : Bool :=
  c.addUdpip && (decide (c.udpipSip.length > 16) || decide (c.udpipDip.length > 16))

/-- The codecs of the entry. -/
def encoderType (c : Config) : CodecType := stringToType c.dstCodec
def decoderType (c : Config) : CodecType := stringToType c.srcCodec

/-- The thread of an entry. `stack` is what the parameters held before. -/
def thread (stack : SessionParam) (c : Config) : Thread where
  forward := stringToForward c.forward
  recvPort := c.recvPort.setWidth 16
  remotePort := c.sendPort.setWidth 16
  ip := cStr c.ip
  param := {
    ueid := 0x20
    encoderType := c.encoderType
    decoderType := c.decoderType
    ifAddUdpip := c.addUdpip
    ifSendSc := c.sendSc
    udpipSip := if c.addUdpip then cStr c.udpipSip else stack.udpipSip
    udpipDip := if c.addUdpip then cStr c.udpipDip else stack.udpipDip
    udpipSport := if c.addUdpip then c.udpipSport.setWidth 16 else stack.udpipSport
    udpipDport := if c.addUdpip then c.udpipDport.setWidth 16 else stack.udpipDport }

end Config

/-- The threads are joined, or `main` returns a value, or the process is ended with
    threads in it. -/
inductive Exit where
  | joins
  | returned (status : Int)
  | terminated
  deriving DecidableEq, Repr

/-- The `for` loop, with the threads in `th`. -/
def mainLoop (stack : SessionParam) :
    List (Except String Config) → List Thread → Exit × List Thread
  | [], th => (.joins, th)
  | .error _ :: _, th => (.terminated, th)
  | .ok c :: root, th =>
      if c.tooLong then mainLoop stack root th
      else if c.encoderType = .err ∨ c.decoderType = .err then
        (if th = [] then .returned (-1) else .terminated, th)
      else mainLoop stack root (th ++ [c.thread stack])

/-- `main`, from what the configuration has for `session`, if that is an array, and of its
    entries all can be read. -/
def main (stack : SessionParam) : Option (List Config) → Exit × List Thread
  | none => (.returned (-1), [])
  | some root => mainLoop stack (root.map .ok) []

/-- `main`, from what `ReadConfig` has made of the file. -/
def program {ρ : Type} (R : Json.Doubles ρ) (stack : SessionParam) (file : Json.Value ρ) :
    Exit × List Thread :=
  match file.member "session" with
  | .error _ => (.terminated, [])
  | .ok (.arrayValue root) => mainLoop stack (root.map (Config.read R)) []
  | .ok _ => (.returned (-1), [])

end CodecChanger
