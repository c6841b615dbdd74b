import CodecChanger.Core.UdpPacker

/-!
# The UDP Checksum

`UdpChecksum` of `udp_packer.cpp`, and the record it is computed over. The packer keeps
the pseudo header of the protocol and the UDP header side by side in
`udp_feak_header_`; `GenerateHeader` adds up the words of that record and those of the
data, and then puts zero into the header instead.

## Main definitions

* `udpChecksum`: `UdpChecksum`.
* `UdpFeakHeader`: `udp_feak_header_`.
* `UdpPacker.feakHeader`: The record as `GenerateHeader` fills it in.
* `UdpPacker.udpSum`: The checksum that `GenerateHeader` computes.
-/

namespace CodecChanger

open Bytes

/-- `UdpChecksum`: the words of both are added up into one `sum`. An odd last byte of
    the data is the low byte of a word, one of the header is not looked at. -/
def udpChecksum (feakheader data : List Byte) : BitVec 16 :=
  let sum := (words16 feakheader).foldl (fun sum w => sum + w.toNat) 0
  let words := words16 (if data.length % 2 = 1 then data ++ [0] else data)
  let sum := words.foldl (fun sum w => sum + w.toNat) sum
  let sum := sum / 2 ^ 16 + sum % 2 ^ 16
  let sum := sum + sum / 2 ^ 16
  ~~~ BitVec.ofNat 16 sum

/-- `udp_feak_header_`. On a little-endian host `proto` is declared in front of
    `zero`. -/
structure UdpFeakHeader where
  srcIp : BitVec 32
  dstIp : BitVec 32
  proto : Byte
  zero : Byte
  udpLen : BitVec 16
  srcPort : BitVec 16
  dstPort : BitVec 16
  len : BitVec 16
  sum : BitVec 16
  deriving DecidableEq, Repr

/-- The record in memory. -/
def UdpFeakHeader.store (h : UdpFeakHeader) : List Byte :=
  bytes32 h.srcIp ++ bytes32 h.dstIp ++ [h.proto, h.zero] ++ bytes16 h.udpLen ++
    bytes16 h.srcPort ++ bytes16 h.dstPort ++ bytes16 h.len ++ bytes16 h.sum

namespace UdpPacker

/-- `udp_feak_header_` of a packer that was set up, as `GenerateHeader` fills it in.
    `SetIpPort` copied the addresses and the ports from the two headers. -/
def feakHeader (q : UdpPacker) (packLen : Int) : UdpFeakHeader where
  srcIp := q.iphdr.src
  dstIp := q.iphdr.dst
  proto := ipprotoUdp
  zero := 0
  udpLen := swap16 (BitVec.ofInt 16 (kUdpHeaderLen + packLen))
  srcPort := q.udphdr.sport
  dstPort := q.udphdr.dport
  len := swap16 (BitVec.ofInt 16 (kUdpHeaderLen + packLen))
  sum := 0

/-- What `GenerateHeader` first stores in `uh_sum`. The headers are taken off the
    length once more, and a negative length is no data. -/
def udpSum (q : UdpPacker) (buff : List Byte) (packLen : Int) : BitVec 16 :=
  udpChecksum (q.feakHeader packLen).store ((buff.drop kUdpIpLen).take (packLen - kUdpIpLen).toNat)

end UdpPacker

end CodecChanger
