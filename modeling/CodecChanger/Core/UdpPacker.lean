import CodecChanger.Lib.Bytes

/-!
# The UDP/IP Packer

`udp_packer.h` and `udp_packer.cpp`: a packer keeps an IP and a UDP header in
the form they go over the wire in, fills in what differs from packet to packet
and copies both in front of the payload. The parser reads such a pair of headers
again.

The words of a header are kept as the machine reads them from memory, so a field
in network order is the swapped word. The UDP checksum of the source is computed
over a second record of the same data and then overwritten with zero; neither
is part of the packer's state here.

## Main definitions

* `inetPton`: `inet_pton` for `AF_INET`.
* `Ip`, `Udphdr`: The two headers.
* `checkSum`: `CheckSum`.
* `UdpPacker`: The packer's members.
* `UdpPacker.setIpPort`, `UdpPacker.generateHeader`: Its calls.
* `udpParser`: `UdpParser`.
* `udpReach`: How much of a packet the parser looks at.
* `Describes`: A pair of headers fits its packet.

## Theorems

* `udpParser_cases`: A packet is rejected, or stripped of headers that were there.
* `udpParser_take`: Nothing else of the packet matters.
* `udpParser_headers`, `udpParser_store`: What the parser makes of a pair of headers.
* `holds_generateHeader_iff`: What a packer keeps from packet to packet.
* `describes_generateHeader_iff`: When the headers fit their packet.
-/

namespace CodecChanger

open Bytes

def kIpHeaderLen : Nat := 20
def kUdpHeaderLen : Nat := 8
def kUdpIpLen : Nat := kIpHeaderLen + kUdpHeaderLen

/-- The loop of `inet_pton` over the characters left: the octets that are
    complete, the one being read, whether it has a digit, and how many octets
    have begun. -/
def inetPtonLoop (octets : List Nat) (cur : Nat) (sawDigit : Bool) (count : Nat) :
    List Char → Option (List Nat)
  | [] => if count < 4 then none else some (octets ++ [cur])
  | ch :: src =>
      if ch.isDigit then
        let new := cur * 10 + (ch.toNat - '0'.toNat)
        -- A decimal does not go on behind a leading zero.
        if sawDigit ∧ cur = 0 then none
        else if new > 255 then none
        else if sawDigit then inetPtonLoop octets new true count src
        else if count + 1 > 4 then none
        else inetPtonLoop octets new true (count + 1) src
      else if ch = '.' ∧ sawDigit then
        -- No dot behind the fourth.
        if count = 4 then none else inetPtonLoop (octets ++ [cur]) 0 false count src
      else none

/-- `inet_pton` for `AF_INET`: the address as it lies in memory. -/
def inetPton (src : List Char) : Option (BitVec 32) :=
  (inetPtonLoop [] 0 false 0 src).map fun octets => load32 (octets.map (BitVec.ofNat 8)) 0

/-- `struct ip`. -/
structure Ip where
  hl : BitVec 4
  v : BitVec 4
  tos : Byte
  len : BitVec 16
  id : BitVec 16
  off : BitVec 16
  ttl : Byte
  p : Byte
  sum : BitVec 16
  src : BitVec 32
  dst : BitVec 32
  deriving DecidableEq, Repr

/-- The IP header in memory. Of the first byte `ip_hl` is the low half. -/
def Ip.store (h : Ip) : List Byte :=
  [h.v ++ h.hl, h.tos] ++ bytes16 h.len ++ bytes16 h.id ++ bytes16 h.off ++ [h.ttl, h.p] ++
    bytes16 h.sum ++ bytes32 h.src ++ bytes32 h.dst

def Ip.zero : Ip where
  hl := 0
  v := 0
  tos := 0
  len := 0
  id := 0
  off := 0
  ttl := 0
  p := 0
  sum := 0
  src := 0
  dst := 0

/-- `struct udphdr`. -/
structure Udphdr where
  sport : BitVec 16
  dport : BitVec 16
  ulen : BitVec 16
  sum : BitVec 16
  deriving DecidableEq, Repr

/-- The UDP header in memory. -/
def Udphdr.store (h : Udphdr) : List Byte :=
  bytes16 h.sport ++ bytes16 h.dport ++ bytes16 h.ulen ++ bytes16 h.sum

def Udphdr.zero : Udphdr where
  sport := 0
  dport := 0
  ulen := 0
  sum := 0

/-- `CheckSum`: the words are added up, an odd last byte being the low byte of a
    word, the carry is folded in twice, and the result is complemented. -/
def checkSum (m : List Byte) : BitVec 16 :=
  let words := words16 (if m.length % 2 = 1 then m ++ [0] else m)
  let sum := words.foldl (fun sum w => sum + w.toNat) 0
  let sum := sum / 2 ^ 16 + sum % 2 ^ 16
  let sum := sum + sum / 2 ^ 16
  ~~~ BitVec.ofNat 16 sum

/-- `UdpPacker`. -/
structure UdpPacker where
  iphdr : Ip
  udphdr : Udphdr
  deriving DecidableEq, Repr

namespace UdpPacker

/-- `IPPROTO_UDP`. -/
def ipprotoUdp : Byte := 17

/-- `SetIpPort`. What is set before an address turns out not to be one stays
    set. -/
def setIpPort (_ : UdpPacker) (srcIp : List Char) (srcPort : BitVec 16) (dstIp : List Char)
    (dstPort : BitVec 16) : UdpPacker × Int :=
  let ip := { Ip.zero with
    hl := BitVec.ofNat 4 (kIpHeaderLen >>> 2)
    v := 4
    ttl := 255
    p := ipprotoUdp }
  match inetPton srcIp with
  | none => ({ iphdr := ip, udphdr := Udphdr.zero }, -1)
  | some src =>
      let ip := { ip with src := src }
      match inetPton dstIp with
      | none => ({ iphdr := ip, udphdr := Udphdr.zero }, -1)
      | some dst =>
          ({ iphdr := { ip with dst := dst }
             udphdr := { Udphdr.zero with sport := swap16 srcPort, dport := swap16 dstPort } }, 0)

/-- `GenerateHeader`: the new state, the bytes copied to `buff` and the value
    returned. -/
def generateHeader (q : UdpPacker) (packLen : Int) : UdpPacker × List Byte × Int :=
  let ip := { q.iphdr with
    len := swap16 (BitVec.ofInt 16 (kIpHeaderLen + kUdpHeaderLen + packLen))
    id := swap16 (swap16 q.iphdr.id + 1)
    sum := 0 }
  -- The checksum is that of the header with a zero in its place.
  let ip := { ip with sum := checkSum ip.store }
  let udp := { q.udphdr with
    ulen := swap16 (BitVec.ofInt 16 (kUdpHeaderLen + packLen))
    sum := 0 }
  ({ iphdr := ip, udphdr := udp }, ip.store ++ udp.store, kUdpIpLen)

end UdpPacker

/-- `TransInfo`. -/
structure TransInfo where
  srcIp : BitVec 32
  dstIp : BitVec 32
  srcPort : BitVec 16
  dstPort : BitVec 16
  deriving DecidableEq, Repr

/-- `UdpParser`: the value returned, and what `info` is filled with. -/
def udpParser (buff : List Byte) (len : Int) : Int × Option TransInfo :=
  if len < kUdpHeaderLen + kIpHeaderLen then (-1, none)
  else
    -- Four bits of words are 60 bytes at most. That there are 20 is not tested.
    let iphdrLen := 4 * ((buff.getD 0 0).extractLsb' 0 4).toNat
    if iphdrLen > 60 ∨ iphdrLen + kUdpHeaderLen > len then (-1, none)
    else
      (iphdrLen + kUdpHeaderLen, some {
        srcIp := swap32 (load32 buff 12)
        dstIp := swap32 (load32 buff 16)
        srcPort := swap16 (load16 buff iphdrLen)
        dstPort := swap16 (load16 buff (iphdrLen + 2)) })

/-- How many bytes of the packet `UdpParser` looks at: an IP header, once the
    length has room for the shortest headers, and the UDP header, once it has
    room for that as well. -/
def udpReach (buff : List Byte) (len : Int) : Nat :=
  if len < kUdpHeaderLen + kIpHeaderLen then 0
  else
    let iphdrLen := 4 * ((buff.getD 0 0).extractLsb' 0 4).toNat
    if iphdrLen > 60 ∨ iphdrLen + kUdpHeaderLen > len then kIpHeaderLen
    else max kIpHeaderLen (iphdrLen + kUdpHeaderLen)

/-- A packet is rejected, or it is as long as the headers, whose length is
    returned. -/
theorem udpParser_cases (buff : List Byte) (len : Int) :
    (udpParser buff len).1 = -1 ∨
      ∃ n : Nat, (udpParser buff len).1 = n ∧ kUdpHeaderLen ≤ n ∧ (n : Int) ≤ len := by
  unfold udpParser
  simp only []
  split
  · exact Or.inl rfl
  · split
    · exact Or.inl rfl
    · rename_i h
      exact Or.inr ⟨4 * ((buff.getD 0 0).extractLsb' 0 4).toNat + kUdpHeaderLen,
        by push_cast; rfl, by omega, by omega⟩

/-- What the parser looks at is inside a packet of this length. -/
theorem udpReach_le (buff : List Byte) (len : Int) (h : 0 ≤ len) : udpReach buff len ≤ len := by
  unfold udpReach kUdpHeaderLen kIpHeaderLen
  simp only []
  split
  · exact h
  · split
    · omega
    · omega

/-- What lies behind the packet does not matter for how much is looked at. -/
theorem udpReach_append (buff rest : List Byte) (len : Int) (h : len = buff.length) :
    udpReach (buff ++ rest) len = udpReach buff len := by
  unfold udpReach
  by_cases hlen : len < kUdpHeaderLen + kIpHeaderLen
  · rw [if_pos hlen, if_pos hlen]
  · unfold kUdpHeaderLen kIpHeaderLen at hlen
    rw [List.getD_append _ _ _ _ (by omega)]

/-- Nothing else of the packet matters. -/
theorem udpParser_take (buff : List Byte) (len : Int) :
    udpParser (buff.take (udpReach buff len)) len = udpParser buff len := by
  by_cases hlen : len < kUdpHeaderLen + kIpHeaderLen
  · unfold udpParser
    rw [if_pos hlen, if_pos hlen]
  · have hreach : kIpHeaderLen ≤ udpReach buff len := by
      unfold udpReach
      rw [if_neg hlen]
      simp only []
      split
      · exact le_refl _
      · exact le_max_left _ _
    unfold kIpHeaderLen at hreach
    unfold udpParser
    rw [if_neg hlen, if_neg hlen, getD_take _ _ _ (by omega)]
    simp only []
    split
    · rfl
    · -- The packet is accepted, so the parser looks at both headers.
      rename_i hacc
      have hfull : udpReach buff len =
          max kIpHeaderLen (4 * ((buff.getD 0 0).extractLsb' 0 4).toNat + kUdpHeaderLen) := by
        unfold udpReach
        rw [if_neg hlen, if_neg hacc]
      have hudp := le_max_right kIpHeaderLen
        (4 * ((buff.getD 0 0).extractLsb' 0 4).toNat + kUdpHeaderLen)
      rw [← hfull] at hudp
      unfold kUdpHeaderLen at hudp
      rw [load32_take _ _ _ (by omega), load32_take _ _ _ (by omega),
        load16_take _ _ _ (by omega), load16_take _ _ _ (by omega)]

/-- The headers at the start of `h` fit a packet with `n` bytes behind them, and
    with these addresses and ports in host order. -/
structure Describes (h : List Byte) (n : Nat) (info : TransInfo) : Prop where
  total_eq : (swap16 (load16 h 2)).toNat = kUdpIpLen + n
  ulen_eq : (swap16 (load16 h 24)).toNat = kUdpHeaderLen + n
  parsed : udpParser h kUdpIpLen = ((kUdpIpLen : Int), some info)

namespace UdpPacker

/-- What a packer keeps from packet to packet: a header length of five words,
    the addresses and the ports. -/
def Holds (q : UdpPacker) (info : TransInfo) : Prop :=
  q.iphdr.hl = 5 ∧ swap32 q.iphdr.src = info.srcIp ∧ swap32 q.iphdr.dst = info.dstIp ∧
    swap16 q.udphdr.sport = info.srcPort ∧ swap16 q.udphdr.dport = info.dstPort

instance (q : UdpPacker) (info : TransInfo) : Decidable (q.Holds info) :=
  inferInstanceAs (Decidable (_ ∧ _))

/-- Generating a header changes nothing of that. -/
theorem holds_generateHeader_iff (q : UdpPacker) (packLen : Int) (info : TransInfo) :
    (q.generateHeader packLen).1.Holds info ↔ q.Holds info := Iff.rfl

theorem length_generateHeader (q : UdpPacker) (packLen : Int) :
    (q.generateHeader packLen).2.1.length = kUdpIpLen := rfl

/-- The header length at the start of an IP header in memory. -/
theorem hl_store (ip : Ip) (udp : Udphdr) (rest : List Byte) :
    ((ip.store ++ udp.store ++ rest).getD 0 0).extractLsb' 0 4 = ip.hl := by
  change (ip.v ++ ip.hl).extractLsb' 0 4 = ip.hl
  ext i hi
  simp only [BitVec.getElem_extractLsb', BitVec.getLsbD_append]
  grind

/-- The parser takes an IP header of five words and the UDP header off what it is
    given, whatever follows. -/
theorem udpParser_headers (ip : Ip) (udp : Udphdr) (rest : List Byte) (len : Int)
    (h5 : ip.hl = 5) (hlen : kUdpIpLen ≤ len) :
    udpParser (ip.store ++ udp.store ++ rest) len = ((kUdpIpLen : Int), some {
      srcIp := swap32 ip.src
      dstIp := swap32 ip.dst
      srcPort := swap16 udp.sport
      dstPort := swap16 udp.dport }) := by
  have hsrc : load32 (ip.store ++ udp.store ++ rest) 12 = ip.src := word32_bytes ip.src
  have hdst : load32 (ip.store ++ udp.store ++ rest) 16 = ip.dst := word32_bytes ip.dst
  have hsport : load16 (ip.store ++ udp.store ++ rest) 20 = udp.sport := word16_bytes udp.sport
  have hdport : load16 (ip.store ++ udp.store ++ rest) 22 = udp.dport := word16_bytes udp.dport
  have hwords : 4 * (5 : BitVec 4).toNat = 20 := rfl
  unfold udpParser
  unfold kUdpIpLen kIpHeaderLen kUdpHeaderLen at hlen ⊢
  rw [if_neg (by omega), hl_store, h5, hwords]
  simp only []
  rw [if_neg (by omega), hsrc, hdst, hsport, hdport]
  rfl

/-- Reading a pair of headers back. -/
theorem udpParser_store (ip : Ip) (udp : Udphdr) (info : TransInfo) :
    udpParser (ip.store ++ udp.store) kUdpIpLen = ((kUdpIpLen : Int), some info) ↔
      ip.hl = 5 ∧ swap32 ip.src = info.srcIp ∧ swap32 ip.dst = info.dstIp ∧
        swap16 udp.sport = info.srcPort ∧ swap16 udp.dport = info.dstPort := by
  have hfour := ip.hl.isLt
  by_cases h5 : ip.hl = 5
  · have hread := udpParser_headers ip udp [] kUdpIpLen h5 (Int.le_refl _)
    rw [List.append_nil] at hread
    rw [hread]
    cases info
    simp only [h5, true_and, Prod.mk.injEq, Option.some.injEq, TransInfo.mk.injEq]
  · -- With another header length, the length returned is another one.
    have hne : ip.hl.toNat ≠ 5 := fun hc => h5 (BitVec.eq_of_toNat_eq hc)
    have hhl := hl_store ip udp []
    rw [List.append_nil] at hhl
    unfold udpParser kUdpIpLen kIpHeaderLen kUdpHeaderLen
    rw [if_neg (by decide)]
    simp only [hhl, h5, false_and, iff_false]
    split
    · exact fun hc => absurd (congrArg Prod.snd hc) (by simp only [reduceCtorEq,
        not_false_eq_true])
    · intro hc
      have hret := congrArg Prod.fst hc
      simp only [] at hret
      omega

/-- The headers fit their packet exactly when the lengths given to
    `generateHeader` do and the packer holds the addresses and ports. -/
theorem describes_generateHeader_iff (q : UdpPacker) (packLen : Int) (n : Nat)
    (info : TransInfo) :
    Describes (q.generateHeader packLen).2.1 n info ↔
      (BitVec.ofInt 16 (kUdpIpLen + packLen)).toNat = kUdpIpLen + n ∧
        (BitVec.ofInt 16 (kUdpHeaderLen + packLen)).toNat = kUdpHeaderLen + n ∧
        q.Holds info := by
  have htotal : swap16 (load16 (q.generateHeader packLen).2.1 2) =
      BitVec.ofInt 16 (kUdpIpLen + packLen) := by
    have h : load16 (q.generateHeader packLen).2.1 2 =
        swap16 (BitVec.ofInt 16 (kUdpIpLen + packLen)) := word16_bytes _
    rw [h, swap16_swap16]
  have hulen : swap16 (load16 (q.generateHeader packLen).2.1 24) =
      BitVec.ofInt 16 (kUdpHeaderLen + packLen) := by
    have h : load16 (q.generateHeader packLen).2.1 24 =
        swap16 (BitVec.ofInt 16 (kUdpHeaderLen + packLen)) := word16_bytes _
    rw [h, swap16_swap16]
  have hparsed := udpParser_store (q.generateHeader packLen).1.iphdr
    (q.generateHeader packLen).1.udphdr info
  -- Of the packer, only what is parsed matters; the lengths are the call's own.
  constructor
  · intro h
    exact ⟨htotal ▸ h.total_eq, hulen ▸ h.ulen_eq, hparsed.mp h.parsed⟩
  · rintro ⟨h1, h2, h3⟩
    exact ⟨htotal ▸ h1, hulen ▸ h2, hparsed.mpr h3⟩

end UdpPacker

end CodecChanger
