import CodecChanger.Theory.Udp.Addresses
import CodecChanger.Theory.Udp.Checksum

/-!
# Parsing Headers

What `UdpParser` makes of the headers that `GenerateHeader` writes, and of any others.

A packer that was set up holds two addresses and two ports, and every header it
writes has them. The parser gives them back, whatever the packet is in the run and
whatever is in it: the length of the IP header is five words, so that the UDP header
is where the packer put it. The identification counts the packets. It is kept in
network order and is turned round twice for each of them.

Of other headers the parser takes any length up to the end of the buffer. It asks for
28 bytes and for room behind the IP header, but not for an IP header of five words at
least. With less than that the ports are read from the IP header itself.

## Main definitions

* `UdpPacker.packet`: A buffer with the headers in front.
* `ihl`: The header length field.
* `AcceptsWellFormed`: Only well-formed header lengths are accepted.

## Theorems

* `setIpPort_cases`: What a packer that was set up holds.
* `holds_generated`, `id_generated`: What a run does to a packer.
* `udpParser_generated`: Parsing gives back what was packed.
* `udpParser_eq`: What the parser makes of any buffer.
* `acceptsWellFormed_iff`: When the parser accepts well-formed lengths only.
-/

namespace CodecChanger

open Bytes

namespace UdpPacker

/-- The buffer after `GenerateHeader`, which writes to its first 28 bytes. -/
def packet (q : UdpPacker) (packLen : Int) (buff : List Byte) : List Byte :=
  (q.generateHeader packLen).2.1 ++ buff.drop kUdpIpLen

/-- Where `SetIpPort` succeeds both addresses are addresses, and the packer holds
    them, the ports, and the number zero. -/
theorem setIpPort_cases (q q₀ : UdpPacker) (srcIp dstIp : List Char)
    (srcPort dstPort : BitVec 16)
    (h : q.setIpPort srcIp srcPort dstIp dstPort = (q₀, 0)) :
    ∃ info : TransInfo, q₀.Holds info ∧ IsAddress srcIp info.srcIp.toNat ∧
      IsAddress dstIp info.dstIp.toNat ∧ info.srcPort = srcPort ∧ info.dstPort = dstPort ∧
      q₀.iphdr.id = 0 := by
  unfold setIpPort at h
  simp only [] at h
  rcases hsrc : inetPton srcIp with _ | src
  · rw [hsrc] at h
    have hret : (-1 : Int) = 0 := congrArg Prod.snd h
    omega
  · rcases hdst : inetPton dstIp with _ | dst
    · rw [hsrc, hdst] at h
      have hret : (-1 : Int) = 0 := congrArg Prod.snd h
      omega
    · rw [hsrc, hdst] at h
      have hq := congrArg Prod.fst h
      simp only [] at hq
      refine ⟨⟨swap32 src, swap32 dst, srcPort, dstPort⟩, ?_, inetPton_dotted srcIp src hsrc,
        inetPton_dotted dstIp dst hdst, rfl, rfl, ?_⟩
      · rw [← hq]
        exact ⟨rfl, rfl, rfl, swap16_swap16 srcPort, swap16_swap16 dstPort⟩
      · rw [← hq]
        rfl

/-- A run of headers changes nothing of what the packer holds. -/
theorem holds_generated (q : UdpPacker) (packLens : List Int) (info : TransInfo)
    (h : q.Holds info) : (q.generated packLens).Holds info :=
  Trace.run_invariant _ (fun q => q.Holds info)
    (fun q packLen hq => (holds_generateHeader_iff q packLen info).mpr hq) packLens q h

/-- The identification, in host order, counts the headers. -/
theorem id_generated (q : UdpPacker) (packLens : List Int) :
    swap16 (q.generated packLens).iphdr.id =
      swap16 q.iphdr.id + BitVec.ofNat 16 packLens.length := by
  induction packLens generalizing q with
  | nil => exact (BitVec.add_zero _).symm
  | cons packLen packLens ih =>
      -- The field is turned round before it is counted and after, so in host order it
      -- is counted by one.
      have hstep : (q.generated (packLen :: packLens)).iphdr.id =
          ((q.generateHeader packLen).1.generated packLens).iphdr.id := rfl
      have hid : swap16 (q.generateHeader packLen).1.iphdr.id = swap16 q.iphdr.id + 1 :=
        swap16_swap16 _
      rw [hstep, ih, hid, List.length_cons, BitVec.add_assoc, Nat.add_comm, BitVec.ofNat_add]
      rfl

/-- The words of a header in front of a buffer. -/
theorem load16_packet (q : UdpPacker) (packLen : Int) (buff : List Byte) (i : Nat)
    (hi : i + 2 ≤ kUdpIpLen) :
    load16 (q.packet packLen buff) i = load16 (q.generateHeader packLen).2.1 i := by
  have hfront : (q.packet packLen buff).take kUdpIpLen = (q.generateHeader packLen).2.1 :=
    List.take_left' (length_generateHeader q packLen)
  rw [← hfront, load16_take _ _ _ hi]

/-- Parsing a packet gives what its packer holds. -/
theorem udpParser_packet (q : UdpPacker) (packLen len : Int) (buff : List Byte)
    (info : TransInfo) (h : q.Holds info) (hlen : kUdpIpLen ≤ len) :
    udpParser (q.packet packLen buff) len = ((kUdpIpLen : Int), some info) := by
  rcases h with ⟨hhl, hsrc, hdst, hsport, hdport⟩
  have hread := udpParser_headers (q.generateHeader packLen).1.iphdr
    (q.generateHeader packLen).1.udphdr (buff.drop kUdpIpLen) len hhl hlen
  rw [show (q.generateHeader packLen).1.iphdr.src = q.iphdr.src from rfl,
    show (q.generateHeader packLen).1.iphdr.dst = q.iphdr.dst from rfl,
    show (q.generateHeader packLen).1.udphdr.sport = q.udphdr.sport from rfl,
    show (q.generateHeader packLen).1.udphdr.dport = q.udphdr.dport from rfl,
    hsrc, hdst, hsport, hdport] at hread
  exact hread

/-- Parsing a packet of a run gives back the addresses and ports the packer was set up
    with. Its lengths are those of the buffer, it has its number in the run, and the
    buffer behind the headers is left alone. -/
theorem udpParser_generated (q q₀ : UdpPacker) (srcIp dstIp : List Char)
    (srcPort dstPort : BitVec 16) (earlier : List Int) (packLen : Int) (buff : List Byte)
    (hset : q.setIpPort srcIp srcPort dstIp dstPort = (q₀, 0)) (hpos : 0 ≤ packLen)
    (hle : packLen ≤ 65507) (hbuff : buff.length = packLen + kUdpIpLen) :
    ((q₀.generated earlier).generateHeader packLen).2.2 = kUdpIpLen ∧
    (∃ info, udpParser ((q₀.generated earlier).packet packLen buff) (packLen + kUdpIpLen) =
        (28, some info) ∧
      IsAddress srcIp info.srcIp.toNat ∧ IsAddress dstIp info.dstIp.toNat ∧
        info.srcPort = srcPort ∧ info.dstPort = dstPort) ∧
    (swap16 (load16 ((q₀.generated earlier).packet packLen buff) 2)).toNat = 28 + packLen ∧
    (swap16 (load16 ((q₀.generated earlier).packet packLen buff) 24)).toNat = 8 + packLen ∧
    (swap16 (load16 ((q₀.generated earlier).packet packLen buff) 4)).toNat =
      (earlier.length + 1) % 2 ^ 16 ∧
    ((q₀.generated earlier).packet packLen buff).drop 28 = buff.drop 28 ∧
    ((q₀.generated earlier).packet packLen buff).length = buff.length := by
  rcases setIpPort_cases q q₀ srcIp dstIp srcPort dstPort hset with
    ⟨info, hholds, hsrc, hdst, hsport, hdport, hid⟩
  have hkept := holds_generated q₀ earlier info hholds
  have hcount : swap16 (q₀.generated earlier).iphdr.id = BitVec.ofNat 16 earlier.length := by
    rw [id_generated, hid]
    exact BitVec.zero_add _
  -- Of the run only the addresses and the number are still needed.
  generalize q₀.generated earlier = p at hkept hcount
  have hdescribes := (describes_generateHeader_iff p packLen packLen.toNat info).mpr
    ⟨by rw [BitVec.toNat_ofInt]; unfold kUdpIpLen kIpHeaderLen kUdpHeaderLen; omega,
      by rw [BitVec.toNat_ofInt]; unfold kUdpHeaderLen; omega, hkept⟩
  have htotal := hdescribes.total_eq
  have hulen := hdescribes.ulen_eq
  have hlen := length_generateHeader p packLen
  rw [load16_packet p packLen buff 2 (by decide), load16_packet p packLen buff 24 (by decide),
    load16_packet p packLen buff 4 (by decide)]
  unfold kUdpIpLen kIpHeaderLen kUdpHeaderLen at htotal hlen hbuff
  unfold kUdpHeaderLen at hulen
  refine ⟨rfl, ⟨info, ?_, hsrc, hdst, hsport, hdport⟩, by omega, by omega, ?_, ?_, ?_⟩
  · exact udpParser_packet p packLen _ buff info hkept (by omega)
  · have hid' : load16 (p.generateHeader packLen).2.1 4 = swap16 (swap16 p.iphdr.id + 1) :=
      word16_bytes _
    rw [hid', swap16_swap16, hcount, BitVec.toNat_add, BitVec.toNat_ofNat, Nat.mod_add_mod]
    rfl
  · unfold packet
    exact List.drop_left' hlen
  · unfold packet kUdpIpLen kIpHeaderLen kUdpHeaderLen
    rw [List.length_append, List.length_drop, hlen]
    omega

/-- A packer that was set up. -/
def setUp : UdpPacker :=
  (setIpPort ⟨Ip.zero, Udphdr.zero⟩ ['1', '.', '2', '.', '3', '.', '4'] 5060
    ['5', '.', '6', '.', '7', '.', '8'] 5062).1

/-- The second packet of a run. -/
theorem udpParser_generated_second :
    (∃ info, udpParser ((setUp.generated [160]).packet 2 (List.replicate 30 7)) (2 + kUdpIpLen) =
        (28, some info) ∧
      IsAddress ['1', '.', '2', '.', '3', '.', '4'] info.srcIp.toNat ∧
        IsAddress ['5', '.', '6', '.', '7', '.', '8'] info.dstIp.toNat ∧
        info.srcPort = 5060 ∧ info.dstPort = 5062) ∧
    (swap16 (load16 ((setUp.generated [160]).packet 2 (List.replicate 30 7)) 4)).toNat =
      (1 + 1) % 2 ^ 16 :=
  have h := udpParser_generated ⟨Ip.zero, Udphdr.zero⟩ setUp ['1', '.', '2', '.', '3', '.', '4']
    ['5', '.', '6', '.', '7', '.', '8'] 5060 5062 [160] 2 (List.replicate 30 7)
    (by decide +kernel) (by decide) (by decide) rfl
  ⟨h.2.1, h.2.2.2.2.1⟩

end UdpPacker

/-- `ip_hl`, the low half of the first byte. -/
def ihl (buff : List Byte) : Nat := ((buff.getD 0 0).extractLsb' 0 4).toNat

/-- What the parser accepts has an IP header of five words at least, both headers are
    in the buffer, their length is returned, and the ports are read behind the IP
    header. Every other buffer is rejected. -/
def AcceptsWellFormed (buff : List Byte) (len : Int) : Prop :=
  (0 ≤ (udpParser buff len).1 →
    5 ≤ ihl buff ∧ (udpParser buff len).1 = 4 * ihl buff + 8 ∧
      28 ≤ (udpParser buff len).1 ∧ (udpParser buff len).1 ≤ len ∧
      ∃ info, (udpParser buff len).2 = some info ∧
        info.srcPort = swap16 (load16 buff (4 * ihl buff)) ∧
        info.dstPort = swap16 (load16 buff (4 * ihl buff + 2))) ∧
  (¬ (5 ≤ ihl buff ∧ 4 * ihl buff + 8 ≤ len) → (udpParser buff len).1 = -1)

/-- What the parser does: with room for the shortest headers and for the UDP header
    behind the IP header, it accepts. -/
theorem udpParser_eq (buff : List Byte) (len : Int) :
    udpParser buff len =
      if 28 ≤ len ∧ 4 * ihl buff + 8 ≤ len then
        (((4 * ihl buff + 8 : Nat) : Int), some {
          srcIp := swap32 (load32 buff 12)
          dstIp := swap32 (load32 buff 16)
          srcPort := swap16 (load16 buff (4 * ihl buff))
          dstPort := swap16 (load16 buff (4 * ihl buff + 2)) })
      else (-1, none) := by
  have hlt := ((buff.getD 0 0).extractLsb' 0 4).isLt
  unfold udpParser ihl kUdpHeaderLen kIpHeaderLen
  simp only []
  by_cases hlen : 28 ≤ len
  · rw [if_neg (by omega)]
    by_cases hroom : ((4 * ((buff.getD 0 0).extractLsb' 0 4).toNat + 8 : Nat) : Int) ≤ len
    · rw [if_neg (by omega), if_pos ⟨hlen, by omega⟩]
      rfl
    · rw [if_pos (by omega), if_neg (by omega)]
  · rw [if_pos (by omega), if_neg (by omega)]

/-- The parser accepts well-formed header lengths only, exactly when the buffer is too
    short anyway or the IP header has five words at least. -/
theorem acceptsWellFormed_iff (buff : List Byte) (len : Int) :
    AcceptsWellFormed buff len ↔ len < 28 ∨ 5 ≤ ihl buff := by
  unfold AcceptsWellFormed
  rw [udpParser_eq]
  constructor
  · intro h
    by_contra hc
    -- Less than five words leave room for the UDP header in any 28 bytes.
    have hlt : ihl buff < 5 := by omega
    rw [if_pos ⟨by omega, by omega⟩] at h
    have hwords := (h.1 (Int.natCast_nonneg _)).1
    omega
  · intro h
    by_cases haccept : 28 ≤ len ∧ 4 * ihl buff + 8 ≤ len
    · have hfive : 5 ≤ ihl buff := by omega
      rw [if_pos haccept]
      refine ⟨fun _ => ⟨hfive, ?_, ?_, ?_, _, rfl, rfl, rfl⟩, fun hc => absurd ?_ hc⟩
      · push_cast
        rfl
      · simp only []
        omega
      · simp only []
        omega
      · exact ⟨hfive, haccept.2⟩
    · rw [if_neg haccept]
      refine ⟨fun hneg => ?_, fun _ => rfl⟩
      simp only [] at hneg
      omega

/-- Twenty-eight zeros: the ports are read from the first four of them. -/
theorem acceptsWellFormed_fails :
    (udpParser (List.replicate 28 0) 28).1 = 8 ∧
      ¬ AcceptsWellFormed (List.replicate 28 0) 28 := by
  have hret : (udpParser (List.replicate 28 0) 28).1 = 8 := by decide +kernel
  refine ⟨hret, fun h => ?_⟩
  have hlong := (h.1 (by rw [hret]; decide)).2.2.1
  rw [hret] at hlong
  omega

end CodecChanger
