import CodecChanger.Core.Sc

/-!
# The Sequence Numbers `Recv` Reports

A sender numbers its packets; a receiver gets some of them, in some order, and
`Recv` is to report the number of each. It accepts them all. But it keeps the
header of the first packet and reports zero for it, and for every later packet
it reports the number in the header it keeps, which nothing replaces.

So what comes out is zero once and then the first packet's number over and over,
and the reports are right only when every number involved is zero. That can
happen: the counter is 24 bits wide and wraps, and a packet may be delivered
twice or alone.

## Main definitions

* `Payload`: What one packet carries.
* `packets`: The packets of a sender.
* `received`: What `Recv` answers to packet after packet.
* `Reports`: Every packet is accepted and reported with its own number.

## Theorems

* `packets_get`: A packet carries the number of its place.
* `received_later`: Behind the first packet, every answer is the same.
* `received_first`: What `Recv` answers to a delivery.
* `reports_iff`: The exact condition for the reports to be right.
-/

namespace CodecChanger

open Bytes

namespace SC

/-- What one packet carries: bytes whose number fits the `uint16_t` of `Send`. -/
abbrev Payload := { l : List Byte // l.length < 2 ^ 16 }

/-- The packets a sender makes of the payloads: for each, the twelve bytes in
    front of it are filled in by `Send`. -/
def packets (q : SC) : List Payload → List (List Byte)
  | [] => []
  | p :: ps =>
      let (q', packet, _) := q.send (BitVec.ofNat 16 p.1.length)
        (List.replicate kSCHeadSize 0 ++ p.1) kSCHeadSize
      packet :: packets q' ps

/-- What `Recv` returns and reports for packet after packet, each passed with its
    length and the variable for the number holding `sn`. -/
def received (q : SC) (sn : BitVec 32) : List (List Byte) → List (Int × BitVec 32)
  | [] => []
  | data :: l =>
      let (q', ret, out) := q.recv data data.length sn
      (ret, out) :: received q' sn l

/-- Packet `k` of the sender `q`, counted from zero. -/
def packet (q : SC) (payloads : List Payload) (k : Fin payloads.length) : List Byte :=
  (packets q payloads).getD k []

/-- The number packet `k` carries. The first packet is numbered one more than
    the sender was set up with. -/
def number (sn₀ : Nat) (k : Nat) : BitVec 32 := BitVec.ofNat 32 ((sn₀ + (k + 1)) % 2 ^ 24)

/-- The packets of the sender that reach the receiver are all accepted, and each
    is reported with its own number. -/
def Reports (sender receiver : SC) (sn₀ sn : BitVec 32) (payloads : List Payload)
    (order : List (Fin payloads.length)) : Prop :=
  received receiver sn (order.map (packet sender payloads)) =
    order.map fun k : Fin payloads.length => ((kSCHeadSize : Int), number sn₀.toNat k.1)

/-- A packet of this direction and number, and of the length it says. -/
def Carries (forward : Byte) (number : BitVec 32) (data : List Byte) : Prop :=
  ∃ h, scCopyFromNet (SCHeader.load data) = h ∧ getScForward h = forward ∧ getScSn h = number ∧
    data.length = kSCHeadSize + h.length.toNat

theorem toNat_number (sn₀ k : Nat) : (number sn₀ k).toNat = (sn₀ + (k + 1)) % 2 ^ 24 := by
  rw [number, BitVec.toNat_ofNat]
  omega

theorem number_eq_zero_iff (sn₀ k : Nat) :
    number sn₀ k = 0 ↔ (sn₀ + (k + 1)) % 2 ^ 24 = 0 := by
  rw [← toNat_number, ← BitVec.toNat_inj]
  exact Iff.rfl

/-- Packet `k` of a sender carries the sender's direction, the number of its
    place and its own length. -/
theorem packets_get (forward : Byte) (payloads : List Payload) (q : SC) (sn₀ k : Nat)
    (hf : getScForward q.sendHeader = forward)
    (hs : (getScSn q.sendHeader).toNat = sn₀ % 2 ^ 24) (hk : k < payloads.length) :
    Carries forward (number sn₀ k) ((packets q payloads).getD k []) := by
  induction payloads generalizing q sn₀ k with
  | nil => exact absurd hk (Nat.not_lt_zero k)
  | cons p ps ih =>
      rcases send_of_room q (BitVec.ofNat 16 p.1.length) (List.replicate kSCHeadSize 0 ++ p.1)
        kSCHeadSize (le_refl _) with ⟨h, hsend, hlen, hfw, hsn⟩
      have hdrop : (List.replicate kSCHeadSize (0 : Byte) ++ p.1).drop kSCHeadSize = p.1 := rfl
      rw [hdrop] at hsend
      simp only [packets, hsend]
      cases k with
      | zero =>
          refine ⟨h, ?_, hfw.trans hf, ?_, ?_⟩
          · rw [List.getD_cons_zero, load_store, scCopyFromNet_scCopyToNet]
          · rw [← BitVec.toNat_inj, hsn, hs, toNat_number]
            omega
          · have hfits := p.2
            rw [List.getD_cons_zero, List.length_append, length_store, hlen, BitVec.toNat_ofNat,
              Nat.mod_eq_of_lt hfits]
      | succ k =>
          -- The next packets are those of a sender one number further on.
          have hrest := ih { q with sendHeader := h } (sn₀ + 1) k (hfw.trans hf)
            (by rw [hsn, hs]; omega) (Nat.lt_of_succ_lt_succ hk)
          have hnum : number (sn₀ + 1) k = number sn₀ (k + 1) := by
            rw [number, number, show sn₀ + 1 + (k + 1) = sn₀ + (k + 1 + 1) by omega]
          rw [List.getD_cons_succ, ← hnum]
          exact hrest

/-- Once it has its first packet, a receiver answers every packet of the same
    direction with the number of the first. -/
theorem received_later (q : SC) (sn : BitVec 32) (l : List (List Byte))
    (hf : q.firstPack = false)
    (hl : ∀ data ∈ l, ∃ n, Carries (getScForward q.recvHeader) n data) :
    received q sn l = l.map fun _ => ((kSCHeadSize : Int), getScSn q.recvHeader) := by
  induction l with
  | nil => rfl
  | cons data l ih =>
      rcases hl data List.mem_cons_self with ⟨n, h, hd, hw, -, hlen⟩
      have hrecv := recv_later q data data.length sn h hd (by omega) hf hw
      unfold received
      simp only [hrecv, List.map_cons]
      rw [ih fun d hd => hl d (List.mem_cons_of_mem data hd)]

/-- A receiver that waits for its first packet answers it with zero, and the
    others with the number of the first. -/
theorem received_first (q : SC) (sn : BitVec 32) (forward : Byte) (n : BitVec 32)
    (data : List Byte) (l : List (List Byte)) (hf : q.firstPack = true)
    (hd : Carries forward n data) (hl : ∀ d ∈ l, ∃ n, Carries forward n d) :
    received q sn (data :: l) =
      ((kSCHeadSize : Int), (0 : BitVec 32)) :: l.map fun _ => ((kSCHeadSize : Int), n) := by
  rcases hd with ⟨h, hload, hw, hn, hlen⟩
  have hrecv := recv_first q data data.length sn h hload (by omega) hf
  unfold received
  simp only [hrecv]
  rw [received_later _ sn l rfl (by rw [hw]; exact hl), hn]

/-- The packets of a sender that reach a receiver are accepted and reported with
    their own numbers exactly when those numbers are all zero. -/
theorem reports_iff (sender receiver : SC) (ueid ueid' : BitVec 32)
    (forward forward' : Transforward) (sn₀ sn₁ sn : BitVec 32) (payloads : List Payload)
    (order : List (Fin payloads.length)) :
    Reports (sender.init ueid forward sn₀) (receiver.init ueid' forward' sn₁) sn₀ sn payloads
        order ↔
      ∀ k ∈ order, (sn₀.toNat + (k + 1)) % 2 ^ 24 = 0 := by
  have hcarries : ∀ k : Fin payloads.length, Carries forward.value (number sn₀.toNat k)
      (packet (sender.init ueid forward sn₀) payloads k) := by
    intro k
    refine packets_get forward.value payloads _ sn₀.toNat k ?_ ?_ k.2
    · unfold init
      simp only []
      rw [getScForward_setScSn, getScForward_setScForward]
    · exact toNat_getScSn_setScSn _ sn₀
  unfold Reports
  cases order with
  | nil => exact iff_of_true rfl fun k hk => absurd hk List.not_mem_nil
  | cons k ks =>
      rw [List.map_cons, received_first _ sn forward.value (number sn₀.toNat k) _ _ rfl
        (hcarries k) fun d hd => ?_]
      · simp only [List.map_map, List.map_cons, List.cons.injEq, Prod.mk.injEq, true_and,
          List.forall_mem_cons, ← number_eq_zero_iff]
        constructor
        · rintro ⟨hzero, hrest⟩
          refine ⟨hzero.symm, fun j hj => ?_⟩
          have := (List.map_inj_left.mp hrest) j hj
          simp only [Function.comp_apply, Prod.mk.injEq, true_and] at this
          rw [← this, ← hzero]
        · rintro ⟨hzero, hrest⟩
          refine ⟨hzero.symm, List.map_congr_left fun j hj => ?_⟩
          simp only [Function.comp_apply, hzero, hrest j hj]
      · rcases List.mem_map.mp hd with ⟨j, -, rfl⟩
        exact ⟨_, hcarries j⟩

/-- The first packet of a sender set up with number 5 is number 6, and reported as
    number 0. -/
theorem reports_fails :
    let q : SC := ⟨SCHeader.zero, SCHeader.zero, false⟩
    ¬ Reports (q.init 1 .to4G 5) (q.init 1 .to4G 0) 5 0 [⟨[], by decide⟩] [0] := by
  unfold Reports
  decide +kernel

end SC

end CodecChanger
