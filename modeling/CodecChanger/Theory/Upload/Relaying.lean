import CodecChanger.Theory.Download.Posting
import CodecChanger.Theory.Upload.Latch

/-!
# From a Download Session to an Upload Session

The other end of what a download session posts: an upload session takes the SC header off
every packet that arrives. Of the packets in the network some are lost, and others come more
than once and in another order. None of this makes a packet unacceptable: the length in a
header is that of the payload behind it, and the direction is the same in all of them. So the
payloads that the encoder made come out in the order of the arrivals, and the session's own
sender goes on with the UEID of the download session and with the number of the packet that
happened to arrive first.

## Main definitions

* `SC.hosted`: The header of a packet, in host order.
* `UploadSession.strip`: `UnPak`, and what lies behind the header.
* `UploadSession.Listening`: A session that has had a packet.

## Theorems

* `headerOf_wire`, `wellFormed_wire`: A packet as it arrives.
* `strip_first`, `strip_later`: What the session does with it.
* `strips_later`: What it does with any number of packets.
* `packet_arrives`: One of the packets that were posted.
* `unpacks_posted`: What comes of a run of a download session.
-/

namespace CodecChanger

open Bytes

variable {χ ψ : Type*}

/-- The header of a packet, in host order. -/
def SC.hosted (ueid : BitVec 32) (forward : Transforward) (n : Nat) (payloadLength : BitVec 16) :
    SCHeader :=
  setScSn (setScForward { SCHeader.zero with ueid := ueid, length := payloadLength } forward.value)
    (BitVec.ofNat 32 n)

theorem SC.getScForward_hosted (ueid : BitVec 32) (forward : Transforward) (n : Nat)
    (payloadLength : BitVec 16) :
    getScForward (SC.hosted ueid forward n payloadLength) = forward.value := by
  rw [SC.hosted, getScForward_setScSn, getScForward_setScForward]

theorem SC.toNat_getScSn_hosted (ueid : BitVec 32) (forward : Transforward) (n : Nat)
    (payloadLength : BitVec 16) :
    (getScSn (SC.hosted ueid forward n payloadLength)).toNat = n % 2 ^ 24 := by
  rw [SC.hosted, toNat_getScSn_setScSn, BitVec.toNat_ofNat]
  omega

/-- The header on the wire is the one in host order, put in network order. -/
theorem SC.wire_eq (ueid : BitVec 32) (forward : Transforward) (n : Nat)
    (payloadLength : BitVec 16) :
    SC.wire ueid forward (n % 2 ^ 24) payloadLength =
      (scCopyToNet (SC.hosted ueid forward n payloadLength)).store := by
  have hueid : (SC.hosted ueid forward n payloadLength).ueid = ueid := rfl
  have hlength : (SC.hosted ueid forward n payloadLength).length = payloadLength := rfl
  have hrev : (SC.hosted ueid forward n payloadLength).rev = 0 := rfl
  rw [store_scCopyToNet, SC.getScForward_hosted, SC.toNat_getScSn_hosted, hueid, hlength, hrev]
  rfl

namespace UploadSession

/-- `UnPak`, and what lies behind the header that it has found. -/
def strip (sc : BitVec 32) (s : UploadSession χ) (data : List Byte) :
    UploadSession χ × (Int × List Byte) :=
  let (s', headLen, _) := s.unPak data data.length sc
  (s', headLen, data.drop headLen.toNat)

/-- The session has had a packet, of this direction. -/
structure Listening (forward : Byte) (s : UploadSession χ) : Prop where
  firstPack_eq : s.firstPack = false
  latched : s.scRecv.firstPack = false
  forward_eq : getScForward s.scRecv.recvHeader = forward

/-- The header that a packet starts with. -/
theorem headerOf_wire (ueid : BitVec 32) (forward : Transforward) (n : Nat)
    (payloadLength : BitVec 16) (payload : List Byte) :
    headerOf (SC.wire ueid forward (n % 2 ^ 24) payloadLength ++ payload) =
      SC.hosted ueid forward n payloadLength := by
  rw [headerOf, SC.wire_eq, load_store, scCopyFromNet_scCopyToNet]

/-- A packet is as long as its header says. -/
theorem wellFormed_wire (ueid : BitVec 32) (forward : Transforward) (n : Nat)
    (payload : List Byte) (h : payload.length < 2 ^ 16) :
    WellFormed (SC.wire ueid forward (n % 2 ^ 24) (BitVec.ofNat 16 payload.length) ++ payload) := by
  have hlength : (SC.hosted ueid forward n (BitVec.ofNat 16 payload.length)).length.toNat =
      payload.length := by
    change (BitVec.ofNat 16 payload.length).toNat = _
    rw [BitVec.toNat_ofNat, Nat.mod_eq_of_lt h]
  unfold WellFormed
  rw [headerOf_wire, hlength, SC.wire_eq, List.length_append, length_store]
  exact ⟨Nat.le_add_right _ _, rfl⟩

variable (sc : BitVec 32) (s : UploadSession χ) (data : List Byte)

/-- The length as `Recv` compares it. -/
theorem length_wellFormed (hwell : WellFormed data) :
    (data.length : Int) = kSCHeadSize + (headerOf data).length.toNat := by
  have hlength := hwell.2
  omega

/-- The first packet is latched, and sets the session's sender up. -/
theorem strip_first (hs : s.firstPack = true) (hr : s.scRecv.firstPack = true)
    (hwell : WellFormed data) :
    (strip sc s data).2 = ((kSCHeadSize : Int), data.drop kSCHeadSize) ∧
      Listening (getScForward (headerOf data)) (strip sc s data).1 ∧
      (strip sc s data).1.scSend =
        s.scSend.init (headerOf data).ueid .to4G (getScSn (headerOf data)) := by
  have hrecv := SC.recv_first s.scRecv data data.length sc (headerOf data) rfl
    (length_wellFormed data hwell) hr
  have hsender := (setUpBy_of_wellFormed sc s data hs hr hwell).2
  rw [← and_assoc]
  refine ⟨?_, hsender⟩
  unfold strip unPak
  rw [hrecv]
  simp only [hs, if_true]
  rw [if_neg (by omega)]
  exact ⟨rfl, rfl, rfl, rfl⟩

/-- Any other packet of the same direction changes nothing. -/
theorem strip_later (forward : Byte) (h : Listening forward s) (hwell : WellFormed data)
    (hf : getScForward (headerOf data) = forward) :
    (strip sc s data).2 = ((kSCHeadSize : Int), data.drop kSCHeadSize) ∧
      (strip sc s data).1 = s := by
  have hrecv := SC.recv_later s.scRecv data data.length sc (headerOf data) rfl
    (length_wellFormed data hwell) h.latched (hf.trans h.forward_eq.symm)
  unfold strip unPak
  rw [hrecv]
  simp only [h.firstPack_eq, Bool.false_eq_true, if_false]
  rw [if_neg (by omega)]
  refine ⟨rfl, ?_⟩
  rw [← h.firstPack_eq]

/-- Nor do any number of packets. -/
theorem strips_later (forward : Byte) (h : Listening forward s) (l : List (List Byte))
    (hl : ∀ data ∈ l, WellFormed data ∧ getScForward (headerOf data) = forward) :
    Trace.answers (strip sc) s l =
        l.map (fun data => ((kSCHeadSize : Int), data.drop kSCHeadSize)) ∧
      Trace.run (fun s data => (strip sc s data).1) s l = s := by
  induction l with
  | nil => exact ⟨rfl, rfl⟩
  | cons data l ih =>
      rcases hl data List.mem_cons_self with ⟨hwell, hf⟩
      rcases strip_later sc s data forward h hwell hf with ⟨hanswer, hstate⟩
      rcases ih fun d hd => hl d (List.mem_cons_of_mem data hd) with ⟨hanswers, hrun⟩
      refine ⟨?_, ?_⟩
      · rw [Trace.answers, hanswer, hstate, hanswers, List.map_cons]
      · change Trace.run (fun s data => (strip sc s data).1) (strip sc s data).1 l = s
        rw [hstate, hrun]

/-- `Init` leaves both latches to be released. -/
theorem latches_init (param : SessionParam) (env : Setup χ) :
    (s.init param env).1.firstPack = true ∧ (s.init param env).1.scRecv.firstPack = true := by
  unfold init
  simp only []
  split_ifs <;> exact ⟨rfl, rfl⟩

end UploadSession

/-- The loop's buffer has no room for a payload whose length a header could not say. -/
theorem DownloadSession.length_payload_lt (lib : CoderLib χ) (hk : lib.Keeps) (q : χ)
    (frames : List (List Byte)) (payload : List Byte)
    (h : payload ∈ DownloadSession.payloads lib q frames) : payload.length < 2 ^ 16 := by
  rcases List.mem_map.mp h with ⟨e, he, rfl⟩
  rcases List.mem_filter.mp he with ⟨hanswer, hret⟩
  rw [decide_eq_true_eq] at hret
  refine Trace.of_mem_answers _ (fun _ => True) (fun e => 0 ≤ e.ret → e.written.length < 2 ^ 16)
    frames (fun q b _ _ => ⟨trivial, fun hret => ?_⟩) q trivial e hanswer hret
  have heq := hk.ret_eq q b 960 _ hret
  have hle := hk.ret_le q b 960 _ hret
  have hroom : DownloadSession.payloadRoom = 65524 := rfl
  omega

namespace UploadSession

/-- One of the packets that carry these payloads, as it arrives. -/
theorem packet_arrives (ueid : BitVec 32) (forward : Transforward) (payloads : List (List Byte))
    (hlength : ∀ payload ∈ payloads, payload.length < 2 ^ 16) (i : Nat)
    (hi : i < payloads.length) :
    let data := (payloads.mapIdx fun i payload =>
      SC.wire ueid forward ((i + 1) % 2 ^ 24) (BitVec.ofNat 16 payload.length) ++
        payload).getD i []
    WellFormed data ∧
      headerOf data =
        SC.hosted ueid forward (i + 1) (BitVec.ofNat 16 (payloads.getD i []).length) ∧
      data.drop kSCHeadSize = payloads.getD i [] := by
  have hpayload : payloads.getD i [] = payloads[i] := by
    rw [List.getD_eq_getElem?_getD, List.getElem?_eq_getElem hi, Option.getD_some]
  have hmem : payloads[i] ∈ payloads := List.getElem_mem hi
  simp only []
  rw [hpayload, List.getD_eq_getElem?_getD, List.getElem?_mapIdx, List.getElem?_eq_getElem hi,
    Option.map_some, Option.getD_some]
  refine ⟨wellFormed_wire _ _ _ _ (hlength _ hmem), headerOf_wire _ _ _ _ _, ?_⟩
  rw [SC.wire_eq]
  exact List.drop_left' (length_store _)

/-- A download session is set up and runs its loop, and of the packets it posts some arrive at
    an upload session that was set up, any number of times and in any order. That accepts them
    all, and behind the headers it finds the payloads that were encoded. Its own sender goes on
    with the UEID of the download session and the number of the packet that arrived first. -/
theorem unpacks_posted (lib : CoderLib χ) (hk : lib.Keeps)
    (left : χ → Buffer kLoopBuffSize → Buffer kLoopBuffSize) (s₀ : DownloadSession χ)
    (param : SessionParam) (env : Setup χ) (codecBuff : Buffer kLoopBuffSize) (sendBuff : Memory)
    (l : List Arrival) (u₀ : UploadSession ψ) (param' : SessionParam) (env' : Setup ψ)
    (sc : BitVec 32) (order : List Nat) :
    let session := (s₀.init param env).1
    let s := Trace.run (LoopState.iteration (DownloadSession.calls lib left) 480)
      (LoopState.start session codecBuff sendBuff) l
    let payloads := DownloadSession.payloads lib session.encoder s.handed
    let u := (u₀.init param' env').1
    let arrivals := order.map fun i => s.posted.getD i []
    (∀ i ∈ order, i < s.posted.length) →
      Trace.answers (strip sc) u arrivals =
          order.map (fun i => ((kSCHeadSize : Int), payloads.getD i [])) ∧
        ∀ first ∈ order.head?, (Trace.run (fun u data => (strip sc u data).1) u arrivals).scSend =
          u.scSend.init param.ueid .to4G (BitVec.ofNat 32 ((first + 1) % 2 ^ 24)) := by
  intro session s payloads u arrivals horder
  have hposted := DownloadSession.posted_init lib hk s₀ param env s
    (DownloadSession.posted_run lib hk left session codecBuff sendBuff l).2
  have hpacket : ∀ i ∈ order, WellFormed (s.posted.getD i []) ∧
      headerOf (s.posted.getD i []) =
        SC.hosted param.ueid .to4G (i + 1) (BitVec.ofNat 16 (payloads.getD i []).length) ∧
      (s.posted.getD i []).drop kSCHeadSize = payloads.getD i [] := by
    intro i hi
    have hlt := horder i hi
    rw [hposted, List.length_mapIdx] at hlt
    rw [hposted]
    exact packet_arrives param.ueid .to4G payloads
      (DownloadSession.length_payload_lt lib hk _ _) i hlt
  rcases latches_init u₀ param' env' with ⟨hlatch, hrecv⟩
  cases order with
  | nil => exact ⟨rfl, fun first hfirst => absurd hfirst (by simp only [List.head?_nil,
      Option.mem_def, reduceCtorEq, not_false_eq_true])⟩
  | cons first rest =>
      rcases hpacket first List.mem_cons_self with ⟨hwell, hheader, hpayload⟩
      rcases strip_first sc u (s.posted.getD first []) hlatch hrecv hwell with
        ⟨hanswer, hlistening, hsender⟩
      have hsn : getScSn (SC.hosted param.ueid .to4G (first + 1)
          (BitVec.ofNat 16 (payloads.getD first []).length)) =
          BitVec.ofNat 32 ((first + 1) % 2 ^ 24) := by
        refine BitVec.eq_of_toNat_eq ?_
        rw [SC.toNat_getScSn_hosted, BitVec.toNat_ofNat]
        omega
      rw [hheader] at hlistening hsender
      rw [SC.getScForward_hosted] at hlistening
      have hrest : ∀ data ∈ rest.map fun i => s.posted.getD i [],
          WellFormed data ∧ getScForward (headerOf data) = Transforward.to4G.value := by
        intro data hdata
        rcases List.mem_map.mp hdata with ⟨i, hi, rfl⟩
        rcases hpacket i (List.mem_cons_of_mem first hi) with ⟨hw, hh, -⟩
        rw [hh, SC.getScForward_hosted]
        exact ⟨hw, rfl⟩
      rcases strips_later sc _ _ hlistening _ hrest with ⟨hanswers, hrun⟩
      refine ⟨?_, ?_⟩
      · change (strip sc u (s.posted.getD first [])).2 :: Trace.answers (strip sc) _ _ = _
        rw [hanswer, hanswers, List.map_map, List.map_cons, hpayload]
        refine congrArg _ (List.map_congr_left fun i hi => ?_)
        rw [Function.comp_apply, (hpacket i (List.mem_cons_of_mem first hi)).2.2]
      · intro first' hfirst
        rw [← Option.some.inj hfirst]
        change (Trace.run _ (strip sc u (s.posted.getD first [])).1 _).scSend = _
        rw [hrun, hsender, hsn]
        rfl

/-- A mu-law session posts one packet, which arrives twice. -/
theorem unpacks_posted_twice :
    let param := { loopParam with ifAddUdpip := false, ifSendSc := false }
    let sc : SC := ⟨SCHeader.zero, SCHeader.zero, true⟩
    let session := (DownloadSession.init ⟨sc, sc, param, .en .pcmU, .de .pcmU⟩ param
      DownloadSession.muLawSetup).1
    let s := Trace.run (LoopState.iteration (DownloadSession.calls g711 fun _ b => b) 480)
      (LoopState.start session ⟨List.replicate kLoopBuffSize 0, List.length_replicate⟩ fun _ => 0)
      [DownloadSession.spoken]
    let u := ((raw ⟨Ip.zero, Udphdr.zero⟩).init loopParam (answers 0)).1
    let payloads := DownloadSession.payloads g711 session.encoder s.handed
    s.posted.length = 1 ∧
      Trace.answers (strip 0) u ([0, 0].map fun i => s.posted.getD i []) =
        [0, 0].map (fun i => ((kSCHeadSize : Int), payloads.getD i [])) :=
  ⟨by decide +kernel,
    (unpacks_posted g711 g711_keeps (fun _ b => b) _ _ DownloadSession.muLawSetup _ _
      [DownloadSession.spoken] (raw ⟨Ip.zero, Udphdr.zero⟩) loopParam (answers 0) 0 [0, 0]
      (by decide +kernel)).1⟩

end UploadSession

end CodecChanger
