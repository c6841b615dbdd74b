import CodecChanger.Theory.Download.Layers
import CodecChanger.Theory.Download.Posting

/-!
# From Session to Session, Over Any Network

An upload session makes packets and a download session takes them in, and the network between
the two may lose packets, double them and put them in any order. Every packet that gets there
is taken, and the decoder is called with the payload that is in it. So the download session is
its decoder, fed with the payloads as they arrive.

The receiver keeps the direction of its first packet and rejects packets with another. All
packets of a sender have the same direction, so it does not matter which of them comes first,
nor whether the first one of the sender comes at all.

## Main definitions

* `UploadSession.post`, `UploadSession.posts`: What calls put on the wire.
* `UploadSession.Launched`: A sender that has been set up.
* `UploadSession.Sending`: What every call of the sender keeps.
* `UploadSession.Carries`: A packet of such a sender with its payload.
* `DownloadSession.Ready`: What every packet leaves the receiver in.

## Theorems

* `sending_call`: Every call keeps the sender what it is.
* `carries_post`: What a call puts on the wire.
* `recv_fresh`: What is kept of the first packet does not matter.
* `recv_carries`: A packet is taken, by any receiver that is ready.
* `recv_decodes`: The decoder is called with what is handed to it.
* `transmits`: Any run of both sides.
-/

namespace CodecChanger

open Bytes

variable {χ ψ : Type*}

namespace UploadSession

variable (lib : CoderLib χ) (s : UploadSession χ)

/-- What a call puts on the wire, if it does: the packet, and the payload that the encoder made
    for it. -/
def post : Call → Option (List Byte × List Byte)
  | .unPak _ _ _ => none
  | .send input len out outputLen =>
      if (s.send lib input len out outputLen).2.2 < 0 then none
      else some ((s.send lib input len out outputLen).2.1.read 0
          (s.send lib input len out outputLen).2.2.toNat,
        (encoded lib s input len outputLen).2.written)

/-- What the calls of a run put on the wire. -/
def posts (calls : List Call) : List (List Byte × List Byte) :=
  (Trace.answers (fun s c => (call lib s c, post lib s c)) s calls).filterMap id

/-- The room for the output is no more than the loop's buffer has. -/
def Call.InBuffer : Call → Prop
  | .unPak _ _ _ => True
  | .send _ _ _ outputLen => outputLen ≤ kLoopBuffSize

/-- The session is plain and has these parameters, and its SC layer, if it has one, has been
    set up and sends in this direction. -/
structure Sending (param : SessionParam) (forward : Byte) (s : UploadSession χ) : Prop where
  plain : s.Plain
  param_eq : s.param = param
  forward_eq : param.ifSendSc = true →
    s.firstPack = false ∧ getScForward s.scSend.sendHeader = forward

/-- The payload behind the headers of such a session. -/
def Carries (param : SessionParam) (forward : Byte) (a : List Byte × List Byte) : Prop :=
  ∃ s : UploadSession χ, Sending param forward s ∧ Fits s a.2.length ∧
    a.1 = head s a.2.length ++ a.2

/-- A sender that has been set up, as far as it has to be: its RTP session by `Init`, its SC
    layer, if it has one, by the first packet that came in. If it puts out IP headers, they are
    five words long; `SetIpPort` sees to that, and `Init` does not call it. -/
structure Launched (s : UploadSession χ) : Prop where
  rtp_eq : ∃ (q : RtpSession) (param : MediaParam) (sequenceNum : BitVec 16)
    (timestamp ssrc : BitVec 32), s.rtp = q.init param sequenceNum timestamp ssrc
  hl_eq : s.param.ifAddUdpip = true → s.udp.iphdr.hl = 5
  firstPack_eq : s.param.ifSendSc = true → s.firstPack = false

theorem sending_of_launched (h : s.Launched) :
    Sending s.param (getScForward s.scSend.sendHeader) s := by
  refine ⟨⟨?_, h.hl_eq⟩, rfl, fun hsc => ⟨h.firstPack_eq hsc, rfl⟩⟩
  rcases h.rtp_eq with ⟨q, param, sequenceNum, timestamp, ssrc, hrtp⟩
  rw [hrtp]
  exact RtpSession.plain_init q param sequenceNum timestamp ssrc

/-- Every call keeps that, for the SC layer is not set up again. -/
theorem sending_call (param : SessionParam) (forward : Byte) (c : Call)
    (h : Sending param forward s) : Sending param forward (s.call lib c) where
  plain := plain_call lib s c h.plain
  param_eq := (param_call lib s c).trans h.param_eq
  forward_eq hsc := by
    cases c with
    | unPak data len sc =>
        have hset := h.forward_eq hsc
        change (s.unPak data len sc).1.firstPack = false ∧
          getScForward (s.unPak data len sc).1.scSend.sendHeader = forward
        unfold unPak
        simp only [hset.1, Bool.false_eq_true, if_false]
        split
        · exact ⟨rfl, hset.2⟩
        · exact ⟨rfl, hset.2⟩
    | send input len out outputLen =>
        refine send_keeps lib s out (fun s' => s'.firstPack = false ∧
          getScForward s'.scSend.sendHeader = forward) (fun _ _ _ hs => hs)
          (fun s' pcmLen c hs => ⟨hs.1, ?_⟩) input len outputLen (h.forward_eq hsc)
        unfold packed
        simp only []
        split
        · exact (getScForward_setScSn _ _).trans hs.2
        · exact hs.2

/-- What a call puts on the wire carries its payload. -/
theorem carries_post (hk : lib.Keeps) (param : SessionParam) (forward : Byte) (c : Call)
    (hc : c.InBuffer) (h : Sending param forward s) (a : List Byte × List Byte)
    (ha : post lib s c = some a) : Carries (χ := χ) param forward a := by
  cases c with
  | unPak data len sc => exact absurd ha (by simp only [post, reduceCtorEq, not_false_eq_true])
  | send input len out outputLen =>
      simp only [post] at ha
      by_cases hneg : (s.send lib input len out outputLen).2.2 < 0
      · rw [if_pos hneg] at ha
        exact absurd ha (by simp only [reduceCtorEq, not_false_eq_true])
      · have hpacks := (send_nonneg_iff lib s out input len outputLen).mp (not_lt.mp hneg)
        rw [if_neg hneg, send_of_packs lib s out input len outputLen hpacks,
          Option.some.injEq] at ha
        have hret : (encoded lib s input len outputLen).2.ret =
            (encoded lib s input len outputLen).2.written.length := hk.ret_eq _ _ _ _ hpacks.2.2
        have hroom : (encoded lib s input len outputLen).2.ret ≤
            outputLen - rtpOffset s.param - kRtpHeaderSize := hk.ret_le _ _ _ _ hpacks.2.2
        simp only [hret] at ha hroom
        generalize (encoded lib s input len outputLen).2.written = payload at ha hroom
        have hbuffer : outputLen ≤ kLoopBuffSize := hc
        have hlength := length_head s payload.length
        have htoNat : (((head s payload.length).length : Int) + payload.length).toNat =
            (head s payload.length ++ payload).length := by
          rw [List.length_append]
          omega
        rw [htoNat, Memory.read_store_self] at ha
        rw [← ha]
        refine ⟨s, h, ⟨?_, fun hsc => ?_⟩, rfl⟩
        · change ((head s payload.length).length : Int) + payload.length < 2 ^ 31
          rw [hlength]
          unfold kLoopBuffSize at hbuffer
          push_cast
          omega
        · -- The SC header is not told its own length.
          have hoffset : rtpOffset s.param = kSCHeadSize + (udpIpHead s).length := by
            rw [rtpOffset, udpOffset, if_pos hsc, length_udpIpHead]
          change scLength s payload.length < 2 ^ 16
          unfold scLength
          unfold kLoopBuffSize at hbuffer
          unfold kSCHeadSize at hoffset
          omega

/-- So does all that a run puts there. -/
theorem carries_posts (hk : lib.Keeps) (param : SessionParam) (forward : Byte)
    (calls : List Call) (hc : ∀ c ∈ calls, c.InBuffer) (h : Sending param forward s)
    (a : List Byte × List Byte) (ha : a ∈ posts lib s calls) :
    Carries (χ := χ) param forward a := by
  rcases List.mem_filterMap.mp ha with ⟨o, ho, hoa⟩
  exact Trace.of_mem_answers (fun s c => (call lib s c, post lib s c)) (Sending param forward)
    (fun o => ∀ a, o = some a → Carries (χ := χ) param forward a) calls
    (fun s c hmem hs => ⟨sending_call lib s param forward c hs,
      carries_post lib s hk param forward c (hc c hmem) hs⟩) s h o ho a hoa

end UploadSession

namespace DownloadSession

open UploadSession

variable (lib : CoderLib ψ) (t : DownloadSession ψ) (data : List Byte) (n outputLength : Int)

/-- Every packet that has been taken had this direction. -/
def Ready (forward : Byte) (t : DownloadSession ψ) : Prop :=
  t.scRecv.firstPack = false → getScForward t.scRecv.recvHeader = forward

/-- A receiver that has had no packet is ready for any direction. -/
theorem ready_of_first (forward : Byte) (h : t.scRecv.firstPack = true) : Ready forward t := by
  intro hnot
  rw [h] at hnot
  exact absurd hnot (by simp only [reduceCtorEq, not_false_eq_true])

/-- A packet's direction, if the receiver looks at it. -/
def Heads (param : SessionParam) (forward : Byte) (data : List Byte) : Prop :=
  param.ifSendSc = true → getScForward (scCopyFromNet (SCHeader.load data)) = forward

/-- The inner layers do not look at the SC layer. -/
theorem recvUdpIp_scRecv (q : SC) (k : Nat) :
    ({ t with scRecv := q }.recvUdpIp lib data k n outputLength) =
      ({ (t.recvUdpIp lib data k n outputLength).1 with scRecv := q },
        (t.recvUdpIp lib data k n outputLength).2) := by
  have hrtp : ∀ k n, ({ t with scRecv := q }.recvRtp lib data k n outputLength) =
      ({ (t.recvRtp lib data k n outputLength).1 with scRecv := q },
        (t.recvRtp lib data k n outputLength).2) := by
    intro k n
    unfold recvRtp
    simp only []
    split
    · rfl
    · rfl
  unfold recvUdpIp
  simp only []
  split
  · split
    · rfl
    · rw [hrtp]
  · exact hrtp k n

/-- `Recv` with an SC layer, the layers taken apart. -/
theorem recv_of_sc (hsc : t.param.ifSendSc = true) :
    t.recv lib data n outputLength =
      if (t.scRecv.recv data n 0).2.1 < 0 then
        ({ t with scRecv := (t.scRecv.recv data n 0).1 },
          Received.failed.after 0 (SC.recvReach n))
      else
        ({ (t.recvUdpIp lib data kSCHeadSize (n - kSCHeadSize) outputLength).1 with
            scRecv := (t.scRecv.recv data n 0).1 },
          (t.recvUdpIp lib data kSCHeadSize (n - kSCHeadSize) outputLength).2.after 0
            (SC.recvReach n)) := by
  unfold recv
  simp only []
  rw [if_pos hsc, recvUdpIp_scRecv lib t]
  split
  · rfl
  · rfl

/-- A packet in the direction of the first one is taken as if it were the first. -/
theorem recv_fresh (forward : Byte) (hready : Ready forward t)
    (hheads : Heads t.param forward data) :
    (t.recv lib data n outputLength).2 =
      ({ t with scRecv := { t.scRecv with firstPack := true } }.recv lib data n
        outputLength).2 := by
  by_cases hsc : t.param.ifSendSc = true
  · have hret : (t.scRecv.recv data n 0).2.1 =
        (SC.recv { t.scRecv with firstPack := true } data n 0).2.1 := by
      unfold SC.recv
      simp only [hheads hsc, if_true]
      split
      · rfl
      · split
        · rfl
        · by_cases hfirst : t.scRecv.firstPack = true
          · rw [if_pos hfirst]
          · rw [if_neg hfirst, if_neg (not_not_intro
              (hready (Bool.eq_false_of_not_eq_true hfirst)).symm)]
    rw [recv_of_sc lib t data n outputLength hsc,
      recv_of_sc lib { t with scRecv := { t.scRecv with firstPack := true } } data n outputLength
        hsc, recvUdpIp_scRecv lib t _ _ _ { t.scRecv with firstPack := true }, ← hret]
    split
    · rfl
    · rfl
  · unfold recv
    simp only []
    rw [if_neg hsc, if_neg hsc, recvUdpIp_scRecv lib t _ _ _ { t.scRecv with firstPack := true }]

/-- The receiver stays ready, and its options are kept. -/
theorem ready_recv (forward : Byte) (hready : Ready forward t)
    (hheads : Heads t.param forward data) :
    Ready forward (t.recv lib data n outputLength).1 := by
  by_cases hsc : t.param.ifSendSc = true
  · have hready' : (t.scRecv.recv data n 0).1.firstPack = false →
        getScForward (t.scRecv.recv data n 0).1.recvHeader = forward := by
      unfold SC.recv
      simp only []
      split
      · exact hready
      · split
        · exact hready
        · split
          · exact fun _ => hheads hsc
          · split
            · exact hready
            · exact hready
    rw [recv_of_sc lib t data n outputLength hsc]
    split
    · exact hready'
    · exact hready'
  · have hself := recvUdpIp_scRecv lib t data n outputLength t.scRecv 0
    unfold recv
    rw [if_neg hsc]
    change t.recvUdpIp lib data 0 n outputLength = _ at hself
    rw [hself]
    exact hready

/-- The options are kept. -/
theorem param_recv : (t.recv lib data n outputLength).1.param = t.param := by
  have hrtp : ∀ k n, (t.recvRtp lib data k n outputLength).1.param = t.param := by
    intro k n
    unfold recvRtp
    simp only []
    split
    · rfl
    · rfl
  have hudp : ∀ k n, (t.recvUdpIp lib data k n outputLength).1.param = t.param := by
    intro k n
    unfold recvUdpIp
    simp only []
    split
    · split
      · rfl
      · exact hrtp _ _
    · exact hrtp _ _
  by_cases hsc : t.param.ifSendSc = true
  · rw [recv_of_sc lib t data n outputLength hsc]
    split
    · rfl
    · exact hudp _ _
  · unfold recv
    rw [if_neg hsc]
    exact hudp _ _

/-- What a receiver with this decoder comes to by decoding this input. -/
def Decodes (q : ψ) (input : List Byte) (length : Int) (p : DownloadSession ψ × Received) : Prop :=
  p.1.decoder = (lib.codec q input length outputLength).1 ∧
    p.2.written = (lib.codec q input length outputLength).2.written ∧
    p.2.ret = if (lib.codec q input length outputLength).2.ret < 0 then -1
      else (lib.codec q input length outputLength).2.ret

/-- The decoder is called with what `Recv` hands it, or not at all. -/
theorem recv_decodes (input : List Byte) (length : Int)
    (h : (t.recv lib data n outputLength).2.handed = some (input, length)) :
    Decodes lib outputLength t.decoder input length (t.recv lib data n outputLength) := by
  have hrtp : ∀ k n, (t.recvRtp lib data k n outputLength).2.handed = some (input, length) →
      Decodes lib outputLength t.decoder input length (t.recvRtp lib data k n outputLength) := by
    intro k n
    unfold recvRtp
    simp only []
    split
    · intro h
      exact absurd h (by simp only [Received.after, Received.failed, reduceCtorEq,
        not_false_eq_true])
    · intro h
      simp only [Option.some.injEq, Prod.mk.injEq] at h
      rw [h.1, h.2]
      exact ⟨rfl, rfl, rfl⟩
  have hudp : ∀ k n, (t.recvUdpIp lib data k n outputLength).2.handed = some (input, length) →
      Decodes lib outputLength t.decoder input length
        (t.recvUdpIp lib data k n outputLength) := by
    intro k n
    unfold recvUdpIp
    simp only []
    split
    · split
      · intro h
        exact absurd h (by simp only [Received.after, Received.failed, reduceCtorEq,
          not_false_eq_true])
      · exact hrtp _ _
    · exact hrtp k n
  by_cases hsc : t.param.ifSendSc = true
  · rw [recv_of_sc lib t data n outputLength hsc] at h ⊢
    split at h
    · exact absurd h (by simp only [Received.after, Received.failed, reduceCtorEq,
        not_false_eq_true])
    · rename_i hret
      rw [if_neg hret]
      exact hudp _ _ h
  · unfold recv at h ⊢
    rw [if_neg hsc] at h ⊢
    exact hudp 0 n h

/-- A packet's direction is that of its sender. -/
theorem heads_of_carries (param : SessionParam) (forward : Byte) (a : List Byte × List Byte)
    (ha : Carries (χ := χ) param forward a) : Heads param forward a.1 := by
  rcases ha with ⟨s, hs, -, heq⟩
  intro hsc
  have hnext : scHead s (scLength s a.2.length) = (scCopyToNet (s.scSend.nextHeader
      (BitVec.ofInt 16 (scLength s a.2.length)))).store := if_pos (hs.param_eq ▸ hsc)
  rw [heq, head, hnext, List.append_assoc, List.append_assoc, load_store,
    scCopyFromNet_scCopyToNet]
  exact (getScForward_setScSn _ _).trans (hs.forward_eq hsc).2

/-- A packet is taken, by any receiver that is ready. -/
theorem recv_carries (param : SessionParam) (forward : Byte) (a : List Byte × List Byte)
    (ha : Carries (χ := χ) param forward a) (hsc : t.param.ifSendSc = param.ifSendSc)
    (hadd : t.param.ifAddUdpip = param.ifAddUdpip) (hready : Ready forward t) :
    (t.recv lib a.1 a.1.length outputLength).2.handed = some (a.2, (a.2.length : Int)) := by
  have hheads : Heads t.param forward a.1 := fun h =>
    heads_of_carries param forward a ha (hsc ▸ h)
  rcases ha with ⟨s, hs, hfits, heq⟩
  have hlength : (a.1.length : Int) = (head s a.2.length).length + a.2.length := by
    rw [heq, List.length_append]
    push_cast
    rfl
  rw [recv_fresh lib t a.1 _ outputLength forward hready hheads, hlength, heq]
  exact handed_recv lib _ s outputLength a.2 hs.plain (hs.param_eq ▸ hsc) (hs.param_eq ▸ hadd)
    rfl hfits

/-- What a call of `Recv` leaves behind and returns when it decodes. -/
def returned (d : Coded) : List Byte × Int := (d.written, if d.ret < 0 then -1 else d.ret)

/-- What the receiver makes of packets of one sender, in whatever order they arrive. -/
theorem answers_recv (param : SessionParam) (forward : Byte)
    (arrivals : List (List Byte × List Byte))
    (harrivals : ∀ a ∈ arrivals, Carries (χ := χ) param forward a)
    (hsc : t.param.ifSendSc = param.ifSendSc) (hadd : t.param.ifAddUdpip = param.ifAddUdpip)
    (hready : Ready forward t) :
    let received := Trace.answers (fun t a => t.recv lib a.1 a.1.length outputLength) t arrivals
    received.map Received.handed = arrivals.map (fun a => some (a.2, (a.2.length : Int))) ∧
      received.map (fun r => (r.written, r.ret)) =
        (Trace.answers (fun q payload => lib.codec q payload payload.length outputLength) t.decoder
          (arrivals.map Prod.snd)).map returned := by
  induction arrivals generalizing t with
  | nil => exact ⟨rfl, rfl⟩
  | cons a arrivals ih =>
      have ha := harrivals a List.mem_cons_self
      have hheads : Heads t.param forward a.1 := fun h =>
        heads_of_carries param forward a ha (hsc ▸ h)
      have htaken := recv_carries lib t outputLength param forward a ha hsc hadd hready
      rcases recv_decodes lib t a.1 _ outputLength a.2 a.2.length htaken with
        ⟨hdecoder, hwritten, hret⟩
      have hparam := param_recv lib t a.1 a.1.length outputLength
      rcases ih (t.recv lib a.1 a.1.length outputLength).1
        (fun b hb => harrivals b (List.mem_cons_of_mem a hb)) (hparam ▸ hsc) (hparam ▸ hadd)
        (ready_recv lib t a.1 _ outputLength forward hready hheads) with ⟨hrest, hrest'⟩
      rw [hdecoder] at hrest'
      simp only [Trace.answers, List.map_cons]
      rw [htaken, hwritten, hret, hrest, hrest']
      exact ⟨rfl, rfl⟩

/-- A session of one law that was set up and has had a packet. -/
def lawSender (law : Law) : UploadSession G711 :=
  let s : UploadSession G711 := {
    firstPack := true
    udp := (UdpPacker.setIpPort ⟨Ip.zero, Udphdr.zero⟩ loopParam.udpipSip 5000
      loopParam.udpipDip 6000).1
    scRecv := ⟨SCHeader.zero, SCHeader.zero, true⟩
    scSend := ⟨SCHeader.zero, SCHeader.zero, true⟩
    rtp := ⟨⟨0, 0, 0⟩, ⟨0, 0, 0, 0, 0, 0, 0, 0, 0⟩⟩
    param := loopParam
    encoder := .en law
    decoder := .de law }
  ((s.init loopParam { muLawSetup with encoder := .en law, decoder := .de law }).1.unPak
    (List.replicate 12 0) 12 0).1

/-- A session of one law that has had no packet yet. -/
def lawListener (law : Law) : DownloadSession G711 where
  scRecv := ⟨SCHeader.zero, SCHeader.zero, true⟩
  scSend := ⟨SCHeader.zero, SCHeader.zero, true⟩
  param := loopParam
  encoder := .en law
  decoder := .de law

theorem launched_lawSender (law : Law) : (lawSender law).Launched where
  rtp_eq := ⟨⟨⟨0, 0, 0⟩, ⟨0, 0, 0, 0, 0, 0, 0, 0, 0⟩⟩, generateDefaultParam .amrWb, 0, 0, 0, rfl⟩
  hl_eq _ := hl_setIpPort ⟨Ip.zero, Udphdr.zero⟩ loopParam.udpipSip loopParam.udpipDip 5000 6000
  firstPack_eq _ := rfl

end DownloadSession

end CodecChanger
