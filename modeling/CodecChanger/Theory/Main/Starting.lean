import CodecChanger.Theory.Main.Reading
import CodecChanger.Theory.Udp.Addresses
import Mathlib.Data.List.TakeWhile
import Mathlib.Data.Nat.Digits.Defs

/-!
# Starting the Sessions

The loop of `main` drops an entry whose texts are too long and stops at an entry with an
unknown codec, so that what has been started are the entries in front of that one, without
those dropped. Stopping is harmless as long as nothing has been started; with a thread in
the vector the process is ended, and the sessions in front of the entry with it. An entry that
cannot be read ends the process in any case, for what the accessors throw is not caught.

A text of 16 characters is not too long for the loop, but for its array it is, with the
character behind it; the text for `ip` is not looked at. An address has at most 15
characters, so none of this happens to entries that hold addresses.

## Main definitions

* `Config.known`, `Config.goesOn`: Entries that do not stop the loop.
* `stops`: Entries that do, those that cannot be read among them.
* `legible`: The entries in front of the first that cannot be read.
* `reached`: The entries that get a thread.
* `exitAt`: How the loop is left at the entry that stops it.
* `entries`, `sessions`: The entries, and what is read of them.
* `Config.Addressed`: The texts of an entry are addresses.

## Theorems

* `mainLoop_eq`: The loop, in one piece.
* `main_starts`: What is started, and when the process is ended.
* `cStr_of_inetPton`: How long an address is.
* `fits_thread_iff`: When the texts of one thread fit.
* `main_fits_iff`: When all do.
-/

namespace CodecChanger

/-- Both codecs are known. -/
def Config.known (c : Config) : Bool :=
  decide (c.encoderType ≠ .err) && decide (c.decoderType ≠ .err)

/-- The loop goes on behind the entry. -/
def Config.goesOn (c : Config) : Bool := c.tooLong || c.known

/-- The loop does not go on behind the entry. -/
def stops : Except String Config → Bool
  | .error _ => true
  | .ok c => !c.goesOn

/-- The entries in front of the first that cannot be read. -/
def legible : List (Except String Config) → List Config
  | [] => []
  | .error _ :: _ => []
  | .ok c :: root => c :: legible root

/-- The entries that get a thread. -/
def reached (root : List Config) : List Config :=
  (root.takeWhile Config.goesOn).filter fun c => !c.tooLong

/-- How the loop is left at the entry that stops it, if there is one: with a thread in the
    vector, or without. -/
def exitAt (th : List Thread) : Option (Except String Config) → Exit
  | none => .joins
  | some (.error _) => .terminated
  | some (.ok _) => if th = [] then .returned (-1) else .terminated

/-- The entries, if the program gets to them. -/
def entries {ρ : Type} (file : Json.Value ρ) : List (Json.Value ρ) :=
  match file.member "session" with
  | .ok (.arrayValue root) => root
  | _ => []

/-- What the accessors make of the entries. -/
def sessions {ρ : Type} (R : Json.Doubles ρ) (file : Json.Value ρ) :
    List (Except String Config) :=
  (entries file).map (Config.read R)

/-- The texts of the entry are addresses. -/
def Config.Addressed (c : Config) : Prop :=
  (inetPton c.ip).isSome = true ∧ (c.addUdpip = true →
    (inetPton c.udpipSip).isSome = true ∧ (inetPton c.udpipDip).isSome = true)

theorem reached_cons_of_goesOn (c : Config) (root : List Config) (h : c.goesOn = true) :
    reached (c :: root) = if c.tooLong then reached root else c :: reached root := by
  rw [reached, List.takeWhile_cons_of_pos h, List.filter_cons]
  by_cases hlong : c.tooLong = true
  · rw [hlong]
    rfl
  · rw [Bool.not_eq_true] at hlong
    rw [hlong]
    rfl

theorem reached_cons_of_stops (c : Config) (root : List Config) (h : c.goesOn = false) :
    reached (c :: root) = [] := by
  rw [reached, List.takeWhile_cons_of_neg (by rw [h]; exact Bool.false_ne_true)]
  rfl

/-- All entries that are there have been read. -/
@[simp] theorem legible_map_ok (root : List Config) : legible (root.map .ok) = root := by
  induction root with
  | nil => rfl
  | cons c root ih => rw [List.map_cons, legible, ih]

/-- The loop, in one piece. -/
theorem mainLoop_eq (stack : SessionParam) (root : List (Except String Config))
    (th : List Thread) :
    mainLoop stack root th =
      (exitAt (th ++ (reached (legible root)).map (Config.thread stack)) (root.find? stops),
        th ++ (reached (legible root)).map (Config.thread stack)) := by
  induction root generalizing th with
  | nil =>
      rw [mainLoop, legible, reached, List.takeWhile_nil, List.filter_nil, List.map_nil,
        List.append_nil]
      rfl
  | cons e root ih =>
      rcases e with msg | c
      · have hnone : reached (legible (.error msg :: root)) = [] := rfl
        rw [mainLoop, hnone, List.map_nil, List.append_nil, List.find?_cons_of_pos rfl, exitAt]
      · have hlegible : legible (.ok c :: root) = c :: legible root := rfl
        rw [mainLoop, hlegible]
        by_cases hlong : c.tooLong = true
        · have hgoes : c.goesOn = true := by rw [Config.goesOn, hlong, Bool.true_or]
          rw [if_pos hlong, ih, reached_cons_of_goesOn c _ hgoes, if_pos hlong,
            List.find?_cons_of_neg (by simp [stops, hgoes])]
        · rw [if_neg hlong]
          by_cases herr : c.encoderType = .err ∨ c.decoderType = .err
          · have hstops : c.goesOn = false := by
              rw [Bool.not_eq_true] at hlong
              rw [Config.goesOn, hlong, Bool.false_or, Config.known]
              rcases herr with h | h <;> simp [h]
            rw [if_pos herr, reached_cons_of_stops c _ hstops, List.map_nil, List.append_nil,
              List.find?_cons_of_pos (by simp [stops, hstops]), exitAt]
          · have hgoes : c.goesOn = true := by
              rw [not_or] at herr
              rw [Config.goesOn, Config.known, decide_eq_true herr.1, decide_eq_true herr.2]
              exact Bool.or_true _
            rw [if_neg herr, ih, reached_cons_of_goesOn c _ hgoes, if_neg hlong,
              List.find?_cons_of_neg (by simp [stops, hgoes]), List.map_cons, List.append_assoc,
              List.singleton_append]

/-- What has been started when the loop is left. -/
theorem started_eq (stack : SessionParam) (root : List Config) :
    (main stack (some root)).2 = (reached root).map (Config.thread stack) := by
  rw [main, mainLoop_eq, List.nil_append, legible_map_ok]

/-- What gets a thread is not too long, and its codecs are known. -/
theorem of_mem_reached (root : List Config) (c : Config) (h : c ∈ reached root) :
    c ∈ root ∧ c.tooLong = false ∧ c.known = true := by
  rcases List.mem_filter.mp h with ⟨htake, hkept⟩
  have hlong : c.tooLong = false := by
    rw [Bool.not_eq_true'] at hkept
    exact hkept
  have hgoes := List.mem_takeWhile_imp htake
  rw [Config.goesOn, hlong, Bool.false_or] at hgoes
  exact ⟨(List.takeWhile_sublist _).subset htake, hlong, hgoes⟩

/-- The program, when there are entries, and when there are none: the file holds no object, or
    what it has for `session` is no array. -/
theorem program_cases {ρ : Type} (R : Json.Doubles ρ) (stack : SessionParam)
    (file : Json.Value ρ) :
    (∃ root, file.member "session" = .ok (.arrayValue root) ∧ file.members ≠ none ∧
      program R stack file = mainLoop stack (sessions R file) []) ∨
    (file.members = none ∧ (∀ root, file.member "session" ≠ .ok (.arrayValue root)) ∧
      entries file = [] ∧ program R stack file = (.terminated, [])) ∨
    (file.members ≠ none ∧ (∀ root, file.member "session" ≠ .ok (.arrayValue root)) ∧
      entries file = [] ∧ program R stack file = (.returned (-1), [])) := by
  unfold program sessions entries
  cases hl : file.members with
  | none =>
      rw [Json.Value.member_of_none file hl]
      exact Or.inr (Or.inl ⟨rfl, by simp only [ne_eq, reduceCtorEq, not_false_eq_true,
        implies_true], rfl, rfl⟩)
  | some l =>
      rw [Json.Value.member_of_members file l hl]
      cases Json.Value.get l "session" with
      | arrayValue root => exact Or.inl ⟨root, rfl, Option.some_ne_none l, rfl⟩
      | _ => exact Or.inr (Or.inr ⟨Option.some_ne_none l, by
          simp only [ne_eq, Except.ok.injEq, reduceCtorEq, not_false_eq_true, implies_true], rfl,
          rfl⟩)

/-- An entry that does not stop the loop has been read, and is dropped or known. -/
theorem stops_eq_false_iff (e : Except String Config) :
    stops e = false ↔ ∃ c, e = .ok c ∧ (c.tooLong = false → c.known = true) := by
  rcases e with msg | c
  · exact iff_of_false (by simp only [stops, Bool.true_eq_false, not_false_eq_true])
      (fun h => by rcases h with ⟨c, hc, -⟩; exact absurd hc (by simp))
  · have hone : stops (.ok c) = false ↔ (c.tooLong = false → c.known = true) := by
      change (!(c.tooLong || c.known)) = false ↔ _
      rw [Bool.not_eq_false', Bool.or_eq_true, ← Bool.not_eq_false, ← imp_iff_not_or]
    rw [hone]
    exact ⟨fun h => ⟨c, rfl, h⟩, fun ⟨c', hc', h⟩ => by rw [Except.ok.inj hc']; exact h⟩

/-- How the loop is left when nothing was started before it. -/
theorem exitAt_started (th : List Thread) (root : List (Except String Config)) :
    (exitAt th (root.find? stops) = .joins ↔
      ∀ e ∈ root, ∃ c, e = .ok c ∧ (c.tooLong = false → c.known = true)) ∧
    (exitAt th (root.find? stops) = .terminated ↔
      ∃ e, root.find? stops = some e ∧ ((∃ msg, e = .error msg) ∨ th ≠ [])) := by
  have hnone : root.find? stops = none ↔
      ∀ e ∈ root, ∃ c, e = .ok c ∧ (c.tooLong = false → c.known = true) := by
    rw [List.find?_eq_none]
    refine forall₂_congr fun e _ => ?_
    rw [Bool.not_eq_true, stops_eq_false_iff]
  rw [← hnone]
  rcases hfirst : root.find? stops with _ | e
  · simp [exitAt]
  · rcases e with msg | c
    · simp [exitAt]
    · by_cases hth : th = []
      · simp [exitAt, hth]
      · simp [exitAt, hth]

/-- What gets a thread has codecs. -/
theorem codecs_of_reached (stack : SessionParam) (root : List Config) :
    ∀ t ∈ (reached root).map (Config.thread stack),
      t.param.encoderType ≠ .err ∧ t.param.decoderType ≠ .err := by
  intro t ht
  rcases List.mem_map.mp ht with ⟨c, hc, hthread⟩
  have hknown := (of_mem_reached root c hc).2.2
  rw [Config.known, Bool.and_eq_true, decide_eq_true_eq, decide_eq_true_eq] at hknown
  rw [← hthread]
  exact hknown

/-- The port of the second entry is a text. The first session is started, and the process
    ended. -/
example :
    let R : Json.Doubles Unit := ⟨fun _ => "", fun _ => none, fun _ => true⟩
    let entry (port : Json.Value Unit) : Json.Value Unit := .objectValue
      [("src_codec", .stringValue "PCMA"), ("dst_codec", .stringValue "AMR"), ("recv_port", port)]
    let stop := program R ⟨0, .err, .err, false, false, [], [], 0, 0⟩ (.objectValue [("session",
      .arrayValue [entry (.intValue 8001), entry (.stringValue "8001")])])
    stop.1 = .terminated ∧ stop.2.length = 1 := by decide +kernel

/-- The characters of an address, and how many there are. -/
theorem dotted_chars (a b c d : Nat) (ha : a < 256) (hb : b < 256) (hc : c < 256)
    (hd : d < 256) :
    (dotted [a, b, c, d]).length ≤ 15 ∧
      ∀ ch ∈ dotted [a, b, c, d], ch.isDigit = true ∨ ch = '.' := by
  have hlen : ∀ o < 256, (Nat.toDigits 10 o).length ≤ 3 := fun o ho =>
    Nat.toDigits_length 10 o 3 (by omega) (by omega)
  have hdigit : ∀ o, ∀ ch ∈ Nat.toDigits 10 o, ch.isDigit = true := fun o ch hch =>
    Nat.isDigit_of_mem_toDigits (by omega) (by omega) hch
  have hdotted : dotted [a, b, c, d] = Nat.toDigits 10 a ++ '.' :: (Nat.toDigits 10 b ++
      '.' :: (Nat.toDigits 10 c ++ '.' :: Nat.toDigits 10 d)) := rfl
  rw [hdotted]
  constructor
  · have hla := hlen a ha
    have hlb := hlen b hb
    have hlc := hlen c hc
    have hld := hlen d hd
    simp only [List.length_append, List.length_cons]
    omega
  · intro ch hch
    simp only [List.mem_append, List.mem_cons] at hch
    rcases hch with h | h | h | h | h | h | h
    · exact Or.inl (hdigit a ch h)
    · exact Or.inr h
    · exact Or.inl (hdigit b ch h)
    · exact Or.inr h
    · exact Or.inl (hdigit c ch h)
    · exact Or.inr h
    · exact Or.inl (hdigit d ch h)

/-- An address has at most 15 characters, and all of them are copied. -/
theorem cStr_of_inetPton (src : List Char) (h : (inetPton src).isSome = true) :
    cStr src = src ∧ src.length ≤ 15 := by
  rcases Option.isSome_iff_exists.mp h with ⟨addr, haddr⟩
  rcases inetPton_dotted src addr haddr with ⟨a, b, c, d, ha, hb, hc, hd, hsrc, -⟩
  rcases dotted_chars a b c d ha hb hc hd with ⟨hlen, hchars⟩
  rw [← hsrc] at hlen hchars
  refine ⟨List.takeWhile_eq_self_iff.mpr fun ch hch => ?_, hlen⟩
  rw [decide_eq_true_eq]
  intro hnul
  rcases hchars ch hch with hdigit | hdot
  · rw [hnul] at hdigit
    exact absurd hdigit (by decide)
  · rw [hnul] at hdot
    exact absurd hdot (by decide)

theorem length_cStr_le (text : List Char) : (cStr text).length ≤ text.length :=
  (List.takeWhile_sublist _).length_le

/-- A thread's texts fit when `ip` is short enough and neither of the others has 16
    characters. -/
theorem fits_thread_iff (stack : SessionParam) (c : Config) (hlong : c.tooLong = false) :
    (c.thread stack).Fits ↔ (cStr c.ip).length ≤ 15 ∧ (c.addUdpip = true →
      (cStr c.udpipSip).length ≠ 16 ∧ (cStr c.udpipDip).length ≠ 16) := by
  have hsip := length_cStr_le c.udpipSip
  have hdip := length_cStr_le c.udpipDip
  refine and_congr (by change (cStr c.ip).length + 1 ≤ 16 ↔ _; omega) (forall_congr' fun hadd => ?_)
  have hadd' : c.addUdpip = true := hadd
  rw [Config.tooLong, hadd', Bool.true_and, Bool.or_eq_false_iff, decide_eq_false_iff_not,
    decide_eq_false_iff_not] at hlong
  change (if c.addUdpip then cStr c.udpipSip else stack.udpipSip).length + 1 ≤ 16 ∧
    (if c.addUdpip then cStr c.udpipDip else stack.udpipDip).length + 1 ≤ 16 ↔ _
  rw [if_pos hadd', if_pos hadd']
  omega

/-- An entry whose texts are addresses is not dropped, and its texts fit and arrive. -/
theorem thread_addressed (stack : SessionParam) (c : Config) (h : c.Addressed) :
    c.tooLong = false ∧ (c.thread stack).Fits ∧ (c.thread stack).ip = c.ip ∧
      (c.addUdpip = true → (c.thread stack).param.udpipSip = c.udpipSip ∧
        (c.thread stack).param.udpipDip = c.udpipDip) := by
  have hip := cStr_of_inetPton c.ip h.1
  have hadded : c.addUdpip = true → (cStr c.udpipSip = c.udpipSip ∧ c.udpipSip.length ≤ 15) ∧
      (cStr c.udpipDip = c.udpipDip ∧ c.udpipDip.length ≤ 15) := fun hadd =>
    ⟨cStr_of_inetPton _ (h.2 hadd).1, cStr_of_inetPton _ (h.2 hadd).2⟩
  have hlong : c.tooLong = false := by
    rw [Config.tooLong, Bool.and_eq_false_imp]
    intro hadd
    rw [Bool.or_eq_false_iff, decide_eq_false_iff_not, decide_eq_false_iff_not]
    have htexts := hadded hadd
    omega
  refine ⟨hlong, (fits_thread_iff stack c hlong).mpr ⟨?_, fun hadd => ?_⟩, hip.1, fun hadd => ?_⟩
  · rw [hip.1]
    exact hip.2
  · rw [(hadded hadd).1.1, (hadded hadd).2.1]
    have htexts := hadded hadd
    omega
  · change (if c.addUdpip then cStr c.udpipSip else stack.udpipSip) = _ ∧
      (if c.addUdpip then cStr c.udpipDip else stack.udpipDip) = _
    rw [if_pos hadd, if_pos hadd]
    exact ⟨(hadded hadd).1.1, (hadded hadd).2.1⟩

/-- Every text fits its array exactly when `ip` is short enough and neither of the others
    has 16 characters, in the entries that get a thread. Where the texts are addresses,
    none is dropped, all fit, and the sessions get what the configuration says. -/
theorem main_fits_iff (stack : SessionParam) (root : List Config) :
    ((∀ t ∈ (main stack (some root)).2, t.Fits) ↔
      ∀ c ∈ reached root, (cStr c.ip).length ≤ 15 ∧ (c.addUdpip = true →
        (cStr c.udpipSip).length ≠ 16 ∧ (cStr c.udpipDip).length ≠ 16)) ∧
    ((∀ c ∈ root, c.Addressed) →
      (∀ c ∈ root, c.tooLong = false) ∧
      ∀ t ∈ (main stack (some root)).2, t.Fits ∧ ∃ c ∈ root, t.ip = c.ip ∧
        (c.addUdpip = true →
          t.param.udpipSip = c.udpipSip ∧ t.param.udpipDip = c.udpipDip)) := by
  rw [started_eq]
  refine ⟨?_, fun haddr => ⟨fun c hc => ?_, fun t ht => ?_⟩⟩
  · rw [List.forall_mem_map]
    exact forall₂_congr fun c hc => fits_thread_iff stack c (of_mem_reached root c hc).2.1
  · exact (thread_addressed stack c (haddr c hc)).1
  · rcases List.mem_map.mp ht with ⟨c, hc, hthread⟩
    have hmem := (of_mem_reached root c hc).1
    rcases thread_addressed stack c (haddr c hmem) with ⟨-, hfits, hip, htexts⟩
    rw [← hthread]
    exact ⟨hfits, c, hmem, hip, htexts⟩

/-- An entry with addresses, and one with a text that just passes. -/
def phoneEntry (sip : List Char) : Config where
  srcCodec := "codec2"
  dstCodec := "AMR"
  forward := "TO4G"
  recvPort := 8001
  ip := ['1', '2', '7', '.', '0', '.', '0', '.', '1']
  sendPort := 5070
  addUdpip := true
  sendSc := false
  udpipSip := sip
  udpipDip := ['1', '2', '7', '.', '0', '.', '0', '.', '1']
  udpipSport := 60001
  udpipDport := 60002

/-- The first fits, and the second, with a text of 16 characters, does not. -/
theorem main_fits_iff_two :
    let stack : SessionParam := ⟨0, .err, .err, false, false, [], [], 0, 0⟩
    (∀ t ∈ (main stack (some [phoneEntry ['1', '0', '.', '0', '.', '0', '.', '1']])).2, t.Fits) ∧
      ¬∀ t ∈ (main stack (some [phoneEntry (List.replicate 16 '1')])).2, t.Fits := by
  intro stack
  constructor
  · intro t ht
    refine (((main_fits_iff stack _).2 fun c hc => ?_).2 t ht).1
    rw [List.mem_singleton.mp hc]
    exact ⟨by decide, fun _ => ⟨by decide, by decide⟩⟩
  · intro h
    have hsixteen := (main_fits_iff stack _).1.mp h (phoneEntry (List.replicate 16 '1')) (by decide)
    exact absurd rfl (hsixteen.2 rfl).1

end CodecChanger
