import CodecChanger.Core.UdpPacker

/-!
# Addresses

What `inet_pton` accepts, and the word it makes of it.

The loop reads decimals and dots from left to right. It refuses a digit behind a
leading zero, a decimal from 256 on, a fifth decimal, and a dot without a decimal
before it. So what it has read, at any time, is the decimals that are complete, each
with a dot behind it, and the one being read. When it comes to the end with four
decimals, the address is these four, with dots between them.

The address lies in memory with the first decimal first, which is network order. In
host order the first decimal is the high byte.

## Main definitions

* `dotted`: Decimals with dots between them.
* `readSoFar`: What the loop has read.
* `Reading`: What holds of the loop's variables.
* `IsAddress`: A number is what an address says.

## Theorems

* `inetPtonLoop_cons`: What one round of the loop reads.
* `inetPtonLoop_dotted`: The loop reads decimals with dots between them.
* `toNat_swap32_load32`: Four octets in host order.
* `inetPton_dotted`: What `inet_pton` makes of an address.
-/

namespace CodecChanger

open Bytes

/-- Decimals with dots between them. -/
def dotted : List Nat → List Char
  | [] => []
  | [o] => Nat.toDigits 10 o
  | o :: os => Nat.toDigits 10 o ++ '.' :: dotted os

/-- What the loop of `inet_pton` has read: octets that are complete, and one that is
    not when it has a digit. -/
def readSoFar (octets : List Nat) (cur : Nat) (sawDigit : Bool) : List Char :=
  octets.flatMap (fun o => Nat.toDigits 10 o ++ ['.']) ++
    if sawDigit then Nat.toDigits 10 cur else []

/-- The loop's variables: octets are less than 256, and `count` is their number, with
    the one being read when it has a digit. -/
structure Reading (octets : List Nat) (cur : Nat) (sawDigit : Bool) (count : Nat) : Prop where
  octets_lt : ∀ o ∈ octets, o < 256
  cur_lt : cur < 256
  begun : sawDigit = true → octets.length + 1 = count ∧ count ≤ 4
  fresh : sawDigit = false → octets.length = count ∧ count ≤ 3 ∧ cur = 0

/-- The last decimal has no dot behind it. -/
theorem dotted_append (octets : List Nat) (cur : Nat) :
    dotted (octets ++ [cur]) = readSoFar octets cur true := by
  induction octets with
  | nil => rfl
  | cons o octets ih =>
      -- There is always one more behind `o`, so it gets its dot.
      have hcons : dotted (o :: (octets ++ [cur])) =
          Nat.toDigits 10 o ++ '.' :: dotted (octets ++ [cur]) := by
        cases octets with
        | nil => rfl
        | cons o' octets => rfl
      rw [List.cons_append, hcons, ih]
      unfold readSoFar
      rw [List.flatMap_cons, List.append_assoc, List.append_assoc, List.singleton_append]

/-- A digit as a character and its value. -/
theorem digitChar_sub (ch : Char) (h : ch.isDigit = true) :
    ch.toNat - '0'.toNat < 10 ∧ Nat.digitChar (ch.toNat - '0'.toNat) = ch := by
  have hbounds : 48 ≤ ch.toNat ∧ ch.toNat ≤ 57 := by
    unfold Char.isDigit at h
    rw [Bool.and_eq_true, decide_eq_true_eq, decide_eq_true_eq] at h
    exact h
  have hzero : '0'.toNat = 48 := rfl
  refine ⟨by omega, Char.toNat_inj.mp ?_⟩
  rw [Nat.toNat_digitChar_of_lt_ten (by omega)]
  omega

/-- One more digit behind a decimal that does not start with zero. -/
theorem toDigits_digit (cur : Nat) (hcur : 0 < cur) (ch : Char) (h : ch.isDigit = true) :
    Nat.toDigits 10 (cur * 10 + (ch.toNat - '0'.toNat)) = Nat.toDigits 10 cur ++ [ch] := by
  rcases digitChar_sub ch h with ⟨hlt, hchar⟩
  have happ := Nat.toDigits_append_toDigits (b := 10) (n := cur) (d := ch.toNat - '0'.toNat)
    (by omega) hcur hlt
  rw [Nat.toDigits_of_lt_base hlt, hchar] at happ
  rw [Nat.mul_comm, happ]

/-- A digit makes the decimal longer, or starts one. -/
theorem readSoFar_digit (octets : List Nat) (cur count : Nat) (sawDigit : Bool)
    (hr : Reading octets cur sawDigit count) (ch : Char) (h : ch.isDigit = true)
    (hlead : ¬ (sawDigit = true ∧ cur = 0)) :
    readSoFar octets (cur * 10 + (ch.toNat - '0'.toNat)) true =
      readSoFar octets cur sawDigit ++ [ch] := by
  unfold readSoFar
  rw [if_pos rfl, List.append_assoc]
  cases hs : sawDigit with
  | true =>
      have hcur : 0 < cur := Nat.pos_of_ne_zero fun hc => hlead ⟨hs, hc⟩
      rw [toDigits_digit cur hcur ch h, if_pos rfl]
  | false =>
      rcases digitChar_sub ch h with ⟨hlt, hchar⟩
      rw [(hr.fresh hs).2.2, Nat.zero_mul, Nat.zero_add, Nat.toDigits_of_lt_base hlt, hchar]
      rfl

/-- A dot completes the decimal. -/
theorem readSoFar_dot (octets : List Nat) (cur : Nat) :
    readSoFar (octets ++ [cur]) 0 false = readSoFar octets cur true ++ ['.'] := by
  unfold readSoFar
  rw [if_neg Bool.false_ne_true, if_pos rfl, List.append_nil, List.flatMap_append,
    List.append_assoc, List.flatMap_cons, List.flatMap_nil, List.append_nil]

theorem reading_digit (octets : List Nat) (cur new count : Nat) (hr : Reading octets cur true count)
    (hnew : new < 256) : Reading octets new true count where
  octets_lt := hr.octets_lt
  cur_lt := hnew
  begun := hr.begun
  fresh := fun h => absurd h (by simp only [Bool.true_eq_false, not_false_eq_true])

/-- A digit behind a dot starts one more decimal. -/
theorem reading_first (octets : List Nat) (cur new count : Nat)
    (hr : Reading octets cur false count) (hnew : new < 256) (hcount : count + 1 ≤ 4) :
    Reading octets new true (count + 1) where
  octets_lt := hr.octets_lt
  cur_lt := hnew
  begun := fun _ => ⟨by rw [(hr.fresh rfl).1], hcount⟩
  fresh := fun h => absurd h (by simp only [Bool.true_eq_false, not_false_eq_true])

/-- The octets with the one being read. -/
theorem reading_lt (octets : List Nat) (cur count : Nat) (sawDigit : Bool)
    (hr : Reading octets cur sawDigit count) (o : Nat) (ho : o ∈ octets ++ [cur]) : o < 256 := by
  rcases List.mem_append.mp ho with hdone | hcur
  · exact hr.octets_lt o hdone
  · rw [List.mem_singleton.mp hcur]
    exact hr.cur_lt

theorem reading_dot (octets : List Nat) (cur count : Nat) (hr : Reading octets cur true count)
    (hcount : count ≠ 4) : Reading (octets ++ [cur]) 0 false count where
  octets_lt := reading_lt octets cur count true hr
  cur_lt := by omega
  begun := fun h => absurd h Bool.false_ne_true
  fresh := by
    intro _
    have hbegun := hr.begun rfl
    rw [List.length_append, List.length_singleton]
    omega

/-- A round of the loop that goes on has read one more character. -/
theorem inetPtonLoop_cons (ch : Char) (src : List Char) (octets : List Nat) (cur count : Nat)
    (sawDigit : Bool) (hr : Reading octets cur sawDigit count) (r : List Nat)
    (h : inetPtonLoop octets cur sawDigit count (ch :: src) = some r) :
    ∃ octets' cur' count' sawDigit', Reading octets' cur' sawDigit' count' ∧
      readSoFar octets' cur' sawDigit' = readSoFar octets cur sawDigit ++ [ch] ∧
      inetPtonLoop octets' cur' sawDigit' count' src = some r := by
  have hnone : (none : Option (List Nat)) ≠ some r := by
    simp only [ne_eq, reduceCtorEq, not_false_eq_true]
  -- The cases are the branches of the loop, and those that give up have no result.
  rw [inetPtonLoop] at h
  by_cases hdigit : ch.isDigit = true
  · rw [if_pos hdigit] at h
    simp only [] at h
    by_cases hlead : sawDigit = true ∧ cur = 0
    · rw [if_pos hlead] at h
      exact absurd h hnone
    · rw [if_neg hlead] at h
      have hread := readSoFar_digit octets cur count sawDigit hr ch hdigit hlead
      by_cases hbig : cur * 10 + (ch.toNat - '0'.toNat) > 255
      · rw [if_pos hbig] at h
        exact absurd h hnone
      · rw [if_neg hbig] at h
        -- The first digit of a decimal counts it.
        cases sawDigit with
        | true =>
            rw [if_pos rfl] at h
            exact ⟨_, _, _, _, reading_digit octets cur _ count hr (by omega), hread, h⟩
        | false =>
            rw [if_neg Bool.false_ne_true] at h
            by_cases hmany : count + 1 > 4
            · rw [if_pos hmany] at h
              exact absurd h hnone
            · rw [if_neg hmany] at h
              exact ⟨_, _, _, _, reading_first octets cur _ count hr (by omega) (by omega),
                hread, h⟩
  · rw [if_neg hdigit] at h
    by_cases hdot : ch = '.' ∧ sawDigit = true
    · rw [if_pos hdot] at h
      rcases hdot with ⟨hch, hs⟩
      rw [hs] at hr
      by_cases hmany : count = 4
      · rw [if_pos hmany] at h
        exact absurd h hnone
      · rw [if_neg hmany] at h
        rw [hs, hch]
        exact ⟨_, _, _, _, reading_dot octets cur count hr hmany, readSoFar_dot octets cur, h⟩
    · rw [if_neg hdot] at h
      exact absurd h hnone

/-- At the end of the address the octet being read is the fourth. -/
theorem inetPtonLoop_nil (octets : List Nat) (cur count : Nat) (sawDigit : Bool)
    (hr : Reading octets cur sawDigit count) (r : List Nat)
    (h : inetPtonLoop octets cur sawDigit count [] = some r) :
    r.length = 4 ∧ (∀ o ∈ r, o < 256) ∧ dotted r = readSoFar octets cur sawDigit := by
  rw [inetPtonLoop] at h
  by_cases hcount : count < 4
  · rw [if_pos hcount] at h
    exact absurd h (by simp only [reduceCtorEq, not_false_eq_true])
  · rw [if_neg hcount, Option.some.injEq] at h
    cases hs : sawDigit with
    -- Behind a dot at most three are counted.
    | false => exact absurd (hr.fresh hs).2.1 (by omega)
    | true =>
        have hbegun := hr.begun hs
        rw [← h, List.length_append, List.length_singleton, dotted_append]
        exact ⟨by omega, reading_lt octets cur count sawDigit hr, rfl⟩

/-- From wherever the loop is, what it returns are the decimals of what it has read
    and what is left, with dots between them. -/
theorem inetPtonLoop_dotted (src : List Char) (octets : List Nat) (cur count : Nat)
    (sawDigit : Bool) (hr : Reading octets cur sawDigit count) (r : List Nat)
    (h : inetPtonLoop octets cur sawDigit count src = some r) :
    r.length = 4 ∧ (∀ o ∈ r, o < 256) ∧ dotted r = readSoFar octets cur sawDigit ++ src := by
  induction src generalizing octets cur count sawDigit with
  | nil =>
      rw [List.append_nil]
      exact inetPtonLoop_nil octets cur count sawDigit hr r h
  | cons ch src ih =>
      rcases inetPtonLoop_cons ch src octets cur count sawDigit hr r h with
        ⟨octets', cur', count', sawDigit', hr', hread, h'⟩
      have hrest := ih octets' cur' count' sawDigit' hr' h'
      rw [hread, List.append_assoc, List.singleton_append] at hrest
      exact hrest

/-- Four octets in memory, in host order. -/
theorem toNat_swap32_load32 (a b c d : Nat) (ha : a < 256) (hb : b < 256) (hc : c < 256)
    (hd : d < 256) :
    (swap32 (load32 ([a, b, c, d].map (BitVec.ofNat 8)) 0)).toNat =
      ((a * 256 + b) * 256 + c) * 256 + d := by
  have hload : load32 ([a, b, c, d].map (BitVec.ofNat 8)) 0 =
      word32 (BitVec.ofNat 8 a) (BitVec.ofNat 8 b) (BitVec.ofNat 8 c) (BitVec.ofNat 8 d) := rfl
  rw [hload, swap32_word, toNat_word32, BitVec.toNat_ofNat, BitVec.toNat_ofNat,
    BitVec.toNat_ofNat, BitVec.toNat_ofNat, Nat.mod_eq_of_lt ha, Nat.mod_eq_of_lt hb,
    Nat.mod_eq_of_lt hc, Nat.mod_eq_of_lt hd]

/-- The number is what the address says, the first decimal in the high byte. -/
def IsAddress (src : List Char) (n : Nat) : Prop :=
  ∃ a b c d, a < 256 ∧ b < 256 ∧ c < 256 ∧ d < 256 ∧ src = dotted [a, b, c, d] ∧
    n = ((a * 256 + b) * 256 + c) * 256 + d

/-- What `inet_pton` makes of an address, in host order. -/
theorem inetPton_dotted (src : List Char) (addr : BitVec 32) (h : inetPton src = some addr) :
    IsAddress src (swap32 addr).toNat := by
  rcases Option.map_eq_some_iff.mp h with ⟨octets, hloop, haddr⟩
  have hstart : Reading [] 0 false 0 := by
    refine ⟨fun o ho => absurd ho List.not_mem_nil, by omega, fun hc => ?_, fun _ => ?_⟩
    · exact absurd hc Bool.false_ne_true
    · exact ⟨rfl, by omega, rfl⟩
  rcases inetPtonLoop_dotted src [] 0 0 false hstart octets hloop with ⟨hlen, hlt, hdotted⟩
  match octets, hlen with
  | [a, b, c, d], _ =>
      have ha := hlt a (by simp only [List.mem_cons, true_or])
      have hb := hlt b (by simp only [List.mem_cons, true_or, or_true])
      have hc := hlt c (by simp only [List.mem_cons, true_or, or_true])
      have hd := hlt d (by simp only [List.mem_cons, true_or, or_true])
      refine ⟨a, b, c, d, ha, hb, hc, hd, hdotted.symm, ?_⟩
      rw [← haddr]
      exact toNat_swap32_load32 a b c d ha hb hc hd

end CodecChanger
