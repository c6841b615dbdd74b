import Mathlib.Data.BitVec
import Mathlib.Data.List.Basic
import Mathlib.Data.List.GetD

/-!
# Bytes and Words

Memory as a list of bytes, and the words a little-endian machine keeps there.
`bytes16` and `bytes32` are a word's image in memory, `word16` and `word32` put
a word together, and the `load`s read one at an offset. Network order is the
image of the swapped word.

A record in memory is the concatenation of its fields' images, and reading a
field back is a `load` at a constant offset. On such an image the `load`
computes, so that what is left is one of the `word_bytes` lemmas.

## Main definitions

* `Byte`: Eight bits.
* `byte`: A byte of a word, the low one first.
* `word16`, `word32`: The words that bytes of memory hold.
* `bytes16`, `bytes32`: The memory that holds a word.
* `swap16`, `swap32`: The word with its bytes in the other order.
* `load16`, `load32`: The word at an offset.
* `words16`: A stretch of memory as 16-bit words.
* `bigEndian`: The bytes of a number, the high one first.
* `littleEndian`: The bytes of a number, the low one first.
* `store16`: A word put at an offset.
* `Memory.store`, `Memory.read`: Memory behind a pointer.
* `Buffer`: A buffer of a fixed size.

## Theorems

* `word16_bytes`, `word32_bytes`: A word is put together from its bytes.
* `bytes16_word`, `bytes32_word`: The bytes of a word put together.
* `bytes16_swap_bigEndian`, `bytes32_swap_bigEndian`: Words in network order.
* `bigEndian_mod`, `littleEndian_mod`: Cutting a number to its low bytes.
* `littleEndian_append`: The low bytes of a number, and the others.
* `swap16_swap16`, `swap32_swap32`: Swapping twice changes nothing.
* `words16_flatMap`, `flatMap_words16_take`: Memory as words, and back.
* `words16_append`: The words of two stretches of memory.
* `words16_store16`: A word put at an even offset is one of the words.
* `load16_take`, `load32_take`: A word does not depend on what lies behind it.
* `read_store_self`, `read_store_of_disjoint`: Reading after a store.
* `store_store`: Two stores side by side are one.
* `read_store_part`: Reading a part of what was stored.
* `take_write`: The start of a buffer that was written to.
-/

namespace Bytes

abbrev Byte := BitVec 8

/-- Byte `i` of a word, byte zero being the low one. -/
def byte {n : Nat} (w : BitVec n) (i : Nat) : Byte := w.extractLsb' (8 * i) 8

/-- The word held by two bytes, the low one first. -/
def word16 (b₀ b₁ : Byte) : BitVec 16 := b₁ ++ b₀

/-- The word held by four bytes, the low one first. -/
def word32 (b₀ b₁ b₂ b₃ : Byte) : BitVec 32 := b₃ ++ b₂ ++ b₁ ++ b₀

def bytes16 (w : BitVec 16) : List Byte := [byte w 0, byte w 1]

def bytes32 (w : BitVec 32) : List Byte := [byte w 0, byte w 1, byte w 2, byte w 3]

/-- `htons` and `ntohs` of a little-endian machine. -/
def swap16 (w : BitVec 16) : BitVec 16 := word16 (byte w 1) (byte w 0)

/-- `htonl` and `ntohl` of a little-endian machine. -/
def swap32 (w : BitVec 32) : BitVec 32 := word32 (byte w 3) (byte w 2) (byte w 1) (byte w 0)

/-- `*(uint16_t*)(m + i)`. -/
def load16 (m : List Byte) (i : Nat) : BitVec 16 := word16 (m.getD i 0) (m.getD (i + 1) 0)

/-- `*(uint32_t*)(m + i)`. -/
def load32 (m : List Byte) (i : Nat) : BitVec 32 :=
  word32 (m.getD i 0) (m.getD (i + 1) 0) (m.getD (i + 2) 0) (m.getD (i + 3) 0)

/-- A stretch of memory as 16-bit words. An odd byte at its end is not a word. -/
def words16 : List Byte → List (BitVec 16)
  | b₀ :: b₁ :: l => word16 b₀ b₁ :: words16 l
  | _ => []

/-- `*(uint16_t*)(m + i) = w`. -/
def store16 (m : List Byte) (i : Nat) (w : BitVec 16) : List Byte :=
  (m.set i (byte w 0)).set (i + 1) (byte w 1)

/-- The low `k` bytes of a number, the high one first. -/
def bigEndian : Nat → Nat → List Byte
  | 0, _ => []
  | k + 1, n => BitVec.ofNat 8 (n / 256 ^ k) :: bigEndian k n

/-- The low `k` bytes of a number, the low one first. -/
def littleEndian : Nat → Nat → List Byte
  | 0, _ => []
  | k + 1, n => BitVec.ofNat 8 n :: littleEndian k (n / 256)

/-- A word is put together from its bytes. -/
@[simp] theorem word16_bytes (w : BitVec 16) : word16 (byte w 0) (byte w 1) = w := by
  refine BitVec.eq_of_getLsbD_eq fun i hi => ?_
  simp only [byte, word16, BitVec.getLsbD_append, BitVec.getLsbD_extractLsb']
  grind

/-- A word is put together from its bytes. -/
@[simp] theorem word32_bytes (w : BitVec 32) :
    word32 (byte w 0) (byte w 1) (byte w 2) (byte w 3) = w := by
  refine BitVec.eq_of_getLsbD_eq fun i hi => ?_
  simp only [byte, word32, BitVec.getLsbD_append, BitVec.getLsbD_extractLsb']
  grind

/-- The bytes of a word are those it was put together from. -/
@[simp] theorem bytes16_word (b₀ b₁ : Byte) : bytes16 (word16 b₀ b₁) = [b₀, b₁] := by
  simp only [bytes16, List.cons.injEq, and_true]
  refine ⟨?_, ?_⟩ <;>
  · ext i hi
    simp only [byte, word16, BitVec.getElem_extractLsb', BitVec.getLsbD_append]
    grind

/-- The bytes of a word are those it was put together from. -/
@[simp] theorem bytes32_word (b₀ b₁ b₂ b₃ : Byte) :
    bytes32 (word32 b₀ b₁ b₂ b₃) = [b₀, b₁, b₂, b₃] := by
  simp only [bytes32, List.cons.injEq, and_true]
  refine ⟨?_, ?_, ?_, ?_⟩ <;>
  · ext i hi
    simp only [byte, word32, BitVec.getElem_extractLsb', BitVec.getLsbD_append]
    grind

theorem bytes16_swap (w : BitVec 16) : bytes16 (swap16 w) = [byte w 1, byte w 0] :=
  bytes16_word _ _

theorem bytes32_swap (w : BitVec 32) :
    bytes32 (swap32 w) = [byte w 3, byte w 2, byte w 1, byte w 0] :=
  bytes32_word _ _ _ _

/-- A byte of a word as a digit of its value. -/
theorem byte_eq {n : Nat} (w : BitVec n) (i : Nat) :
    byte w i = BitVec.ofNat 8 (w.toNat / 256 ^ i) := by
  have hpow : (256 : Nat) ^ i = 2 ^ (8 * i) := by
    rw [Nat.pow_mul]
  rw [hpow, ← Nat.shiftRight_eq_div_pow]
  rfl

/-- The low bytes of a number do not depend on the others. -/
theorem bigEndian_mod (k m n : Nat) (h : k ≤ m) : bigEndian k (n % 256 ^ m) = bigEndian k n := by
  induction k with
  | zero => rfl
  | succ k ih =>
      have hsplit : 256 ^ m = 256 ^ k * 256 ^ (m - k) := by
        rw [← Nat.pow_add, show k + (m - k) = m by omega]
      have hbyte : (256 : Nat) ∣ 256 ^ (m - k) := dvd_pow_self 256 (by omega)
      rw [bigEndian, bigEndian, ih (by omega), hsplit, Nat.mod_mul_right_div_self]
      congr 1
      refine BitVec.eq_of_toNat_eq ?_
      rw [BitVec.toNat_ofNat, BitVec.toNat_ofNat]
      exact Nat.mod_mod_of_dvd _ hbyte

/-- The low bytes of a number do not depend on the others. -/
theorem littleEndian_mod (k m n : Nat) (h : k ≤ m) :
    littleEndian k (n % 256 ^ m) = littleEndian k n := by
  induction k generalizing m n with
  | zero => rfl
  | succ k ih =>
      cases m with
      | zero => omega
      | succ m =>
          have hbyte : BitVec.ofNat 8 (n % 256 ^ (m + 1)) = BitVec.ofNat 8 n := by
            refine BitVec.eq_of_toNat_eq ?_
            rw [BitVec.toNat_ofNat, BitVec.toNat_ofNat]
            exact Nat.mod_mod_of_dvd _ (dvd_pow_self 256 (by omega))
          have hhigh : n % 256 ^ (m + 1) / 256 = n / 256 % 256 ^ m := by
            rw [Nat.pow_succ', Nat.mod_mul_right_div_self]
          rw [littleEndian, littleEndian, hbyte, hhigh, ih m _ (by omega)]

/-- The low bytes of a number, and those that come behind them. -/
theorem littleEndian_append (j k n : Nat) :
    littleEndian (j + k) n = littleEndian j n ++ littleEndian k (n / 256 ^ j) := by
  induction j generalizing n with
  | zero => rw [Nat.zero_add, Nat.pow_zero, Nat.div_one, littleEndian, List.nil_append]
  | succ j ih =>
      rw [Nat.succ_add, littleEndian, littleEndian, ih, List.cons_append, Nat.div_div_eq_div_mul,
        Nat.pow_succ']

/-- A word in network order. -/
theorem bytes16_swap_bigEndian (w : BitVec 16) : bytes16 (swap16 w) = bigEndian 2 w.toNat := by
  rw [bytes16_swap, byte_eq, byte_eq]
  rfl

/-- A word in network order. -/
theorem bytes32_swap_bigEndian (w : BitVec 32) : bytes32 (swap32 w) = bigEndian 4 w.toNat := by
  rw [bytes32_swap, byte_eq, byte_eq, byte_eq, byte_eq]
  rfl

/-- Swapping a word puts its bytes together from the other end. -/
theorem swap16_word (b₀ b₁ : Byte) : swap16 (word16 b₀ b₁) = word16 b₁ b₀ := by
  have h := bytes16_word b₀ b₁
  simp only [bytes16, List.cons.injEq, and_true] at h
  rw [swap16, h.1, h.2]

/-- Swapping a word puts its bytes together from the other end. -/
theorem swap32_word (b₀ b₁ b₂ b₃ : Byte) :
    swap32 (word32 b₀ b₁ b₂ b₃) = word32 b₃ b₂ b₁ b₀ := by
  have h := bytes32_word b₀ b₁ b₂ b₃
  simp only [bytes32, List.cons.injEq, and_true] at h
  rcases h with ⟨h0, h1, h2, h3⟩
  rw [swap32, h0, h1, h2, h3]

@[simp] theorem swap16_swap16 (w : BitVec 16) : swap16 (swap16 w) = w := by
  calc swap16 (swap16 w)
      = word16 (byte w 0) (byte w 1) := swap16_word _ _
    _ = w := word16_bytes w

@[simp] theorem swap32_swap32 (w : BitVec 32) : swap32 (swap32 w) = w := by
  calc swap32 (swap32 w)
      = word32 (byte w 0) (byte w 1) (byte w 2) (byte w 3) := swap32_word _ _ _ _
    _ = w := word32_bytes w

theorem toNat_append_byte {n : Nat} (x : BitVec n) (b : Byte) :
    (x ++ b).toNat = x.toNat * 256 + b.toNat := by
  rw [BitVec.toNat_append, ← Nat.shiftLeft_add_eq_or_of_lt b.isLt, Nat.shiftLeft_eq]

/-- The value of a word, byte by byte. -/
theorem toNat_word16 (b₀ b₁ : Byte) : (word16 b₀ b₁).toNat = b₁.toNat * 256 + b₀.toNat :=
  toNat_append_byte b₁ b₀

/-- The value of a word, byte by byte. -/
theorem toNat_word32 (b₀ b₁ b₂ b₃ : Byte) :
    (word32 b₀ b₁ b₂ b₃).toNat =
      ((b₃.toNat * 256 + b₂.toNat) * 256 + b₁.toNat) * 256 + b₀.toNat := by
  unfold word32
  rw [toNat_append_byte, toNat_append_byte, toNat_append_byte]

/-- The words are those the memory was made of. -/
theorem words16_flatMap (l : List (BitVec 16)) : words16 (l.flatMap bytes16) = l := by
  induction l with
  | nil => rfl
  | cons w l ih =>
      rw [List.flatMap_cons]
      change word16 (byte w 0) (byte w 1) :: words16 (l.flatMap bytes16) = w :: l
      rw [word16_bytes, ih]

/-- The memory is made of its words, as far as there are such. -/
theorem flatMap_words16_take (m : List Byte) (k : Nat) (h : 2 * k ≤ m.length) :
    ((words16 m).take k).flatMap bytes16 = m.take (2 * k) := by
  induction k generalizing m with
  | zero => rw [Nat.mul_zero, List.take_zero, List.take_zero, List.flatMap_nil]
  | succ k ih =>
      match m with
      | [] | [_] =>
          simp only [List.length_nil, List.length_singleton] at h
          omega
      | b₀ :: b₁ :: m =>
          simp only [List.length_cons] at h
          rw [words16, List.take_succ_cons, List.flatMap_cons, ih m (by omega), bytes16_word]
          rfl

theorem length_words16 (m : List Byte) : (words16 m).length = m.length / 2 := by
  induction m using words16.induct with
  | case1 b₀ b₁ l ih =>
      rw [words16, List.length_cons, List.length_cons, List.length_cons, ih]
      omega
  | case2 m h =>
      -- There is one byte at most.
      have hlen : m.length < 2 := by
        match m, h with
        | [], _ | [_], _ => simp only [List.length_nil, List.length_singleton]; omega
        | b₀ :: b₁ :: l, h => exact absurd rfl (h b₀ b₁ l)
      rw [words16, List.length_nil, Nat.div_eq_of_lt hlen]
      exact h

/-- The words behind an even number of bytes. -/
theorem words16_append (m l : List Byte) (h : m.length % 2 = 0) :
    words16 (m ++ l) = words16 m ++ words16 l := by
  induction m using words16.induct with
  | case1 b₀ b₁ m ih =>
      simp only [List.length_cons] at h
      change word16 b₀ b₁ :: words16 (m ++ l) = word16 b₀ b₁ :: (words16 m ++ words16 l)
      rw [ih (by omega)]
  | case2 m hm =>
      match m, hm with
      | [], _ => rfl
      | [_], _ => simp only [List.length_singleton] at h; omega
      | b₀ :: b₁ :: m, hm => exact absurd rfl (hm b₀ b₁ m)

theorem length_store16 (m : List Byte) (i : Nat) (w : BitVec 16) :
    (store16 m i w).length = m.length := by
  rw [store16, List.length_set, List.length_set]

/-- A word put at an even offset replaces the word there. -/
theorem words16_store16 (m : List Byte) (k : Nat) (w : BitVec 16) (h : 2 * k + 1 < m.length) :
    words16 (store16 m (2 * k) w) = (words16 m).set k w := by
  induction k generalizing m with
  | zero =>
      match m with
      | [] | [_] =>
          simp only [List.length_nil, List.length_singleton] at h
          omega
      | b₀ :: b₁ :: m =>
          change word16 (byte w 0) (byte w 1) :: words16 m = w :: words16 m
          rw [word16_bytes]
  | succ k ih =>
      match m with
      | [] | [_] =>
          simp only [List.length_nil, List.length_singleton] at h
          omega
      | b₀ :: b₁ :: m =>
          simp only [List.length_cons] at h
          change word16 b₀ b₁ :: words16 (store16 m (2 * k) w) = word16 b₀ b₁ :: _
          rw [ih m (by omega)]

theorem length_flatMap_bytes16 (l : List (BitVec 16)) :
    (l.flatMap bytes16).length = 2 * l.length := by
  induction l with
  | nil => rfl
  | cons w l ih =>
      rw [List.flatMap_cons, List.length_append, ih, List.length_cons]
      change 2 + 2 * l.length = _
      omega

theorem getD_take (m : List Byte) (n i : Nat) (h : i < n) : (m.take n).getD i 0 = m.getD i 0 := by
  rw [List.getD_eq_getElem?_getD, List.getElem?_take_of_lt h, List.getD_eq_getElem?_getD]

theorem getD_drop (m : List Byte) (n i : Nat) : (m.drop n).getD i 0 = m.getD (n + i) 0 := by
  rw [List.getD_eq_getElem?_getD, List.getElem?_drop, ← List.getD_eq_getElem?_getD]

theorem getD_set (m : List Byte) (i j : Nat) (x : Byte) (h : i < m.length) :
    (m.set i x).getD j 0 = if j = i then x else m.getD j 0 := by
  rw [List.getD_eq_getElem?_getD, List.getD_eq_getElem?_getD]
  by_cases hj : j = i
  · rw [if_pos hj, hj, List.getElem?_set_self h, Option.getD_some]
  · rw [if_neg hj, List.getElem?_set_ne (fun hc => hj hc.symm)]

/-- Behind the end there are zeros already. -/
theorem getD_append_zeros (m : List Byte) (n i : Nat) :
    (m ++ List.replicate n 0).getD i 0 = m.getD i 0 := by
  by_cases hi : i < m.length
  · exact List.getD_append _ _ _ _ hi
  · have hbehind : m.getD i 0 = 0 := List.getD_eq_default m 0 (by omega)
    rw [List.getD_append_right _ _ _ _ (by omega), hbehind, List.getD_eq_getElem?_getD,
      List.getElem?_replicate]
    split
    · rfl
    · rfl

/-- A word does not depend on what lies behind it. -/
theorem load16_take (m : List Byte) (n i : Nat) (h : i + 2 ≤ n) :
    load16 (m.take n) i = load16 m i := by
  unfold load16
  rw [getD_take m n i (by omega), getD_take m n (i + 1) (by omega)]

/-- A word does not depend on what lies behind it. -/
theorem load32_take (m : List Byte) (n i : Nat) (h : i + 4 ≤ n) :
    load32 (m.take n) i = load32 m i := by
  unfold load32
  rw [getD_take m n i (by omega), getD_take m n (i + 1) (by omega),
    getD_take m n (i + 2) (by omega), getD_take m n (i + 3) (by omega)]

/-- Memory behind a pointer, by offset. -/
abbrev Memory := Nat → Byte

namespace Memory

/-- `memcpy` of bytes to an offset. -/
def store (m : Memory) (i : Nat) (l : List Byte) : Memory := fun j =>
  if i ≤ j ∧ j < i + l.length then l.getD (j - i) 0 else m j

/-- The `n` bytes from an offset on. -/
def read (m : Memory) (i n : Nat) : List Byte := (List.range n).map fun k => m (i + k)

/-- What has been stored is read back. -/
theorem read_store_self (m : Memory) (i : Nat) (l : List Byte) :
    (m.store i l).read i l.length = l := by
  refine List.ext_getElem (by simp only [read, List.length_map, List.length_range]) ?_
  intro k hk hk'
  simp only [read, List.getElem_map, List.getElem_range, store]
  rw [if_pos ⟨by omega, by omega⟩, Nat.add_sub_cancel_left, List.getD_eq_getElem?_getD,
    List.getElem?_eq_getElem hk', Option.getD_some]

/-- A store elsewhere leaves what is read alone. -/
theorem read_store_of_disjoint (m : Memory) (i j n : Nat) (l : List Byte)
    (h : j + n ≤ i ∨ i + l.length ≤ j) : (m.store i l).read j n = m.read j n := by
  refine List.map_congr_left fun k hk => ?_
  rw [List.mem_range] at hk
  rw [store, if_neg (by omega)]

theorem store_nil (m : Memory) (i : Nat) : m.store i [] = m := by
  funext j
  unfold store
  rw [if_neg (by rw [List.length_nil]; omega)]

/-- Two stores side by side are one. -/
theorem store_store (m : Memory) (i : Nat) (l₁ l₂ : List Byte) :
    (m.store (i + l₁.length) l₂).store i l₁ = m.store i (l₁ ++ l₂) := by
  funext j
  unfold store
  rw [List.length_append]
  by_cases h₁ : i ≤ j ∧ j < i + l₁.length
  · rw [if_pos h₁, if_pos ⟨h₁.1, by omega⟩, List.getD_append _ _ _ _ (by omega)]
  · rw [if_neg h₁]
    by_cases h₂ : i + l₁.length ≤ j ∧ j < i + l₁.length + l₂.length
    · rw [if_pos h₂, if_pos (by omega), List.getD_append_right _ _ _ _ (by omega),
        Nat.sub_sub]
    · rw [if_neg h₂, if_neg (by omega)]

/-- Reading a part of what was stored. -/
theorem read_store_part (m : Memory) (i k n : Nat) (l : List Byte) (h : k + n ≤ l.length) :
    (m.store i l).read (i + k) n = (l.drop k).take n := by
  refine List.ext_getElem ?_ ?_
  · simp only [read, List.length_map, List.length_range, List.length_take, List.length_drop]
    omega
  · intro j hj hj'
    simp only [read, List.length_map, List.length_range] at hj
    simp only [read, List.getElem_map, List.getElem_range, List.getElem_take, List.getElem_drop,
      store]
    rw [if_pos ⟨by omega, by omega⟩, Nat.add_assoc, Nat.add_sub_cancel_left,
      List.getD_eq_getElem?_getD, List.getElem?_eq_getElem (by omega), Option.getD_some]

end Memory

/-- A buffer of `n` bytes. -/
@[ext] structure Buffer (n : Nat) where
  bytes : List Byte
  length_eq : bytes.length = n

namespace Buffer

variable {n : Nat}

/-- `buff[i] = x`. -/
def set (b : Buffer n) (i : Nat) (x : Byte) : Buffer n where
  bytes := b.bytes.set i x
  length_eq := by rw [List.length_set, b.length_eq]

/-- `memcpy` of bytes to the start. What the buffer has no room for is lost. -/
def write (b : Buffer n) (l : List Byte) : Buffer n where
  bytes := (l ++ b.bytes.drop l.length).take n
  length_eq := by
    rw [List.length_take, List.length_append, List.length_drop, b.length_eq]
    omega

theorem bytes_write (b : Buffer n) (l : List Byte) (h : l.length ≤ n) :
    (b.write l).bytes = l ++ b.bytes.drop l.length := by
  refine List.take_of_length_le ?_
  rw [List.length_append, List.length_drop, b.length_eq]
  omega

/-- The start of a buffer that was written to. -/
theorem take_write (b : Buffer n) (l : List Byte) (h : l.length ≤ n) :
    (b.write l).bytes.take l.length = l := by
  rw [bytes_write b l h]
  exact List.take_left' rfl

end Buffer

end Bytes
