import CodecChanger.Core.Sorter
import CodecChanger.Lib.SearchTree
import CodecChanger.Lib.Trace

/-!
# Who Owns a Packet Buffer

Conservation of the pointers that pass through the sorter.

`HandleSocket` frees the buffer of a packet unless `insert` answered
`kPacketNext`; then it forgets the pointer, and the sorter has to hand it out
again or delete it. `Ledger` keeps the books of a whole run: which pointers
were given up, which came back from `get`, which were deleted, and which the
caller kept.

The books balance when the pointers given up are, each once, those held, those
returned and those deleted. One call can break the balance: `insert` of a number
ahead of the expected one that the map holds already. `emplace` then does
nothing, the answer is `kPacketNext` all the same, and the pointer is lost.

What `emplace` does is up to the tree of `std::map`, and as long as the numbers
lie within half the ring the shape of the tree does not matter. Further apart
`Less` is no order any more, and the search can miss a number that is there. So
the runs here are those of `insertIn`, which searches a tree of any shape
(`insertIn_eq` says when it is `insert`), and `conserved_iff` has two parts:
whatever the numbers, the books balance as long as no early packet has the
number of one that is held, and within half the ring they balance in no other
run.

## Main definitions

* `insertIn`, `callIn`: The calls of a client where `data_` is a tree.
* `Ledger`: A sorter with the account of the pointers that passed through it.
* `Ledger.record`: The account after one more call.
* `Ledger.Balanced`: Given up is held, returned or deleted.
* `Ledger.Conserved`: Balanced, each pointer in one place, and none kept twice.
* `NumberNotHeld`: No early packet of a number that is held.
* `WithinHalf`: An early packet's number lies with those held within half the ring.
* `AheadOf`: The packet's number lies in the half window ahead of a base.
* `Sorted`: The entries are in the order of `Less`.

## Theorems

* `held_emplace`: An early packet of a new number is held.
* `emplace_eq`: Within half the ring the tree does what the list does.
* `insertIn_eq`: And `insertIn` is `insert`.
* `sorted_callIn`: Within half the ring the entries stay in order.
* `steps_withinHalf`: Numbers within half the ring stay within half the ring.
* `balanced_record`: What keeps the books balanced.
* `balanced_record_iff`: Within half the ring nothing else does.
* `inserted_perm`: Every inserted pointer was either given up or kept.
* `conserved_iff_balanced`: With distinct pointers, balance is conservation.
* `conserved_iff`: The runs that conserve ownership throughout.
* `conserved_iff_early`: Two packets that arrive early, one of which is fetched.
* `conserved_fails`: A run with a duplicate that leaks its buffer.
-/

namespace CodecChanger

open Circular OrderedMap Trace

open SearchTree (Shape inorder)

namespace PacketSorter

variable {δ : Type*}

/-- `insert` where `data_` is a search tree: of its branches only the one of an early
    packet looks into the map. -/
def insertIn (t : Shape (BitVec 32) δ) (sn : BitVec 32) (d : δ) (q : PacketSorter δ) :
    PacketStatus × PacketSorter δ :=
  match q.insert sn d with
  | (.kPacketNext, _) =>
      (.kPacketNext, { q with data := SearchTree.emplace less sn d (t.tree q.data) })
  | (.kPacketNow, q') => (.kPacketNow, q')
  | (.kPacketBehind, q') => (.kPacketBehind, q')

/-- The sorter after a call that finds the tree in the given shape. -/
def callIn (q : PacketSorter δ) (a : Call δ × Shape (BitVec 32) δ) : PacketSorter δ :=
  match a.1 with
  | .insert sn d => (q.insertIn a.2 sn d).2
  | .init increase => (q.init increase).1
  | .get => q.get.2
  | .skip num => (q.skip num).1

/-- No packet ahead of the expected number arrives while the map holds one of
    its number. -/
def NumberNotHeld (q : PacketSorter δ) : Call δ → Prop
  | .insert sn _ => q.isFirst = false → q.nowSn ≠ sn → ¬ less sn q.nowSn → sn ∉ q.keys
  | _ => True

/-- The number of a packet ahead of the expected one and those held lie within half the
    ring. -/
def WithinHalf (q : PacketSorter δ) : Call δ → Prop
  | .insert sn _ => q.isFirst = false → q.nowSn ≠ sn → ¬ less sn q.nowSn →
      ∃ base, ∀ k ∈ sn :: q.keys, ahead base k < 2 ^ 31
  | _ => True

/-- The number of a packet lies less than half the ring ahead of a base. -/
def AheadOf (base : BitVec 32) : Call δ → Prop
  | .insert sn _ => ahead base sn < 2 ^ 31
  | _ => True

instance (base : BitVec 32) : ∀ c : Call δ, Decidable (AheadOf base c)
  | .insert sn _ => inferInstanceAs (Decidable (ahead base sn < 2 ^ 31))
  | .init _ => inferInstanceAs (Decidable True)
  | .get => inferInstanceAs (Decidable True)
  | .skip _ => inferInstanceAs (Decidable True)

/-- The entries are in the order of `Less`. -/
def Sorted (q : PacketSorter δ) : Prop := q.data.Pairwise fun x y => less x.1 y.1

/-- An early packet of a number that is not held is held, whatever the tree. -/
theorem held_emplace (t : Shape (BitVec 32) δ) (sn : BitVec 32) (d : δ) (q : PacketSorter δ)
    (hsn : sn ∉ q.keys) :
    (held { q with data := SearchTree.emplace less sn d (t.tree q.data) }).Perm (d :: q.held) := by
  have htri : ∀ e ∈ inorder (t.tree q.data), ¬ less sn e.1 → less e.1 sn := by
    intro e he hnot
    rw [t.inorder_tree] at he
    have hne : sn ≠ e.1 := fun hc => hsn (hc ▸ List.mem_map_of_mem he)
    exact (less_or_less sn e.1 hne).resolve_left hnot
  have hperm := SearchTree.emplace_perm_of_ne less sn d (t.tree q.data) htri
  rw [t.inorder_tree] at hperm
  exact hperm.map Prod.snd

/-- Within half the ring the order of `Less` is that of the distances. -/
theorem ranked_of_sorted (base : BitVec 32) (q : PacketSorter δ) (hq : q.Sorted)
    (hwin : ∀ k ∈ q.keys, ahead base k < 2 ^ 31) : Ranked (ahead base) q.data := by
  refine List.Pairwise.imp_of_mem (fun {x y} hx hy hless => ?_) hq
  have h1 := hwin x.1 (List.mem_map_of_mem hx)
  have h2 := hwin y.1 (List.mem_map_of_mem hy)
  exact (precedes_iff_ahead_lt base x.1 y.1 (by omega) (by omega)).mp hless

theorem agrees_of_window (base sn : BitVec 32) (q : PacketSorter δ)
    (hwin : ∀ k ∈ sn :: q.keys, ahead base k < 2 ^ 31) : Agrees (ahead base) less sn q.data := by
  intro e he
  have h1 := hwin sn List.mem_cons_self
  have h2 := hwin e.1 (List.mem_cons_of_mem sn (List.mem_map_of_mem he))
  exact ⟨precedes_iff_ahead_lt base sn e.1 (by omega) (by omega),
    precedes_iff_ahead_lt base e.1 sn (by omega) (by omega)⟩

/-- Within half the ring the tree does what the list of its entries does. -/
theorem emplace_eq (t : Shape (BitVec 32) δ) (base sn : BitVec 32) (d : δ) (q : PacketSorter δ)
    (hq : q.Sorted) (hwin : ∀ k ∈ sn :: q.keys, ahead base k < 2 ^ 31) :
    SearchTree.emplace less sn d (t.tree q.data) = emplace less sn d q.data := by
  have hag := agrees_of_window base sn q hwin
  have hr := ranked_of_sorted base q hq fun k hk => hwin k (List.mem_cons_of_mem sn hk)
  rw [SearchTree.emplace_eq_of_agrees (ahead base) less sn d (t.tree q.data)
    (by rw [t.inorder_tree]; exact hag) (by rw [t.inorder_tree]; exact hr), t.inorder_tree]

/-- All that `insertIn` can do, and when it does it. -/
theorem insertIn_cases (t : Shape (BitVec 32) δ) (sn : BitVec 32) (d : δ) (q : PacketSorter δ) :
    (∃ status q', q.insertIn t sn d = (status, q') ∧ q.insert sn d = (status, q') ∧
        status ≠ .kPacketNext ∧ q'.data = q.data ∧ q.NumberNotHeld (.insert sn d)) ∨
      (q.insertIn t sn d = (.kPacketNext,
          { q with data := SearchTree.emplace less sn d (t.tree q.data) }) ∧
        q.insert sn d = (.kPacketNext, { q with data := emplace less sn d q.data }) ∧
        q.isFirst = false ∧ q.nowSn ≠ sn ∧ ¬ less sn q.nowSn) := by
  rcases insert_cases sn d q with ⟨hnow, h⟩ | ⟨-, hf, h⟩ | ⟨-, -, hl, h⟩ | ⟨hne, hf, hl, h⟩
  · left
    refine ⟨_, _, ?_, h, by decide, rfl, fun _ hne => absurd hnow hne⟩
    simp only [insertIn, h]
  · left
    refine ⟨_, _, ?_, h, by decide, rfl,
      fun hf' => absurd (hf.symm.trans hf') Bool.true_eq_false.mp⟩
    simp only [insertIn, h]
  · left
    refine ⟨_, _, ?_, h, by decide, rfl, fun _ _ hnl => absurd hl hnl⟩
    simp only [insertIn, h]
  · right
    refine ⟨?_, h, hf, hne, hl⟩
    simp only [insertIn, h]

/-- Within half the ring the shape of the tree does not matter. -/
theorem insertIn_eq (t : Shape (BitVec 32) δ) (sn : BitVec 32) (d : δ) (q : PacketSorter δ)
    (hq : q.Sorted) (hwin : q.WithinHalf (.insert sn d)) : q.insertIn t sn d = q.insert sn d := by
  rcases insertIn_cases t sn d q with ⟨status, q', hin, h, -⟩ | ⟨hin, h, hf, hne, hl⟩
  · rw [hin, h]
  · obtain ⟨base, hbase⟩ := hwin hf hne hl
    rw [hin, h, emplace_eq t base sn d q hq hbase]

theorem sorted_of_sublist (q : PacketSorter δ) (hq : q.Sorted) (q' : PacketSorter δ)
    (hsub : q'.data.Sublist q.data) : q'.Sorted := List.Pairwise.sublist hsub hq

/-- Within half the ring an early packet takes its place in the order. -/
theorem sorted_emplace (base sn : BitVec 32) (d : δ) (q : PacketSorter δ) (hq : q.Sorted)
    (hwin : ∀ k ∈ sn :: q.keys, ahead base k < 2 ^ 31) :
    Sorted { q with data := emplace less sn d q.data } := by
  have hag := agrees_of_window base sn q hwin
  have hr := ranked_of_sorted base q hq fun k hk => hwin k (List.mem_cons_of_mem sn hk)
  have hmem : ∀ e ∈ emplace less sn d q.data, ahead base e.1 < 2 ^ 31 := by
    intro e he
    rcases (mem_emplace less sn d q.data e).mp he with he | ⟨rfl, -⟩
    · exact hwin e.1 (List.mem_cons_of_mem sn (List.mem_map_of_mem he))
    · exact hwin sn List.mem_cons_self
  refine List.Pairwise.imp_of_mem (fun {x y} hx hy hlt => ?_)
    (ranked_emplace (ahead base) less sn d q.data hag hr)
  have h1 := hmem x hx
  have h2 := hmem y hy
  exact (precedes_iff_ahead_lt base x.1 y.1 (by omega) (by omega)).mpr hlt

/-- Within half the ring every call keeps the entries in order. -/
theorem sorted_callIn (q : PacketSorter δ) (a : Call δ × Shape (BitVec 32) δ) (hq : q.Sorted)
    (hwin : q.WithinHalf a.1) : (q.callIn a).Sorted := by
  rcases a with ⟨c, t⟩
  cases c with
  | init _ => exact List.Pairwise.nil
  | insert sn d =>
      change (q.insertIn t sn d).2.Sorted
      rw [insertIn_eq t sn d q hq hwin]
      rcases insertIn_cases t sn d q with ⟨status, q', -, h, -, hdata, -⟩ | ⟨-, h, hf, hne, hl⟩
      · rw [h]
        exact sorted_of_sublist q hq q' (hdata ▸ List.Sublist.refl _)
      · obtain ⟨base, hbase⟩ := hwin hf hne hl
        rw [h]
        exact sorted_emplace base sn d q hq hbase
  | get =>
      change q.get.2.Sorted
      rcases get_cases q with ⟨-, hsame⟩ | ⟨e, rest, hd, -, hget⟩
      · rw [hsame]
        exact hq
      · rw [hget]
        exact sorted_of_sublist q hq _ (hd ▸ List.sublist_cons_self e rest)
  | skip num => exact sorted_of_sublist q hq _ (List.dropWhile_suffix _).sublist

/-- No call makes a number up. -/
theorem keys_callIn (P : BitVec 32 → Prop) (q : PacketSorter δ)
    (a : Call δ × Shape (BitVec 32) δ) (hq : ∀ k ∈ q.keys, P k)
    (ha : ∀ sn d, a.1 = .insert sn d → P sn) : ∀ k ∈ (q.callIn a).keys, P k := by
  have hsub : ∀ m : List (BitVec 32 × δ), m.Sublist q.data → ∀ k ∈ m.map Prod.fst, P k :=
    fun m hm k hk => hq k ((hm.map _).subset hk)
  rcases a with ⟨c, t⟩
  cases c with
  | init _ => exact fun k hk => absurd hk List.not_mem_nil
  | insert sn d =>
      change ∀ k ∈ (q.insertIn t sn d).2.data.map Prod.fst, P k
      rcases insertIn_cases t sn d q with ⟨status, q', hin, -, -, hdata, -⟩ | ⟨hin, -⟩
      · rw [hin]
        exact hsub _ (hdata ▸ List.Sublist.refl _)
      · rw [hin]
        intro k hk
        rcases List.mem_map.mp hk with ⟨e, he, rfl⟩
        rcases SearchTree.mem_emplace less sn d (t.tree q.data) e he with he | rfl
        · rw [t.inorder_tree] at he
          exact hq e.1 (List.mem_map_of_mem he)
        · exact ha sn d rfl
  | get =>
      change ∀ k ∈ q.get.2.data.map Prod.fst, P k
      rcases get_cases q with ⟨-, hsame⟩ | ⟨e, rest, hd, -, hget⟩
      · rw [hsame]
        exact hsub _ (List.Sublist.refl _)
      · rw [hget]
        exact hsub _ (hd ▸ List.sublist_cons_self e rest)
  | skip num => exact hsub _ (List.dropWhile_suffix _).sublist

/-- When the numbers of all the packets lie within half the ring, so do those that meet in
    the map. -/
theorem steps_withinHalf (base increase nowSn : BitVec 32)
    (run : List (Call δ × Shape (BitVec 32) δ)) (hrun : ∀ a ∈ run, AheadOf base a.1) :
    Steps callIn (fun q a => q.WithinHalf a.1) (constructed increase nowSn) run := by
  refine steps_of_invariant callIn (fun q => ∀ k ∈ q.keys, ahead base k < 2 ^ 31)
    (fun a => AheadOf base a.1) _ (fun q a hq ha => ?_) (fun q a hq ha => ?_) run _
    (fun k hk => absurd hk List.not_mem_nil) hrun
  · exact keys_callIn _ q a hq fun sn d hc => by rw [hc] at ha; exact ha
  · rcases a with ⟨c, t⟩
    cases c with
    | init _ => trivial
    | get => trivial
    | skip _ => trivial
    | insert sn d =>
        refine fun _ _ _ => ⟨base, fun k hk => ?_⟩
        rcases List.mem_cons.mp hk with rfl | hk
        · exact ha
        · exact hq k hk

/-- A sorter and the pointers that passed through it: given up by the caller,
    returned by `get`, deleted, and kept by the caller. -/
structure Ledger (δ : Type*) where
  sorter : PacketSorter δ
  given : List δ
  got : List δ
  deleted : List δ
  kept : List δ

namespace Ledger

/-- The books of a sorter that has not been used. -/
def start (q : PacketSorter δ) : Ledger δ :=
  { sorter := q, given := [], got := [], deleted := [], kept := [] }

/-- One more call, entered in the books. -/
def record (l : Ledger δ) (a : Call δ × Shape (BitVec 32) δ) : Ledger δ :=
  match a.1 with
  | .init increase =>
      let (q, dropped) := l.sorter.init increase
      { l with sorter := q, deleted := dropped ++ l.deleted }
  | .insert sn d =>
      match l.sorter.insertIn a.2 sn d with
      | (.kPacketNext, q) => { l with sorter := q, given := d :: l.given }
      | (.kPacketNow, q) => { l with sorter := q, kept := d :: l.kept }
      | (.kPacketBehind, q) => { l with sorter := q, kept := d :: l.kept }
  | .get =>
      match l.sorter.get with
      | (some d, q) => { l with sorter := q, got := d :: l.got }
      | (none, q) => { l with sorter := q }
  | .skip num =>
      let (q, dropped) := l.sorter.skip num
      { l with sorter := q, deleted := dropped ++ l.deleted }

/-- The pointers given up are those held, those returned and those deleted. -/
def Balanced (l : Ledger δ) : Prop := l.given.Perm (l.sorter.held ++ l.got ++ l.deleted)

/-- Ownership is conserved: every pointer given up is in exactly one place, and
    no pointer the caller kept is held as well. -/
structure Conserved (l : Ledger δ) : Prop where
  balanced : l.Balanced
  once : (l.sorter.held ++ l.got ++ l.deleted).Nodup
  never : ∀ d ∈ l.kept, d ∉ l.sorter.held

/-- The pointers a list of calls passes in, the latest first. -/
def inserted : List (Call δ × Shape (BitVec 32) δ) → List δ
  | [] => []
  | (.insert _ d, _) :: run => d :: inserted run
  | _ :: run => inserted run

theorem record_sorter (l : Ledger δ) (a : Call δ × Shape (BitVec 32) δ) :
    (l.record a).sorter = l.sorter.callIn a := by
  rcases a with ⟨c, t⟩
  cases c with
  | init _ => rfl
  | insert sn d =>
      simp only [record, callIn]
      split <;> rename_i heq <;> rw [heq]
  | get =>
      simp only [record, callIn]
      split <;> rename_i heq <;> rw [heq]
  | skip _ => rfl

/-- Dropping a prefix of the map moves its pointers from held to deleted. -/
theorem drop_perm (dropped held got deleted : List δ) :
    ((dropped ++ held) ++ got ++ deleted).Perm (held ++ got ++ (dropped ++ deleted)) := by
  simp only [List.append_assoc]
  exact (List.perm_append_comm_assoc dropped held _).trans
    (List.Perm.append_left held (List.perm_append_comm_assoc dropped got deleted))

/-- What an inserted packet does to the books. -/
theorem record_insert_cases (l : Ledger δ) (t : Shape (BitVec 32) δ) (sn : BitVec 32) (d : δ) :
    (∃ q, l.record (.insert sn d, t) = { l with sorter := q, kept := d :: l.kept } ∧
      q.data = l.sorter.data ∧ l.sorter.NumberNotHeld (.insert sn d)) ∨
    (l.record (.insert sn d, t) = { l with
        sorter := { l.sorter with
          data := SearchTree.emplace less sn d (t.tree l.sorter.data) },
        given := d :: l.given } ∧
      l.sorter.isFirst = false ∧ l.sorter.nowSn ≠ sn ∧ ¬ less sn l.sorter.nowSn) := by
  rcases insertIn_cases t sn d l.sorter with
    ⟨status, q, hin, -, hne, hdata, hnot⟩ | ⟨hin, -, hf, hne, hl⟩
  · left
    refine ⟨q, ?_, hdata, hnot⟩
    cases status with
    | kPacketNext => exact absurd rfl hne
    | kPacketNow => simp only [record, hin]
    | kPacketBehind => simp only [record, hin]
  · right
    refine ⟨?_, hf, hne, hl⟩
    simp only [record, hin]

/-- Whatever the numbers, the books stay balanced unless an early packet has the number
    of one that is held. -/
theorem balanced_record (l : Ledger δ) (a : Call δ × Shape (BitVec 32) δ) (hl : l.Balanced)
    (hnot : l.sorter.NumberNotHeld a.1) : (l.record a).Balanced := by
  rcases a with ⟨c, t⟩
  cases c with
  | init inc =>
      refine hl.trans ?_
      have h := drop_perm l.sorter.held [] l.got l.deleted
      rw [List.append_nil] at h
      exact h
  | insert sn d =>
      rcases record_insert_cases l t sn d with ⟨q, hrec, hdata, -⟩ | ⟨hrec, hf, hne, hnl⟩
      · -- The caller keeps the pointer and the map is as it was.
        rw [hrec, Balanced, held, hdata]
        exact hl
      · rw [hrec]
        have hheld := held_emplace t sn d l.sorter (hnot hf hne hnl)
        exact (hl.cons d).trans ((hheld.append_right l.got).append_right l.deleted).symm
  | get =>
      simp only [record]
      rcases get_cases l.sorter with ⟨hnone, hsame⟩ | ⟨e, rest, hd, -, hget⟩
      · rcases hg : l.sorter.get with ⟨got, q⟩
        simp only [hg] at hnone hsame
        rw [hnone, hsame]
        exact hl
      · -- The pointer moves from held to returned.
        rw [hget]
        refine hl.trans ?_
        have hheld : l.sorter.held = e.2 :: rest.map Prod.snd := by
          rw [held, hd, List.map_cons]
        rw [hheld]
        exact (List.perm_middle.symm).append_right l.deleted
  | skip num =>
      refine hl.trans ?_
      have hsplit : l.sorter.held = (l.sorter.skip num).2 ++ (l.sorter.skip num).1.held := by
        simp only [held, skip]
        rw [← List.map_append, List.takeWhile_append_dropWhile]
      rw [hsplit]
      exact drop_perm _ _ _ _

/-- Within half the ring, an early packet of a number that is held always upsets them. -/
theorem balanced_record_iff (l : Ledger δ) (a : Call δ × Shape (BitVec 32) δ)
    (hq : l.sorter.Sorted) (hl : l.Balanced) (hwin : l.sorter.WithinHalf a.1) :
    (l.record a).Balanced ↔ l.sorter.NumberNotHeld a.1 := by
  refine ⟨fun h => ?_, balanced_record l a hl⟩
  rcases a with ⟨c, t⟩
  cases c with
  | init _ => trivial
  | get => trivial
  | skip _ => trivial
  | insert sn d =>
      intro hf hne hnl hk
      rcases record_insert_cases l t sn d with ⟨q, -, -, hnot⟩ | ⟨hrec, -⟩
      · exact hnot hf hne hnl hk
      · -- `emplace` refused: one more pointer given up, none more held.
        obtain ⟨base, hbase⟩ := hwin hf hne hnl
        have hpres : Present less sn l.sorter.data := (present_iff sn l.sorter).mpr hk
        rw [hrec, Balanced, emplace_eq t base sn d l.sorter hq hbase,
          emplace_of_present less sn d _ hpres] at h
        have h1 := h.length_eq
        have h2 := hl.length_eq
        simp only [List.length_cons] at h1
        simp only [held] at h1 h2
        omega

/-- Every pointer passed in is either given up or kept. -/
theorem inserted_perm (run : List (Call δ × Shape (BitVec 32) δ)) (l : Ledger δ) :
    ((Trace.run record l run).given ++ (Trace.run record l run).kept).Perm
      (inserted run ++ (l.given ++ l.kept)) := by
  induction run generalizing l with
  | nil => exact List.Perm.refl _
  | cons a run ih =>
      refine (ih (l.record a)).trans ?_
      rcases a with ⟨c, t⟩
      cases c with
      | init _ => exact List.Perm.refl _
      | insert sn d =>
          rcases record_insert_cases l t sn d with ⟨q, hrec, -⟩ | ⟨hrec, -⟩
          · rw [hrec]
            simp only [inserted, List.cons_append]
            exact (List.Perm.append_left _ List.perm_middle).trans List.perm_middle
          · rw [hrec]
            simp only [inserted, List.cons_append]
            exact List.perm_middle
      | get =>
          simp only [record, inserted]
          split <;> exact List.Perm.refl _
      | skip _ => exact List.Perm.refl _

/-- Once the pointers given up and kept are all distinct, balanced books are
    all there is to conservation. -/
theorem conserved_iff_balanced (l : Ledger δ) (hnd : (l.given ++ l.kept).Nodup) :
    l.Conserved ↔ l.Balanced := by
  refine ⟨fun h => h.balanced, fun h => ⟨h, ?_, fun d hk hh => ?_⟩⟩
  · exact h.nodup_iff.mp (List.nodup_append.mp hnd).1
  · have hg : d ∈ l.given := h.mem_iff.mpr
      (List.mem_append_left _ (List.mem_append_left _ hh))
    exact (List.nodup_append.mp hnd).2.2 d hg d hk rfl

theorem inserted_sublist (p run : List (Call δ × Shape (BitVec 32) δ)) (hp : p <+: run) :
    (inserted p).Sublist (inserted run) := by
  induction p generalizing run with
  | nil => exact List.nil_sublist _
  | cons a p ih =>
      cases run with
      | nil => exact absurd (List.prefix_nil.mp hp) (List.cons_ne_nil a p)
      | cons a' run =>
          rcases List.cons_prefix_cons.mp hp with ⟨rfl, hp'⟩
          rcases a with ⟨c, t⟩
          cases c with
          | insert _ d => exact (ih run hp').cons_cons d
          | init _ => exact ih run hp'
          | get => exact ih run hp'
          | skip _ => exact ih run hp'

/-- With distinct pointers, ownership is conserved along a run as long as the books
    balance. -/
theorem along_conserved_iff (q : PacketSorter δ) (run : List (Call δ × Shape (BitVec 32) δ))
    (hnd : (inserted run).Nodup) :
    Along record Conserved (start q) run ↔ Along record Balanced (start q) run := by
  rw [along_iff_prefixes, along_iff_prefixes]
  refine forall₂_congr fun p hp => conserved_iff_balanced _ ?_
  have hperm := inserted_perm p (start q)
  simp only [start, List.append_nil] at hperm
  exact hperm.nodup_iff.mpr (hnd.sublist (inserted_sublist p run hp))

/-- From a sorter as constructed, along every run of calls with distinct pointers and
    whatever the shapes of the tree: ownership is conserved in every state when no early
    packet arrives while the map holds one of its number, and while the numbers lie within
    half the ring in no other run. -/
theorem conserved_iff (increase nowSn : BitVec 32) (run : List (Call δ × Shape (BitVec 32) δ))
    (hnd : (inserted run).Nodup) :
    (Steps callIn (fun q a => q.NumberNotHeld a.1) (constructed increase nowSn) run →
      Along record Conserved (start (constructed increase nowSn)) run) ∧
    (Steps callIn (fun q a => q.WithinHalf a.1) (constructed increase nowSn) run →
      (Along record Conserved (start (constructed increase nowSn)) run ↔
        Steps callIn (fun q a => q.NumberNotHeld a.1) (constructed increase nowSn) run)) := by
  have hstart : (start (constructed increase nowSn : PacketSorter δ)).Balanced :=
    List.Perm.refl _
  have hsorted : (constructed increase nowSn : PacketSorter δ).Sorted := List.Pairwise.nil
  have hmap := fun C : PacketSorter δ → Call δ × Shape (BitVec 32) δ → Prop =>
    steps_map record callIn Ledger.sorter record_sorter C run (start (constructed increase nowSn))
  rw [along_conserved_iff _ run hnd]
  constructor
  · intro hnot
    exact along_of_steps record Balanced (fun l a => l.sorter.NumberNotHeld a.1) balanced_record
      run _ hstart ((hmap fun q a => q.NumberNotHeld a.1).mpr hnot)
  · intro hwin
    rw [along_iff_steps_of_steps record Balanced (fun l => l.sorter.Sorted)
      (fun l a => l.sorter.WithinHalf a.1) (fun l a => l.sorter.NumberNotHeld a.1)
      (fun l a hq _ hw _ => by rw [record_sorter]; exact sorted_callIn l.sorter a hq hw)
      balanced_record_iff run _ hsorted hstart ((hmap fun q a => q.WithinHalf a.1).mpr hwin)]
    exact hmap fun q a => q.NumberNotHeld a.1

/-- The packets 5, 8, 7 and 6: two are held when 6 closes the gap, and 7 is fetched. -/
def earlyRun : List (Call Nat × Shape (BitVec 32) Nat) :=
  [.init 1, .insert 5 0, .insert 8 1, .insert 7 2, .insert 6 3, .get].map fun c => (c, .chain)

theorem conserved_iff_early :
    Along record Conserved (start (constructed 0 0)) earlyRun ↔
      Steps callIn (fun q a => q.NumberNotHeld a.1) (constructed 0 0) earlyRun := by
  have hrun : ∀ a ∈ earlyRun, AheadOf 5 a.1 := by decide
  exact (conserved_iff 0 0 earlyRun (by decide)).2 (steps_withinHalf 5 0 0 earlyRun hrun)

/-- The packets 5 and 7, and 7 again while the first is still held: the buffer
    numbered 2 is given up and nobody has it. -/
theorem conserved_fails :
    ¬ Along record Conserved (start (constructed 0 0))
      ([.init 1, .insert 5 0, .insert 7 1, .insert 7 (2 : Nat)].map fun c => (c, .chain)) := by
  intro h
  have hlast := (along_iff_prefixes record Conserved _ _).mp h _ (List.prefix_refl _)
  exact absurd hlast.balanced.length_eq (by decide +kernel)

end Ledger

end PacketSorter

end CodecChanger
