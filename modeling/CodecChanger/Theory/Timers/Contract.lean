import CodecChanger.Theory.Timers.Loading

/-!
# How to Use the Timers

`AddEvent` does not look whether the socket has a timer already, and the old one stays in
the map beside the new one. So it takes a discipline of the callers for a socket to have
one timer at most, as it takes one for every timer to have its socket.

The two come to one contract. An `AddEvent` that is not refused names a registered socket
without a timer, and a socket that is removed has no timer. A run keeps to that exactly
when the handler is sound all along and no socket ever has two timers.

## Main definitions

* `Alone`: No socket has two timers.
* `Contract`: What a caller has to see to.

## Theorems

* `call_sublist`: Only `AddEvent` makes timers.
* `alone_call_iff`: The condition on one call.
* `contract_iff`: The exact condition on a run.
-/

namespace CodecChanger

open OrderedMap Trace

variable {κ : Type*}

namespace EventHandler

/-- No socket has two timers. -/
def Alone (s : EventHandler κ) : Prop := (s.eventTable.map fun e => e.2.fd).Nodup

/-- An `AddEvent` on a time that is taken, or for a registered socket without a timer; a
    `RemoveSocket` of a socket without timers or one that fails; or any other call. -/
def Contract (s : EventHandler κ) : Call κ → Prop
  | .addEvent fd time _ => s.Taken time ∨ (s.Registered fd ∧ ∀ e ∈ s.eventTable, e.2.fd ≠ fd)
  | .removeSocket fd ok => ok = true → ∀ e ∈ s.eventTable, e.2.fd ≠ fd
  | _ => True

/-- No call but `AddEvent` makes a timer. -/
theorem call_sublist (s : EventHandler κ) (c : Call κ)
    (h : ∀ fd time cb, c ≠ .addEvent fd time cb) :
    (s.call c).eventTable.Sublist s.eventTable := by
  cases c with
  | addSocket fd cb ok =>
      change (s.addSocket fd cb ok).1.eventTable.Sublist _
      unfold addSocket
      split
      · exact List.Sublist.refl _
      · split
        · exact List.Sublist.refl _
        · exact List.Sublist.refl _
  | removeSocket fd ok =>
      change (s.removeSocket fd ok).1.eventTable.Sublist _
      unfold removeSocket
      split
      · exact List.Sublist.refl _
      · exact List.Sublist.refl _
  | addEvent fd time cb => exact absurd rfl (h fd time cb)
  | deleteEvent fd =>
      change (s.deleteEvent fd).eventTable.Sublist _
      rcases deleteEvent_cases s fd with ⟨-, hs⟩ | ⟨event, -, ⟨-, hs⟩ | ⟨id, -, hs⟩⟩
      · rw [hs]
      · rw [hs]
        exact List.Sublist.refl _
      · rw [hs]
        exact List.filter_sublist
  | serve now =>
      rcases call_serve_cases s now with hs | ⟨e, rest, ht, hs⟩
      · rw [hs]
      have hsub : rest.Sublist s.eventTable := ht ▸ List.sublist_cons_self e rest
      rcases hs with ⟨-, hs⟩ | ⟨event, -, hs⟩
      · rw [hs]
        exact hsub
      · rw [hs]
        exact hsub

/-- A timer that is made is one of the socket it is made for. -/
theorem addEvent_perm (s : EventHandler κ) (fd time : Int) (cb : κ) (ht : ¬ s.Taken time) :
    (s.addEvent fd time cb).eventTable.Perm ((time, ⟨fd, s.nextId⟩) :: s.eventTable) := by
  have htable : (s.addEvent fd time cb).eventTable =
      emplace (· < ·) time ⟨fd, s.nextId⟩ s.eventTable := by
    by_cases hr : s.Registered fd
    · exact (addEvent_of_known s fd time cb ht hr).1
    · exact (addEvent_of_unknown s fd time cb ht hr).1
  rw [htable]
  exact emplace_perm (· < ·) time _ s.eventTable (mt (present_iff_taken s time).mp ht)

theorem alone_addEvent_iff (s : EventHandler κ) (fd time : Int) (cb : κ) (h : s.Alone) :
    (s.addEvent fd time cb).Alone ↔ s.Taken time ∨ ∀ e ∈ s.eventTable, e.2.fd ≠ fd := by
  by_cases ht : s.Taken time
  · rw [addEvent_of_taken s fd time cb ht]
    exact iff_of_true h (Or.inl ht)
  · have hperm := (addEvent_perm s fd time cb ht).map fun e => e.2.fd
    unfold Alone
    rw [hperm.nodup_iff, List.map_cons, List.nodup_cons]
    constructor
    · rintro ⟨hnew, -⟩
      exact Or.inr fun e he hfd => hnew (List.mem_map.mpr ⟨e, he, hfd⟩)
    · intro hc
      refine ⟨fun hmem => ?_, h⟩
      rcases List.mem_map.mp hmem with ⟨e, he, hfd⟩
      exact hc.resolve_left ht e he hfd

/-- One call leaves the handler sound and no socket with two timers exactly when it keeps
    to the contract. -/
theorem alone_call_iff (s : EventHandler κ) (c : Call κ) (hs : s.Sound) (ha : s.Alone) :
    (s.call c).Sound ∧ (s.call c).Alone ↔ s.Contract c := by
  rw [sound_iff_noOrphan, noOrphan_call_iff s c hs.1]
  have hsub : (∀ fd time cb, c ≠ .addEvent fd time cb) → (s.call c).Alone := fun h =>
    ha.sublist ((call_sublist s c h).map _)
  cases c with
  | addEvent fd time cb =>
      change (s.Registered fd ∨ s.Taken time) ∧ (s.addEvent fd time cb).Alone ↔ _
      rw [alone_addEvent_iff s fd time cb ha, or_comm, ← or_and_left]
      exact Iff.rfl
  | addSocket fd cb ok => exact iff_of_true ⟨trivial, hsub (by simp)⟩ trivial
  | removeSocket fd ok => exact and_iff_left (hsub (by simp))
  | deleteEvent fd => exact iff_of_true ⟨trivial, hsub (by simp)⟩ trivial
  | serve now => exact iff_of_true ⟨trivial, hsub (by simp)⟩ trivial

theorem sound_alone_empty : (empty : EventHandler κ).Sound ∧ (empty : EventHandler κ).Alone :=
  ⟨(sound_iff_noOrphan _).mpr fun _ he => absurd he List.not_mem_nil, List.nodup_nil⟩

/-- Along a run of calls to an empty handler, every timer has its socket, no round of
    `HandleEvent` meets the fatal error and no socket has two timers, exactly when all
    calls keep to the contract. -/
theorem contract_iff (calls : List (Call κ)) :
    Along call (fun s => s.Sound ∧ s.Alone) empty calls ↔ Steps call Contract empty calls :=
  along_iff_steps call (fun s => s.Sound ∧ s.Alone) (fun _ => True) (fun _ => True) Contract
    (fun _ _ _ _ _ _ => trivial) (fun s c _ h _ => alone_call_iff s c h.1 h.2) calls empty trivial
    sound_alone_empty fun _ _ => trivial

end EventHandler

end CodecChanger
