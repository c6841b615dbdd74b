import CodecChanger.Theory.Timers.Orphans

/-!
# Serving the Timers

What a call of `HandleEvent` comes to, when its callbacks leave the handler alone and the
clock stands still. The loop takes the front timer off the map, resets its socket's
iterator and calls its socket's function, and looks at the front of the map again. All in
all it is to call the functions of the timers that are due, in the order of their times,
to take these timers off the map and no others, and to reset the iterators of their
sockets.

It does so when every one of these sockets holds a function to be called. A socket does
not hold one before its first `AddEvent`, and still there may be a timer for it: one that
an earlier socket of the same number has left behind, because `RemoveSocket` does not take
it off the map. The call of the empty function throws, and the timers behind that one are
not served.

## Main definitions

* `callback`: The function a socket holds.
* `due`: The timers that are due.
* `InOrder`: The map keeps its timers in the order of their times.
* `served`: The handler when all of them are served.
* `Serves`: A call of `HandleEvent` does its work.
* `Outcome`: What the rounds of a call come to.

## Theorems

* `serve_of_due`, `serve_of_later`: What a round does.
* `rounds`: What all rounds do.
* `serves_iff`: The exact condition for `HandleEvent` to do its work.
-/

namespace CodecChanger

open Loop OrderedMap Trace

variable {κ : Type*}

namespace EventHandler

/-- The function that the socket holds for its timer, if there is one. -/
def callback (s : EventHandler κ) (fd : Int) : Option κ := (s.socketsEvent fd).bind Event.cb

/-- The timers that are due. -/
def due (s : EventHandler κ) (now : Int) : List (Int × Node) :=
  s.eventTable.filter fun e => e.1 ≤ now

/-- The timers stand in the order of their times, and no two have the same time. -/
def InOrder (s : EventHandler κ) : Prop := Ranked id s.eventTable

/-- The handler without the timers that are due, and with the iterators of their sockets
    reset. -/
def served (s : EventHandler κ) (now : Int) : EventHandler κ :=
  { s with
    eventTable := s.eventTable.filter fun e => now < e.1
    socketsEvent := fun fd =>
      if ∃ e ∈ s.due now, e.2.fd = fd then
        (s.socketsEvent fd).map fun event => { event with it := none }
      else s.socketsEvent fd }

/-- The call has come to its end, and has called the functions of the timers that are due,
    each once and in the order of their times. It has left the later timers in the map,
    and has reset the iterators of the sockets it has served, and no others. -/
structure Serves (s : EventHandler κ) (now : Int) (r : Ending × Handling κ) : Prop where
  ended : r.1 = .idle
  called : r.2.called.map some = (s.due now).map fun e => s.callback e.2.fd
  once : ((s.due now).map fun e => e.2.fd).Nodup
  ordered : (s.due now).Pairwise fun x y => x.1 < y.1
  left : r.2.handler.eventTable = s.eventTable.filter fun e => now < e.1
  reset : ∀ fd, (∃ e ∈ s.due now, e.2.fd = fd) → r.2.handler.socketsEvent fd =
    (s.socketsEvent fd).map fun event => { event with it := none }
  others : ∀ fd, (¬ ∃ e ∈ s.due now, e.2.fd = fd) →
    r.2.handler.socketsEvent fd = s.socketsEvent fd

theorem served_socketsEvent (s : EventHandler κ) (now fd : Int) :
    (s.served now).socketsEvent fd = if ∃ e ∈ s.due now, e.2.fd = fd then
      (s.socketsEvent fd).map fun event => { event with it := none }
    else s.socketsEvent fd := rfl

/-- A round takes a timer that is due. -/
theorem serve_of_due (s : EventHandler κ) (now : Int) (e : Int × Node)
    (rest : List (Int × Node)) (event : Event κ) (ht : s.eventTable = e :: rest)
    (hdue : e.1 ≤ now) (he : s.socketsEvent e.2.fd = some event) :
    s.serve now = .called (s.disarmed rest e.2.fd event) event.cb := by
  unfold serve
  rw [ht]
  simp only [if_neg (Int.not_lt.mpr hdue), he]
  rfl

/-- Before all timers there is nothing to do. -/
theorem serve_of_later (s : EventHandler κ) (now : Int) (h : ∀ e ∈ s.eventTable, now < e.1) :
    s.serve now = .idle ∧ s.due now = [] ∧ s.served now = s := by
  have hdue : s.due now = [] := List.filter_eq_nil_iff.mpr fun e he hle =>
    absurd (h e he) (Int.not_lt.mpr (of_decide_eq_true hle))
  have hleft : (s.eventTable.filter fun e => now < e.1) = s.eventTable :=
    List.filter_eq_self.mpr fun e he => decide_eq_true (h e he)
  refine ⟨?_, hdue, ?_⟩
  · unfold serve
    cases ht : s.eventTable with
    | nil => rfl
    | cons e rest =>
        have hlater := h e (by rw [ht]; exact List.mem_cons_self)
        simp only [if_pos hlater]
  · unfold served
    rw [hdue, hleft]
    simp only [List.not_mem_nil, false_and, exists_false, if_false]

/-- Taking a timer off the map leaves the sockets their functions. -/
theorem callback_disarmed (s : EventHandler κ) (rest : List (Int × Node)) (fd : Int)
    (event : Event κ) (he : s.socketsEvent fd = some event) (fd' : Int) :
    (s.disarmed rest fd event).callback fd' = s.callback fd' := by
  unfold callback
  rw [disarmed_socketsEvent]
  by_cases hfd : fd' = fd
  · rw [hfd, Function.update_self, he]
    rfl
  · rw [Function.update_of_ne hfd]

theorem registered_disarmed (s : EventHandler κ) (rest : List (Int × Node)) (fd : Int)
    (event : Event κ) (he : s.socketsEvent fd = some event) (fd' : Int)
    (h : (s.disarmed rest fd event).Registered fd') : s.Registered fd' := by
  by_cases hfd : fd' = fd
  · rw [Registered, hfd, he]
    rfl
  · rw [Registered, disarmed_socketsEvent, Function.update_of_ne hfd] at h
    exact h

/-- What is left to be done is what there was to do, but for the front timer. -/
theorem served_disarmed (s : EventHandler κ) (now : Int) (e : Int × Node)
    (rest : List (Int × Node)) (event : Event κ) (ht : s.eventTable = e :: rest)
    (hdue : e.1 ≤ now) (he : s.socketsEvent e.2.fd = some event) :
    s.due now = e :: (s.disarmed rest e.2.fd event).due now ∧
      (s.disarmed rest e.2.fd event).served now = s.served now := by
  have hfront : s.due now = e :: (s.disarmed rest e.2.fd event).due now := by
    have hkeep : decide (e.1 ≤ now) = true := decide_eq_true hdue
    unfold due
    rw [ht, List.filter_cons, if_pos hkeep]
    rfl
  have hleft : ((s.disarmed rest e.2.fd event).eventTable.filter fun e => now < e.1) =
      s.eventTable.filter fun e => now < e.1 := by
    have hdrop : ¬ decide (now < e.1) = true := fun hc =>
      Int.not_lt.mpr hdue (of_decide_eq_true hc)
    rw [ht, List.filter_cons, if_neg hdrop]
    rfl
  have hevents : ((s.disarmed rest e.2.fd event).served now).socketsEvent =
      (s.served now).socketsEvent := by
    funext fd
    rw [served_socketsEvent, served_socketsEvent, hfront, disarmed_socketsEvent]
    by_cases hfd : fd = e.2.fd
    · -- The socket of the front timer is reset now, and stays so.
      have hmem : ∃ e' ∈ e :: (s.disarmed rest e.2.fd event).due now, e'.2.fd = fd :=
        ⟨e, List.mem_cons_self, hfd.symm⟩
      rw [if_pos hmem, hfd, Function.update_self, he]
      split
      · rfl
      · rfl
    · rw [Function.update_of_ne hfd]
      refine if_congr ⟨?_, ?_⟩ rfl rfl
      · rintro ⟨e', he', hfd'⟩
        exact ⟨e', List.mem_cons_of_mem e he', hfd'⟩
      · rintro ⟨e', he', hfd'⟩
        rcases List.mem_cons.mp he' with rfl | he'
        · exact absurd hfd'.symm hfd
        · exact ⟨e', he', hfd'⟩
  exact ⟨hfront, congrArg₂ (fun table events =>
    { s with eventTable := table, socketsEvent := events }) hleft hevents⟩

/-- What the loop is to come to, from a state in which some callbacks have been called:
    all timers served, or an empty function. -/
def Outcome (s : EventHandler κ) (now : Int) (called : List κ) (r : Ending × Handling κ) : Prop :=
  ((∀ e ∈ s.due now, s.callback e.2.fd ≠ none) →
    r = (.idle, ⟨s.served now, called ++ (s.due now).filterMap fun e => s.callback e.2.fd⟩)) ∧
  ((∃ e ∈ s.due now, s.callback e.2.fd = none) → r.1 = .thrown)

/-- With no timer due it is over. -/
theorem outcome_of_later (s : EventHandler κ) (now : Int) (called : List κ)
    (h : ∀ e ∈ s.eventTable, now < e.1) : Outcome s now called (.idle, ⟨s, called⟩) := by
  rcases serve_of_later s now h with ⟨-, hdue, hserved⟩
  unfold Outcome
  rw [hdue, hserved, List.filterMap_nil, List.append_nil]
  refine ⟨fun _ => rfl, ?_⟩
  rintro ⟨e, he, -⟩
  exact absurd he List.not_mem_nil

/-- A round that calls a function leaves the others to be called. -/
theorem outcome_of_disarmed (s : EventHandler κ) (now : Int) (called : List κ) (e : Int × Node)
    (rest : List (Int × Node)) (event : Event κ) (cb : κ) (r : Ending × Handling κ)
    (ht : s.eventTable = e :: rest) (hdue : e.1 ≤ now)
    (he : s.socketsEvent e.2.fd = some event) (hcb : event.cb = some cb)
    (h : Outcome (s.disarmed rest e.2.fd event) now (called ++ [cb]) r) :
    Outcome s now called r := by
  rcases served_disarmed s now e rest event ht hdue he with ⟨hfront, hserved⟩
  have hsame := callback_disarmed s rest e.2.fd event he
  have hown : s.callback e.2.fd = some cb := by rw [callback, he]; exact hcb
  have hcalled : (e :: (s.disarmed rest e.2.fd event).due now).filterMap
      (fun e => s.callback e.2.fd) = cb :: ((s.disarmed rest e.2.fd event).due now).filterMap
        fun e => s.callback e.2.fd := List.filterMap_cons_some hown
  unfold Outcome at h ⊢
  simp only [hsame, hserved] at h
  rw [hfront, hcalled]
  constructor
  · intro hall
    rw [h.1 fun e' he' => hall e' (List.mem_cons_of_mem e he'), List.append_assoc,
      List.singleton_append]
  · rintro ⟨e', he', hnone⟩
    rcases List.mem_cons.mp he' with rfl | he'
    · exact absurd (hown.symm.trans hnone) (by simp only [reduceCtorEq, not_false_eq_true])
    · exact h.2 ⟨e', he', hnone⟩

section Rounds

variable (react : React κ) (now : Int)

theorem rounds_of_later (s : EventHandler κ) (called : List κ)
    (h : ∀ e ∈ s.eventTable, now < e.1) :
    ∃ r, Gives (body react fun _ => now) ⟨s, called⟩ r ∧ Outcome s now called r := by
  have hbody : body react (fun _ => now) ⟨s, called⟩ = .leave (.idle, ⟨s, called⟩) := by
    simp only [body, (serve_of_later s now h).1]
  exact ⟨_, (gives_leave _ _ _ hbody).mpr rfl, outcome_of_later s now called h⟩

/-- The rounds of `HandleEvent` serve the timers that are due, up to the first whose
    socket holds an empty function. -/
theorem rounds (hreact : ∀ cb t, run call t (react cb t) = t) (table : List (Int × Node))
    (s : EventHandler κ) (ht : s.eventTable = table) (ho : s.InOrder) (hs : s.NoOrphan)
    (called : List κ) :
    ∃ r, Gives (body react fun _ => now) ⟨s, called⟩ r ∧ Outcome s now called r := by
  induction table generalizing s called with
  | nil =>
      exact rounds_of_later react now s called fun e he =>
        absurd he (by rw [ht]; exact List.not_mem_nil)
  | cons e rest ih =>
      have hpairs : (e :: rest).Pairwise fun x y => x.1 < y.1 := ht ▸ ho
      rcases List.pairwise_cons.mp hpairs with ⟨hfirst, hrest⟩
      have hsub : rest.Sublist s.eventTable := ht ▸ List.sublist_cons_self e rest
      by_cases hdue : e.1 ≤ now
      · rcases Option.isSome_iff_exists.mp (hs e (by rw [ht]; exact List.mem_cons_self))
          with ⟨event, he⟩
        have hserve := serve_of_due s now e rest event ht hdue he
        cases hcb : event.cb with
        | none =>
            have hbody : body react (fun _ => now) ⟨s, called⟩ =
                .leave (.thrown, ⟨s.disarmed rest e.2.fd event, called⟩) := by
              simp only [body, hserve, hcb]
            have hnone : s.callback e.2.fd = none := by rw [callback, he]; exact hcb
            have hmem : e ∈ s.due now := by
              rw [(served_disarmed s now e rest event ht hdue he).1]
              exact List.mem_cons_self
            exact ⟨_, (gives_leave _ _ _ hbody).mpr rfl,
              fun hall => absurd hnone (hall e hmem), fun _ => rfl⟩
        | some cb =>
            have hbody : body react (fun _ => now) ⟨s, called⟩ =
                .again ⟨s.disarmed rest e.2.fd event, called ++ [cb]⟩ := by
              simp only [body, hserve, hcb, hreact]
            rcases ih (s.disarmed rest e.2.fd event) rfl hrest
              (noOrphan_disarmed s rest e.2.fd event hsub hs) (called ++ [cb]) with ⟨r, hr, hout⟩
            exact ⟨r, (gives_again _ _ r hbody).mpr hr,
              outcome_of_disarmed s now called e rest event cb r ht hdue he hcb hout⟩
      · -- All timers behind the front one are later than it.
        refine rounds_of_later react now s called fun e' he' => ?_
        rw [ht] at he'
        rcases List.mem_cons.mp he' with rfl | he'
        · exact Int.not_le.mp hdue
        · exact Int.lt_trans (Int.not_le.mp hdue) (hfirst e' he')

variable (s : EventHandler κ)

/-- With a function for every timer that is due, `HandleEvent` does its work. -/
theorem serves_of_filled (hreact : ∀ cb t, run call t (react cb t) = t) (ho : s.InOrder)
    (hs : s.NoOrphan) (hone : (s.eventTable.map fun e => e.2.fd).Nodup)
    (hfilled : ∀ e ∈ s.due now, s.callback e.2.fd ≠ none) :
    ∃ r, s.handleEvent react (fun _ => now) r ∧ Serves s now r := by
  rcases rounds react now hreact s.eventTable s rfl ho hs [] with ⟨r, hr, hall, -⟩
  have hsome : ((s.due now).map fun e => s.callback e.2.fd).filter Option.isSome =
      (s.due now).map fun e => s.callback e.2.fd := by
    refine List.filter_eq_self.mpr fun cb hcb => ?_
    rcases List.mem_map.mp hcb with ⟨e, he, rfl⟩
    exact Option.isSome_iff_ne_none.mpr (hfilled e he)
  refine ⟨r, hr, ?_⟩
  rw [hall hfilled, List.nil_append]
  exact {
    ended := rfl
    called := List.map_filterMap_some_eq_filter_map_isSome.trans hsome
    once := hone.sublist (List.filter_sublist.map _)
    ordered := ho.sublist List.filter_sublist
    left := rfl
    reset := fun fd hfd => if_pos hfd
    others := fun fd hfd => if_neg hfd }

/-- And without one it throws. -/
theorem ending_of_empty (hreact : ∀ cb t, run call t (react cb t) = t) (ho : s.InOrder)
    (hs : s.NoOrphan) (hempty : ∃ e ∈ s.due now, s.callback e.2.fd = none)
    (r : Ending × Handling κ) (h : s.handleEvent react (fun _ => now) r) : r.1 = .thrown := by
  rcases rounds react now hreact s.eventTable s rfl ho hs [] with ⟨r', hr', -, hnone⟩
  rw [gives_unique _ r r' h hr']
  exact hnone hempty

/-- In a handler whose timers all belong to registered sockets, and to different ones, with
    callbacks that leave the handler as it is, `HandleEvent` does its work exactly when
    every socket with a timer that is due holds a function. -/
theorem serves_iff (hreact : ∀ cb t, run call t (react cb t) = t) (ho : s.InOrder)
    (hs : s.NoOrphan) (hone : (s.eventTable.map fun e => e.2.fd).Nodup) :
    (∃ r, s.handleEvent react (fun _ => now) r ∧ Serves s now r) ↔
      ∀ e ∈ s.due now, s.callback e.2.fd ≠ none := by
  refine ⟨?_, serves_of_filled react now s hreact ho hs hone⟩
  rintro ⟨r, hr, hserves⟩ e he hnone
  have hthrown := ending_of_empty react now s hreact ho hs ⟨e, he, hnone⟩ r hr
  exact absurd (hserves.ended.symm.trans hthrown) (by decide)

end Rounds

/-- Two sockets, one with a timer that is due and one with a timer that is not. -/
theorem serves_iff_two :
    let s := run call (empty : EventHandler Nat)
      [.addSocket 3 0 true, .addEvent 3 10 0, .addSocket 4 1 true, .addEvent 4 30 1]
    ∃ r, s.handleEvent (fun _ _ => []) (fun _ => 20) r ∧ Serves s 20 r :=
  (serves_iff (fun _ _ => []) 20 _ (fun _ _ => rfl) (by unfold InOrder Ranked; decide)
    (by unfold NoOrphan; decide) (by decide)).mpr (by decide)

/-- A timer of a socket that has been removed, and another socket of the same number. The
    call throws at that timer, and leaves the next one. -/
theorem serves_fails :
    let s := run call (empty : EventHandler Unit) [.addSocket 3 () true, .addEvent 3 10 (),
      .removeSocket 3 true, .addSocket 3 () true, .addSocket 4 () true, .addEvent 4 11 ()]
    (s.InOrder ∧ s.NoOrphan ∧ (s.eventTable.map fun e => e.2.fd).Nodup) ∧
      (∃ r, s.handleEvent (fun _ _ => []) (fun _ => 20) r ∧ r.1 = .thrown ∧
        r.2.called = [] ∧ r.2.handler.eventTable = [(11, ⟨4, 1⟩)]) ∧
      ¬ ∃ r, s.handleEvent (fun _ _ => []) (fun _ => 20) r ∧ Serves s 20 r := by
  intro s
  have hs : s.InOrder ∧ s.NoOrphan ∧ (s.eventTable.map fun e => e.2.fd).Nodup := by
    refine ⟨?_, ?_, by decide⟩
    · unfold InOrder Ranked
      decide
    · unfold NoOrphan
      decide
  refine ⟨hs, ⟨_, ⟨1, rfl⟩, rfl, rfl, rfl⟩, ?_⟩
  rintro ⟨r, hr, hserves⟩
  have hthrown := ending_of_empty (fun _ _ => []) 20 s (fun _ _ => rfl) hs.1 hs.2.1
    ⟨(10, ⟨3, 0⟩), by decide, by decide⟩ r hr
  exact absurd (hserves.ended.symm.trans hthrown) (by decide)

end EventHandler

end CodecChanger
