import CodecChanger.Core.EventLoop
import CodecChanger.Theory.Timers.Contract
import CodecChanger.Theory.Timers.Iterators

/-!
# Timers That Set Timers

The function of a timer is there to do something, and what it does may be to set other
timers. `HandleEvent` looks at the front of the map after every call, so a timer set for a
time that has passed is served in the same call, and one that is set so again and again
keeps the loop from ending.

When the functions set timers for later times only, do not cancel timers that are due, and
keep to the contract, the loop ends and the timers that were due when it began are the ones
it serves, each once and in the order of their times. None is due when it is over.

All this is for functions that leave their own socket's timer as it is and do not remove
their own socket. `HandleEvent` calls a function where the socket holds it, and one that
sets its own timer again overwrites itself while it runs.

## Main definitions

* `Tidy`: What a handler is like whose callers keep to the contract.
* `Gentle`: What the function of a timer may call.
* `TimersSpared`: No function overwrites or destroys itself.
* `Keeps`: The timers that are due, and their functions, are as they were.
* `ServesDue`: A call that has served the timers that were due.

## Theorems

* `tidy_call`: The contract keeps a handler tidy.
* `gentle_call`: A gentle call leaves alone what is due.
* `front_of_due`: The first timer that is due is at the front.
* `spared_visits`: Every function that is called stays in its place.
* `serves_rearming`: What `HandleEvent` comes to with such functions.
-/

namespace CodecChanger

open Loop OrderedMap Trace

variable {κ : Type*}

namespace EventHandler

/-- Iterators are valid, timers are in order, every timer's socket holds a function, and no
    socket has two timers. -/
structure Tidy (s : EventHandler κ) : Prop where
  tracked : s.Tracked
  inOrder : s.InOrder
  loaded : s.Loaded
  alone : s.Alone

theorem sound_of_loaded (s : EventHandler κ) (h : s.Loaded) : s.Sound :=
  (sound_iff_noOrphan s).mpr fun e he => registered_of_callback s e.2.fd (h.filled e he)

theorem tidy_empty : Tidy (empty : EventHandler κ) where
  tracked := tracked_empty
  inOrder := List.Pairwise.nil
  loaded := ⟨fun _ hr => absurd hr Bool.false_ne_true, fun _ he => absurd he List.not_mem_nil⟩
  alone := List.nodup_nil

/-- A call that keeps to the contract leaves a handler tidy. -/
theorem tidy_call (s : EventHandler κ) (c : Call κ) (h : s.Tidy) (hc : s.Contract c) :
    (s.call c).Tidy := by
  have hsound := sound_of_loaded s h.loaded
  have hcareful : s.Careful c := by
    rw [← noOrphan_call_iff s c hsound.1, ← sound_iff_noOrphan]
    exact ((alone_call_iff s c hsound h.alone).mpr hc).1
  exact {
    tracked := tracked_call s c h.tracked
    inOrder := inOrder_call s c h.inOrder
    loaded := loaded_call s c h.loaded hcareful
    alone := ((alone_call_iff s c hsound h.alone).mpr hc).2 }

/-- An `AddEvent` for a later time that keeps to the contract, a `DeleteEvent` of a timer
    that is not due, or any other call that keeps to the contract and is not a round of
    `HandleEvent`. -/
def Gentle (now : Int) (s : EventHandler κ) : Call κ → Prop
  | .addEvent fd time _ =>
      s.Taken time ∨ (now < time ∧ s.Registered fd ∧ ∀ e ∈ s.eventTable, e.2.fd ≠ fd)
  | .deleteEvent fd => ∀ e ∈ s.eventTable, e.2.fd = fd → now < e.1
  | .serve _ => False
  | c => s.Contract c

theorem contract_of_gentle (now : Int) (s : EventHandler κ) (c : Call κ) (h : s.Gentle now c) :
    s.Contract c := by
  cases c with
  | addEvent fd time cb => exact h.imp_right fun h => h.2
  | addSocket fd cb ok => exact h
  | removeSocket fd ok => exact h
  | deleteEvent fd => exact trivial
  | serve now => exact trivial

/-- The timers that are due are the same, and so are their functions. -/
structure Keeps (now : Int) (s s' : EventHandler κ) : Prop where
  due_eq : s'.due now = s.due now
  callback_eq : ∀ e ∈ s.due now, s'.callback e.2.fd = s.callback e.2.fd

theorem keeps_refl (now : Int) (s : EventHandler κ) : Keeps now s s := ⟨rfl, fun _ _ => rfl⟩

theorem keeps_trans (now : Int) (s t u : EventHandler κ) (h : Keeps now s t)
    (h' : Keeps now t u) : Keeps now s u := by
  refine ⟨h'.due_eq.trans h.due_eq, fun e he => ?_⟩
  rw [h'.callback_eq e (by rw [h.due_eq]; exact he), h.callback_eq e he]

theorem mem_of_due (s : EventHandler κ) (now : Int) (e : Int × Node) (h : e ∈ s.due now) :
    e ∈ s.eventTable ∧ e.1 ≤ now :=
  ⟨List.mem_of_mem_filter h, of_decide_eq_true (List.mem_filter.mp h).2⟩

/-- What happens to a socket without a timer that is due. -/
theorem keeps_of_other (now : Int) (s s' : EventHandler κ) (fd : Int)
    (hdue : s'.due now = s.due now) (hfd : ∀ e ∈ s.due now, e.2.fd ≠ fd)
    (hevents : ∀ fd', fd' ≠ fd → s'.socketsEvent fd' = s.socketsEvent fd') : Keeps now s s' := by
  refine ⟨hdue, fun e he => ?_⟩
  rw [callback, callback, hevents e.2.fd (hfd e he)]

theorem keeps_addSocket (now : Int) (s : EventHandler κ) (fd : Int) (cb : κ) (ok : Bool)
    (h : s.Tidy) : Keeps now s (s.addSocket fd cb ok).1 := by
  unfold addSocket
  split
  · exact ⟨rfl, fun _ _ => rfl⟩
  · rename_i hnew
    split
    · exact keeps_refl now s
    · -- A socket that is not known has no timer.
      refine keeps_of_other now s _ fd rfl (fun e he hfd => hnew ?_)
        fun fd' hne => Function.update_of_ne hne _ _
      have hmem := (mem_of_due s now e he).1
      rw [← hfd]
      exact h.loaded.known e.2.fd (registered_of_callback s e.2.fd (h.loaded.filled e hmem))

theorem keeps_removeSocket (now : Int) (s : EventHandler κ) (fd : Int) (ok : Bool)
    (hc : s.Contract (.removeSocket fd ok)) : Keeps now s (s.removeSocket fd ok).1 := by
  unfold removeSocket
  split
  · exact keeps_refl now s
  · rename_i hok
    have hnone := hc (Bool.eq_true_of_not_eq_false hok)
    exact keeps_of_other now s _ fd rfl (fun e he => hnone e (mem_of_due s now e he).1)
      fun fd' hne => Function.update_of_ne hne _ _

theorem keeps_addEvent (now : Int) (s : EventHandler κ) (fd time : Int) (cb : κ)
    (hc : s.Gentle now (.addEvent fd time cb)) : Keeps now s (s.addEvent fd time cb) := by
  by_cases ht : s.Taken time
  · rw [addEvent_of_taken s fd time cb ht]
    exact keeps_refl now s
  rcases hc.resolve_left ht with ⟨hlater, hr, hnone⟩
  rcases addEvent_of_known s fd time cb ht hr with ⟨htable, hevents⟩
  refine keeps_of_other now s _ fd ?_ (fun e he => hnone e (mem_of_due s now e he).1) ?_
  · unfold due
    rw [htable]
    refine filter_emplace_of_neg _ _ _ _ _ fun hle => ?_
    exact absurd hlater (Int.not_lt.mpr (of_decide_eq_true hle))
  · intro fd' hne
    rw [hevents, Function.update_of_ne hne]

theorem keeps_deleteEvent (now : Int) (s : EventHandler κ) (fd : Int) (h : s.Tidy)
    (hc : s.Gentle now (.deleteEvent fd)) : Keeps now s (s.deleteEvent fd) := by
  have hother : ∀ e ∈ s.due now, e.2.fd ≠ fd := by
    intro e he hfd
    rcases mem_of_due s now e he with ⟨hmem, hle⟩
    exact absurd (hc e hmem hfd) (Int.not_lt.mpr hle)
  rcases deleteEvent_cases s fd with ⟨-, hs⟩ | ⟨event, hevent, ⟨-, hs⟩ | ⟨id, hit, hs⟩⟩
  · rw [hs]
    exact keeps_refl now s
  · rw [hs]
    exact keeps_of_other now s _ fd rfl hother fun fd' hne => Function.update_of_ne hne _ _
  · rw [hs]
    refine keeps_of_other now s _ fd ?_ hother fun fd' hne => Function.update_of_ne hne _ _
    -- The node that goes is one of this socket, and that is not due.
    change (s.eventTable.filter fun e => e.2.id ≠ id).filter _ = s.eventTable.filter _
    rw [List.filter_filter]
    refine List.filter_congr fun e he => ?_
    by_cases hle : e.1 ≤ now
    · have hne : e.2.id ≠ id := by
        intro hid
        rcases h.tracked.live fd event hevent id hit with ⟨time, hmem⟩
        have heq := eq_of_id s h.tracked e _ he hmem hid
        exact hother e (List.mem_filter.mpr ⟨he, decide_eq_true hle⟩) (by rw [heq])
      simp only [hle, hne, decide_true, Bool.and_true, ne_eq, not_false_eq_true]
    · simp only [hle, decide_false, Bool.false_and]

/-- A gentle call leaves a handler tidy, and the timers that are due alone. -/
theorem gentle_call (now : Int) (s : EventHandler κ) (c : Call κ) (h : s.Tidy)
    (hc : s.Gentle now c) : (s.call c).Tidy ∧ Keeps now s (s.call c) := by
  refine ⟨tidy_call s c h (contract_of_gentle now s c hc), ?_⟩
  cases c with
  | addSocket fd cb ok => exact keeps_addSocket now s fd cb ok h
  | removeSocket fd ok => exact keeps_removeSocket now s fd ok hc
  | addEvent fd time cb => exact keeps_addEvent now s fd time cb hc
  | deleteEvent fd => exact keeps_deleteEvent now s fd h hc
  | serve now => exact absurd hc id

theorem gentle_run (now : Int) (calls : List (Call κ)) (s : EventHandler κ) (h : s.Tidy)
    (hcalls : Steps call (Gentle now) s calls) :
    (run call s calls).Tidy ∧ Keeps now s (run call s calls) :=
  run_of_steps call (fun t => t.Tidy ∧ Keeps now s t) (Gentle now)
    (fun t c ht hc => by
      rcases gentle_call now t c ht.1 hc with ⟨htidy, hkeeps⟩
      exact ⟨htidy, keeps_trans now s t _ ht.2 hkeeps⟩) calls s ⟨h, keeps_refl now s⟩ hcalls

/-- The first timer that is due is the one at the front of the map. -/
theorem front_of_due (s : EventHandler κ) (now : Int) (e : Int × Node)
    (rest : List (Int × Node)) (h : s.InOrder) (hdue : s.due now = e :: rest) :
    ∃ tail, s.eventTable = e :: tail := by
  have hmem := (mem_of_due s now e (by rw [hdue]; exact List.mem_cons_self))
  unfold due at hdue
  unfold InOrder Ranked at h
  rcases htable : s.eventTable with _ | ⟨x, tail⟩
  · rw [htable, List.filter_nil] at hdue
    exact absurd hdue (by simp only [reduceCtorEq, not_false_eq_true])
  rw [htable] at hdue h
  by_cases hx : x.1 ≤ now
  · rw [List.filter_cons, if_pos (decide_eq_true hx), List.cons.injEq] at hdue
    exact ⟨tail, by rw [hdue.1]⟩
  · -- If the front timer is later, all of them are.
    have hlater : ∀ y ∈ x :: tail, now < y.1 := by
      intro y hy
      rcases List.mem_cons.mp hy with rfl | hy
      · exact Int.not_le.mp hx
      · exact Int.lt_trans (Int.not_le.mp hx) ((List.pairwise_cons.mp h).1 y hy)
    rw [htable] at hmem
    exact absurd (hlater e hmem.1) (Int.not_lt.mpr hmem.2)

/-- The call has come to its end with no timer due, and has called the functions of the
    timers that were due when it began, each once and in the order of their times. -/
structure ServesDue (s : EventHandler κ) (now : Int) (r : Ending × Handling κ) : Prop where
  ended : r.1 = .idle
  called : r.2.called.map some = (s.due now).map fun e => s.callback e.2.fd
  once : ((s.due now).map fun e => e.2.fd).Nodup
  ordered : (s.due now).Pairwise fun x y => x.1 < y.1
  done : r.2.handler.due now = []
  tidy : r.2.handler.Tidy

/-- The rounds of a call, with `due` the timers that are due. -/
theorem rounds_rearming (react : React κ) (now : Int)
    (hreact : ∀ cb t, t.Tidy → Steps call (Gentle now) t (react cb t)) (l : List (Int × Node))
    (s : EventHandler κ) (called : List κ) (h : s.Tidy) (hdue : s.due now = l) :
    ∃ r, Gives (body react fun _ => now) ⟨s, called⟩ r ∧ r.1 = .idle ∧
      r.2.called.map some = called.map some ++ l.map (fun e => s.callback e.2.fd) ∧
      r.2.handler.due now = [] ∧ r.2.handler.Tidy := by
  induction l generalizing s called with
  | nil =>
      have hlater : ∀ e ∈ s.eventTable, now < e.1 := fun e he =>
        Int.not_le.mp fun hle => List.filter_eq_nil_iff.mp hdue e he (decide_eq_true hle)
      have hbody : body react (fun _ => now) ⟨s, called⟩ = .leave (.idle, ⟨s, called⟩) := by
        simp only [body, (serve_of_later s now hlater).1]
      refine ⟨_, (gives_leave _ _ _ hbody).mpr rfl, rfl, ?_, hdue, h⟩
      rw [List.map_nil, List.append_nil]
  | cons e rest ih =>
      have hmem : e ∈ s.due now := by
        rw [hdue]
        exact List.mem_cons_self
      rcases mem_of_due s now e hmem with ⟨htable, hle⟩
      rcases front_of_due s now e rest h.inOrder hdue with ⟨tail, hfront⟩
      have hfilled := h.loaded.filled e htable
      rcases Option.isSome_iff_exists.mp (registered_of_callback s e.2.fd hfilled) with ⟨event, he⟩
      have hserve := serve_of_due s now e tail event hfront hle he
      have hown : s.callback e.2.fd = event.cb := by rw [callback, he]; rfl
      rcases hcb : event.cb with _ | cb
      · exact absurd (hown.trans hcb) hfilled
      · -- The timer is taken off the map, and then its function does what it does.
        have htidy : (s.disarmed tail e.2.fd event).Tidy := by
          rw [← call_serve_of_called s _ now event.cb hserve]
          exact tidy_call s (.serve now) h trivial
        rcases gentle_run now _ _ htidy (hreact cb _ htidy) with ⟨hnext, hkeeps⟩
        rcases served_disarmed s now e tail event hfront hle he with ⟨hrest, -⟩
        rw [hdue, List.cons.injEq] at hrest
        have hbody : body react (fun _ => now) ⟨s, called⟩ = .again
            ⟨run call (s.disarmed tail e.2.fd event) (react cb (s.disarmed tail e.2.fd event)),
              called ++ [cb]⟩ := by
          simp only [body, hserve, hcb]
        rcases ih _ (called ++ [cb]) hnext (hkeeps.due_eq.trans hrest.2.symm) with
          ⟨r, hr, hended, hcalled, hdone, hend⟩
        refine ⟨r, (gives_again _ _ r hbody).mpr hr, hended, ?_, hdone, hend⟩
        have hsame : rest.map (fun x => (run call (s.disarmed tail e.2.fd event)
            (react cb (s.disarmed tail e.2.fd event))).callback x.2.fd) =
            rest.map fun x => s.callback x.2.fd := by
          refine List.map_congr_left fun e' he' => ?_
          rw [hrest.2] at he'
          exact (hkeeps.callback_eq e' he').trans (callback_disarmed s tail e.2.fd event he _)
        rw [hcalled, hsame, List.map_cons, hown, hcb, List.map_append, List.append_assoc]
        rfl

/-- The function of a timer leaves the place alone that a tidy handler has it stored in. -/
def TimersSpared (react : React κ) : Prop :=
  ∀ cb fd t, t.Tidy → t.callback fd = some cb → Steps call (SparesTimer fd) t (react cb t)

/-- Every function that is called stays in its place meanwhile. -/
theorem spared_visits (react : React κ) (now : Int)
    (hreact : ∀ cb t, t.Tidy → Steps call (Gentle now) t (react cb t))
    (hspared : TimersSpared react) (s t : Handling κ) (h : s.handler.Tidy)
    (ht : Visits (body react fun _ => now) s t) : Spared react (fun _ => now) t := by
  have htidy : t.handler.Tidy := by
    refine visits_invariant (fun t : Handling κ => t.handler.Tidy) (fun t u ht hbody => ?_) s t h ht
    rcases body_again react _ t u hbody with ⟨s', cb, hserve, hu, -⟩
    have hs' : s'.Tidy := hserve ▸ tidy_call t.handler (.serve now) ht trivial
    rw [hu]
    exact (gentle_run now _ s' hs' (hreact cb s' hs')).1
  intro e he hle cb hcb
  rcases Option.bind_eq_some_iff.mp hcb with ⟨event, hevent, hown⟩
  rcases List.head?_eq_some_iff.mp he with ⟨rest, htable⟩
  -- The timer is off the map by now, and the socket holds its function still.
  have hserve := serve_of_due t.handler now e rest event htable hle hevent
  have hcalled := call_serve_of_called t.handler _ now event.cb hserve
  refine hspared cb e.2.fd _ (tidy_call t.handler (.serve now) htidy trivial) ?_
  rw [hcalled, callback_disarmed t.handler rest e.2.fd event hevent, callback, hevent]
  exact hown

/-- With functions that call nothing but what is gentle, a call comes to an end at which the
    timers are served. -/
theorem handleEvent_rearming (s : EventHandler κ) (react : React κ) (now : Int) (h : s.Tidy)
    (hreact : ∀ cb t, t.Tidy → Steps call (Gentle now) t (react cb t))
    (hspared : TimersSpared react) :
    ∃ r, s.handleEventInPlace react (fun _ => now) (some r) ∧ ServesDue s now r := by
  rcases rounds_rearming react now hreact (s.due now) s [] h rfl with
    ⟨r, hr, hended, hcalled, hdone, hend⟩
  refine ⟨r, (gives_guarded_iff _ _ r).mpr ⟨hr, fun t ht => ?_⟩, ?_⟩
  · exact spared_visits react now hreact hspared ⟨s, []⟩ t h ht
  · exact {
      ended := hended
      called := hcalled
      once := h.alone.sublist (List.filter_sublist.map _)
      ordered := h.inOrder.sublist List.filter_sublist
      done := hdone
      tidy := hend }

/-- With functions that call nothing but what is gentle and leave their own places alone,
    `HandleEvent` comes to an end, and however it does it has served the timers that were due
    when it began, whatever timers it found to be set on the way. -/
theorem serves_rearming (s : EventHandler κ) (react : React κ) (now : Int) (h : s.Tidy)
    (hreact : ∀ cb t, t.Tidy → Steps call (Gentle now) t (react cb t))
    (hspared : TimersSpared react) :
    (∃ r, s.handleEventInPlace react (fun _ => now) r) ∧
      ∀ r, s.handleEventInPlace react (fun _ => now) r →
        ∃ r', r = some r' ∧ ServesDue s now r' := by
  rcases handleEvent_rearming s react now h hreact hspared with ⟨r, hr, hserves⟩
  refine ⟨⟨some r, hr⟩, fun r' hr' => ⟨r, gives_unique _ _ _ hr' hr, hserves⟩⟩

/-- Two timers that are due, of functions that set the timers of two more sockets, whose
    numbers are ten higher. -/
theorem serves_rearming_two :
    let s := run call (empty : EventHandler Int)
      [.addSocket 3 3 true, .addEvent 3 10 3, .addSocket 4 4 true, .addEvent 4 15 4,
        .addSocket 13 13 true, .addSocket 14 14 true]
    let react : React Int := fun fd t =>
      if 0 ≤ fd ∧ t.socketsEvent (fd + 10) = some ⟨none, none⟩ then
        [.addEvent (fd + 10) (30 + fd) (fd + 10)]
      else []
    (∃ r, s.handleEventInPlace react (fun _ => 20) r) ∧
      ∀ r, s.handleEventInPlace react (fun _ => 20) r → ∃ r', r = some r' ∧ ServesDue s 20 r' := by
  intro s react
  refine serves_rearming s react 20 ?_ (fun cb t ht => ?_) fun cb fd t ht hcb => ?_
  · refine run_of_steps call Tidy Contract tidy_call _ empty tidy_empty ?_
    exact ⟨trivial, Or.inr (by decide), trivial, Or.inr (by decide), trivial, trivial, trivial⟩
  · change Steps call (Gentle 20) t (if _ then _ else _)
    split
    · rename_i hfree
      -- A socket without a function has no timer.
      refine ⟨Or.inr ⟨by omega, ?_, fun e he hfd => ht.loaded.filled e he ?_⟩, trivial⟩
      · rw [Registered, hfree.2]
        rfl
      · rw [hfd, callback, hfree.2]
        rfl
    · exact trivial
  · change Steps call (SparesTimer fd) t (if _ then _ else _)
    split
    · rename_i hfree
      refine ⟨fun hfd => ?_, trivial⟩
      rw [← hfd, callback, hfree.2] at hcb
      exact absurd hcb (by simp only [Option.bind_some, reduceCtorEq, not_false_eq_true])
    · exact trivial

end EventHandler

end CodecChanger
