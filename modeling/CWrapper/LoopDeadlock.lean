import CWrapper.LoopProgress

/-!
The deadlocks of a MainLoop with its timers. Threads are stuck only when a call in stopAndWait() has
missed its wake-up, or when the handler of a timer is in a function of its own timer, which then
stays so for ever.
-/
namespace CWrapper.LoopCalls

open MainLoop Timer TimerLife Transition

variable {T Th F : Type}

@[grind =] def inWait : Control → Bool
  | .lockWait _ | .test _ | .block _ | .blocked _ | .relock _ => true
  | _ => false

@[grind =] def waitsIn [DecidableEq T] (t : T) : ThreadPoint T F → Bool
  | .timer u c => u = t && inWait c
  | _ => false

/-- The handler of the timer is in a function of its own timer: `w` waits for the end of the
execution, and is the thread of the handler, or that thread waits for its mControlLock. -/
structure OwnHandler [DecidableEq T] (runner : Th) (s : State T Th F) (t : T) (w : Th) :
    Prop where
  handler : s.mLoop.loop = .exec t .callback
  waits : waitsIn t (s.mLoop.thread w) = true
  own : w = runner ∨ (s.mLoop.locks t).mControlLock = some w ∧
    ((s.request runner).any (Request.on t) = true ∨
      ∃ msec rep, s.mLoop.thread runner = .restart t msec rep)

end CWrapper.LoopCalls

namespace CWrapper.MainLoop

open LoopCalls

variable {T Th F : Type} [DecidableEq T] {w : Th} {t : T}

theorem waitsIn_wakeAll (t u : T) (thread : Th → ThreadPoint T F) (th : Th) :
    waitsIn t (wakeAll u thread th) = waitsIn t (thread th) := by
  unfold wakeAll
  split
  · rename_i v k hth
    rw [hth]
    split <;> rfl
  · rfl

variable [DecidableEq Th] {capacity : ℕ+} {s s' : State T Th F} {a : Action T Th F}

/-- While the timer is in an execution, stopAndWait() does not return. -/
theorem Moves.waits (hm : Moves capacity s a s') (hw : waitsIn t (s.thread w) = true)
    (hstate : Timer.released (s.timer t).mState = false) : waitsIn t (s'.thread w) = true := by
  cases hm with
  | broadcast x again u k hth =>
    have hwake := waitsIn_wakeAll t u s.thread w
    grind [Function.update_apply]
  | broadcastPending keep u => exact (waitsIn_wakeAll t u s.thread w).trans hw
  | broadcastLast keep u => exact (waitsIn_wakeAll t u s.thread w).trans hw
  | object x again u c c' o hth hstep =>
    have hne : inWait c = false := by
      cases c <;> first | rfl | cases hstep
    grind [Function.update_apply]
  | lockControl x u k hout =>
    have hne : x ≠ w := by
      rintro rfl
      cases hp : s.thread x <;> rw [hp] at hout hw <;> first | cases hw | exact hout.elim
    grind [Function.update_apply]
  | restart x u hout | destroy x u hout =>
    have hne : x ≠ w := by
      rintro rfl
      cases hp : s.thread x <;> rw [hp] at hout hw <;> first | cases hw | exact hout.elim
    grind [Function.update_apply]
  | post | postWrite | terminate | terminateWrite | remove
  | removeWake | lockWait | testReleased | testBlock | block | spurious | addFound | addLock
  | addScan | addInsert | addWake | leave | returnDestroy => grind [Function.update_apply]
  | _ => exact hw

/-- The call that has mControlLock and waits keeps it. -/
theorem Moves.keepsControl (hm : Moves capacity s a s') (ho : Owned s)
    (hw : waitsIn t (s.thread w) = true) (hlock : (s.locks t).mControlLock = some w) :
    (s'.locks t).mControlLock = some w := by
  cases hm with
  | leave x again u c hth hret =>
    by_cases hu : t = u
    · subst hu
      obtain ⟨c', hc'⟩ : ∃ c', s.thread w = .timer t c' := by
        cases hp : s.thread w <;> rw [hp] at hw <;> grind
      obtain rfl := (ho x t c hth).unique (ho w t c' hc')
      rw [hth] at hw
      obtain rfl | rfl := hret <;> simp [waitsIn, inWait] at hw
    · grind
  | lockControl | destroy | lockWait | testReleased | block | returnDestroy => grind
  | _ => exact hlock

/-- A thread stays in restart() while mControlLock is held. -/
theorem Moves.restart_stays (hm : Moves capacity s a s') {msec : Timer.Msec} {rep : Bool}
    (hw : s.thread w = .restart t msec rep) (hlock : (s.locks t).mControlLock ≠ none)
    (ha : a.beginner ≠ some w) : s'.thread w = .restart t msec rep := by
  have hwake : ∀ u, wakeAll u s.thread w = .restart t msec rep := fun u => by simp [wakeAll, hw]
  cases hm with
  | broadcastPending keep u => exact hwake u
  | broadcastLast keep u => exact hwake u
  | lockControl x u k hout ha' hfree =>
    obtain ⟨rfl, -⟩ | ⟨msec', rep', -, rfl | ⟨⟨again, rfl⟩, hx⟩⟩ := ha' <;>
      grind [Function.update_apply]
  | broadcast | restart | destroy | post | postWrite | terminate | terminateWrite | object | remove
  | removeWake | lockWait | testReleased | testBlock | block | spurious | addFound | addLock
  | addScan | addInsert | addWake | leave | returnDestroy => grind [Function.update_apply]
  | _ => exact hw

end CWrapper.MainLoop

namespace CWrapper.LoopCalls

open MainLoop Timer TimerLife Transition

variable {T Th F : Type}

section Deadlock

variable [DecidableEq T] [DecidableEq Th] {runner : Th} {capacity : ℕ+} {s s' : State T Th F}
  {ok : State T Th F → Action T Th F → Prop} {th w : Th} {t : T}

/-- A thread in a call goes on, or one of the two deadlocks is there. -/
theorem goesOn_or_deadlock (h : Living runner s) (hd : Disciplined s.mLoop) (hh : Held s.mLoop)
    (hin : Inside s th) : GoesOn runner capacity s ∨ (∃ t w, Missed s.mLoop t w) ∨
      ∃ t w, OwnHandler runner s t w := by
  obtain hgo | ⟨t, w, ⟨k, hk⟩, -⟩ := goesOn_or_waits capacity h hh hin
  · exact Or.inl hgo
  · obtain hgo | hmissed | ⟨hhandler, hrun⟩ := goesOn_or_handler capacity h hd hh hk
    · exact Or.inl hgo
    · exact Or.inr (Or.inl ⟨t, w, hmissed⟩)
    -- the thread of the handler is in a call itself: what does it wait for?
    · obtain hgo | ⟨u, x, ⟨k', hk'⟩, hown⟩ := goesOn_or_waits capacity h hh hrun
      · exact Or.inl hgo
      · obtain hgo | hmissed | ⟨hhandler', -⟩ :=
          goesOn_or_handler capacity h hd hh hk'
        · exact Or.inl hgo
        · exact Or.inr (Or.inl ⟨u, x, hmissed⟩)
        · exact Or.inr (Or.inr ⟨u, x, hhandler', by rw [hk']; simp [waitsIn, inWait], hown⟩)

/-- When nothing goes on, a wake-up has been missed, or a handler is in a function of its own timer.
-/
theorem deadlock_of_stuck (hok : ∀ s a, ok s a → Lifetimes s a)
    (hs : (machine runner capacity).Reachable ok s)
    (hbusy : (∃ th, Inside s th) ∨ works s.mLoop.loop = true) :
    GoesOn runner capacity s ∨ (∃ t w, Missed s.mLoop t w) ∨ ∃ t w, OwnHandler runner s t w := by
  have h := living_reachable hok hs
  have hd := disciplined_loop hs
  have hh := held_loop hs
  obtain ⟨th, hin⟩ | hworks := hbusy
  · exact goesOn_or_deadlock h hd hh hin
  · obtain hgo | ⟨-, hin⟩ := goesOn_of_works capacity h hh hworks
    · exact Or.inl hgo
    · exact goesOn_or_deadlock h hd hh hin

/-- A function of a timer begins with its mControlLock. -/
theorem control_free_of_enter {m m' : MainLoop.State T Th F} {r : Request T F}
    (hr : r.on t = true) (hm : MainLoop.step capacity m (r.action th) = some m') :
    (m.locks t).mControlLock = none := by
  have hlocked : ∀ k, lockControl m th t k = some m' → (m.locks t).mControlLock = none := by
    intro k hk
    unfold lockControl at hk
    split at hk
    · rename_i hfree
      exact hfree.1
    · cases hk
  cases r with
  | start u msec rep =>
    obtain rfl : u = t := of_decide_eq_true hr
    simp only [Request.action, MainLoop.step] at hm
    split at hm
    · exact hlocked _ hm
    · cases hm
  | stop u =>
    obtain rfl : u = t := of_decide_eq_true hr
    simp only [Request.action, MainLoop.step] at hm
    split at hm
    · exact hlocked _ hm
    · cases hm
  | post func => cases hr

omit [DecidableEq Th] in
theorem OwnHandler.busy (h : OwnHandler runner s t w) : s.isFree runner = false := by
  obtain rfl | ⟨-, hr | ⟨msec, rep, hp⟩⟩ := h.own
  · have hw := h.waits
    cases hp : s.mLoop.thread w <;> rw [hp] at hw <;>
      first | cases hw | simp [State.isFree, hp, isIdle]
  · cases hq : s.request runner with
    | none => rw [hq] at hr; cases hr
    | some r => simp [State.isFree, hq]
  · simp [State.isFree, hp, isIdle]

omit [DecidableEq Th] in
theorem OwnHandler.executing (h : OwnHandler runner s t w) (hd : Disciplined s.mLoop) :
    Timer.released (s.mLoop.timer t).mState = false := by
  have hexec : (s.mLoop.life t).exec = some .callback := by
    simp [MainLoop.State.life, h.handler, LoopPoint.on]
  have hfits := hd.consistent t
  unfold Consistent at hfits
  rw [hexec] at hfits
  have hstate : (s.mLoop.timer t).mState = .executing := hfits.2.2
  rw [hstate]
  rfl

/-- The calls of the other threads leave the handler where it is. -/
theorem OwnHandler.moves {m : MainLoop.State T Th F} {b : MainLoop.Action T Th F}
    {request : Th → Option (Request T F)} (h : OwnHandler runner s t w) (hd : Disciplined s.mLoop)
    (hm : Moves capacity s.mLoop b m) (hb : b.beginner ≠ some runner)
    (hloop : b ≠ .enter ∧ ∀ answer, b ≠ .loop answer)
    (hrequest : request runner = s.request runner) :
    OwnHandler runner { mLoop := m, request := request } t w := by
  have hstate := h.executing hd
  refine ⟨?_, hm.waits h.waits hstate, ?_⟩
  · obtain hsame | henter | ⟨answer, hanswer⟩ | ⟨-, huser⟩ := hm.loop_cases
    · exact hsame.trans h.handler
    · exact absurd henter hloop.1
    · exact absurd hanswer (hloop.2 answer)
    · rw [h.handler] at huser
      cases huser
  · obtain hself | ⟨hlock, hwait⟩ := h.own
    · exact Or.inl hself
    · refine Or.inr ⟨hm.keepsControl hd.owned h.waits hlock, ?_⟩
      obtain hr | ⟨msec, rep, hp⟩ := hwait
      · refine Or.inl ?_
        show (request runner).any (Request.on t) = true
        rw [hrequest]
        exact hr
      · exact Or.inr ⟨msec, rep, hm.restart_stays hp (by rw [hlock]; simp) hb⟩

/-- Neither of the two threads can take the step that would free the other. -/
theorem OwnHandler.step {a : Action T Th F} (h : OwnHandler runner s t w) (hl : Living runner s)
    (hd : Disciplined s.mLoop) (hstep : LoopCalls.step runner capacity s a = some s') :
    OwnHandler runner s' t w := by
  have hbusy := h.busy
  obtain ⟨th, r, rfl, hmay, rfl⟩ | ⟨th, r, m, rfl, hr, hm, rfl⟩ | ⟨b, m, rfl, hadmits, hm, rfl⟩ :=
    step_cases hstep
  · have hne : runner ≠ th := by
      rintro rfl
      rw [mayCall_free hmay] at hbusy
      cases hbusy
    exact ⟨h.handler, h.waits, by simpa [Function.update_of_ne hne] using h.own⟩
  · have hne : runner ≠ th := by
      rintro rfl
      have hidle := hl.idle runner (by rw [hr]; rfl)
      obtain rfl | ⟨hlock, hreq | ⟨msec, rep, hp⟩⟩ := h.own
      · have hw := h.waits
        cases hp : s.mLoop.thread w <;> rw [hp] at hw hidle <;> first | cases hw | cases hidle
      · rw [hr] at hreq
        rw [control_free_of_enter hreq hm] at hlock
        cases hlock
      · rw [hp] at hidle
        cases hidle
    refine h.moves hd (MainLoop.step_cases hm) ?_ ?_ (Function.update_of_ne hne _ _)
    · rw [beginner_action]
      intro heq
      exact hne (Option.some.inj heq).symm
    · exact ⟨(loop_action r th).1, (loop_action r th).2.1⟩
  · refine h.moves hd (MainLoop.step_cases hm) ?_ ?_ rfl
    · intro hb
      rw [mayCall_free (mayCall_of_admits hadmits hb)] at hbusy
      cases hbusy
    · have huser : runsUser s.mLoop.loop = true := by
        rw [h.handler]
        rfl
      constructor
      · rintro rfl
        simp [State.admits, huser, hbusy] at hadmits
      · rintro answer rfl
        simp [State.admits, huser, hbusy] at hadmits

/-- While a thread is in a call, or loop() is in progress and not in epoll_wait, a thread in a call
is not blocked and goes on, or loop() does, or a call waits in stopAndWait() for a wake-up that has
been, or a handler is in a function of its own timer; and then loop() makes no step ever after. -/
theorem only_own_handler_or_missed (hs : (machine runner capacity).Reachable Lifetimes s) :
    ((∃ th, Inside s th) ∨ works s.mLoop.loop = true →
      GoesOn runner capacity s ∨ (∃ t w, Missed s.mLoop t w) ∨ ∃ t w, OwnHandler runner s t w) ∧
    ∀ t w, OwnHandler runner s t w → ∀ as s', (machine runner capacity).Path Lifetimes s as s' →
      OwnHandler runner s' t w ∧
        ∀ answer, (machine runner capacity).step s' (.main (.loop answer)) = none := by
  refine ⟨deadlock_of_stuck (fun _ _ h => h) hs, fun t w hown as s' hpath => ?_⟩
  have hkept : OwnHandler runner s' t w ∧ (machine runner capacity).Reachable Lifetimes s' := by
    refine hpath.keeps (I := fun s => OwnHandler runner s t w ∧
      (machine runner capacity).Reachable Lifetimes s) ?_ ⟨hown, hs⟩
    intro s a s' ha hstep h
    exact ⟨h.1.step (living_reachable (fun _ _ h => h) h.2) (disciplined_loop h.2) hstep,
      h.2.step ha hstep⟩
  refine ⟨hkept.1, fun answer => ?_⟩
  have huser : runsUser s'.mLoop.loop = true := by
    rw [hkept.1.handler]
    rfl
  simp [machine, LoopCalls.step, State.admits, huser, hkept.1.busy]

end Deadlock

section Example

/-- `true` runs the loop. `false` calls start() again while the handler runs, and the handler calls
stop(). -/
def stopping : State Unit Bool Unit :=
  (machine true oneSlot).after Lifetimes ⟨MainLoop.State.start 0, fun _ => none⟩
    ([.main (.setHandler () true), .call false (.start () 0 false), .enter false] ++
      List.replicate 8 (.main (.thread false false)) ++ [.main .enter] ++
      List.replicate 8 (.main (.loop false)) ++ [.call false (.start () 0 false), .enter false] ++
      List.replicate 5 (.main (.thread false false)) ++ [.call true (.stop ())])

theorem only_own_handler_or_missed_stopping : OwnHandler true stopping () false ∧
    ∀ as s', (machine true oneSlot).Path Lifetimes stopping as s' →
      OwnHandler true s' () false ∧
        ∀ answer, (machine true oneSlot).step s' (.main (.loop answer)) = none := by
  have hs : (machine true oneSlot).Reachable Lifetimes stopping :=
    Machine.reachable_after ⟨initial_start oneSlot, fun _ => rfl⟩ (by decide +kernel)
  have hown : OwnHandler true stopping () false :=
    ⟨by decide +kernel, by decide +kernel, Or.inr ⟨by decide +kernel, Or.inl (by decide +kernel)⟩⟩
  exact ⟨hown, (only_own_handler_or_missed hs).2 () false hown⟩

end Example

end CWrapper.LoopCalls
