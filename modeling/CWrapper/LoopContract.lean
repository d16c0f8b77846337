import CWrapper.LoopDeadlock

/-!
Programs that keep to the contract of ITimerHandler. The handler of a timer is then in no function
of the timer, and nobody is ever stuck, unless the loop makes the last broadcast of an execution
between the test of the state and the block of a call that waits for it.
-/
namespace CWrapper.MainLoop

open LoopCalls

variable {T Th F : Type} [DecidableEq T] {th : Th} {t : T}

@[grind =] def Action.calls : Action T Th F → Option (Th × T)
  | .start th t _ _ | .restart th t | .stop th t | .destroy th t => some (th, t)
  | _ => none

theorem isOn_wakeAll (t u : T) (thread : Th → ThreadPoint T F) (th : Th) :
    isOn t (wakeAll u thread th) = isOn t (thread th) := by
  unfold wakeAll
  split
  · rename_i v k hth
    rw [hth]
    split <;> rfl
  · rfl

variable [DecidableEq Th] {capacity : ℕ+} {s s' : State T Th F} {a : Action T Th F}

/-- A thread is in a function of a timer since it has called one. -/
theorem Moves.isOn (hm : Moves capacity s a s') (hon : LoopCalls.isOn t (s'.thread th) = true) :
    LoopCalls.isOn t (s.thread th) = true ∨ a.calls = some (th, t) := by
  cases hm with
  | broadcast x again u k hth =>
    have hwake := isOn_wakeAll t u s.thread th
    grind [Function.update_apply]
  | broadcastPending keep u => exact Or.inl ((isOn_wakeAll t u s.thread th).symm.trans hon)
  | broadcastLast keep u => exact Or.inl ((isOn_wakeAll t u s.thread th).symm.trans hon)
  | lockControl x u k hout ha' hlock hlife =>
    obtain ⟨rfl, -⟩ | ⟨msec, rep, -, rfl | ⟨⟨again, rfl⟩, hx⟩⟩ := ha' <;>
      grind [Function.update_apply]
  | lockWait x again u k hth =>
    obtain hth | hth := hth <;> grind [Function.update_apply]
  | restart | destroy | post | postWrite | terminate | terminateWrite | object | remove
  | removeWake | testReleased | testBlock | block | spurious | addFound | addLock
  | addScan | addInsert | addWake | leave | returnDestroy => grind [Function.update_apply]
  | _ => exact Or.inl hon

end CWrapper.MainLoop

namespace CWrapper.LoopCalls

open MainLoop Timer TimerLife Transition

variable {T Th F : Type}

def Action.inLoop : Action T Th F → Option (MainLoop.Action T Th F)
  | .main a => some a
  | _ => none

variable [DecidableEq T] [DecidableEq Th]

/-- The callers keep to lifetimes and to the contract of the handlers, and no last broadcast of an
execution comes between the test and the block of a call that waits for it. -/
def Careful (runner : Th) (s : State T Th F) (a : Action T Th F) : Prop :=
  (Lifetimes s a ∧ HandlerContract runner s a) ∧
    ∀ b ∈ a.inLoop, ∀ t, NoBlockBetween t s.mLoop b

instance [Fintype T] [Fintype Th] (runner : Th) (s : State T Th F) (a : Action T Th F) :
    Decidable (Careful runner s a) :=
  inferInstanceAs (Decidable (_ ∧ _))

variable {runner : Th} {capacity : ℕ+} {s s' : State T Th F} {t : T}

def Apart (runner : Th) (s : State T Th F) : Prop :=
  ∀ t, handled s.mLoop.loop = some t → s.uses runner t = false

omit [DecidableEq Th] in
theorem not_uses_of_free (h : s.isFree runner = true) (t : T) : s.uses runner t = false := by
  obtain ⟨hr, hp⟩ := isFree_iff.mp h
  cases hpoint : s.mLoop.thread runner with
  | idle => simp [State.uses, hr, hpoint, isOn]
  | _ => rw [hpoint] at hp; cases hp

omit [DecidableEq Th] in
theorem uses_false_iff {th : Th} : s.uses th t = false ↔
    (s.request th).any (Request.on t) = false ∧ isOn t (s.mLoop.thread th) = false := by
  simp [State.uses]

omit [DecidableEq Th] in
theorem calls_action {r : Request T F} {th x : Th} (h : (r.action x).calls = some (th, t)) :
    x = th ∧ r.on t = true := by
  cases r with
  | start u msec rep =>
    obtain ⟨rfl, rfl⟩ := Prod.mk.inj (Option.some.inj h)
    exact ⟨rfl, by simp [Request.on]⟩
  | stop u =>
    obtain ⟨rfl, rfl⟩ := Prod.mk.inj (Option.some.inj h)
    exact ⟨rfl, by simp [Request.on]⟩
  | post func => cases h

/-- The calls of the other threads change nothing in what the thread of the loop is in. -/
theorem not_uses_of_moves {m : MainLoop.State T Th F} {b : MainLoop.Action T Th F}
    (hm : Moves capacity s.mLoop b m) (huses : s.uses runner t = false)
    (hb : b.calls ≠ some (runner, t)) : isOn t (m.thread runner) = false := by
  refine Bool.eq_false_iff.mpr fun hon => ?_
  obtain hbefore | hcalls := hm.isOn hon
  · rw [(uses_false_iff.mp huses).2] at hbefore
    cases hbefore
  · exact hb hcalls

theorem Apart.enter {r : Request T F} {m : MainLoop.State T Th F} {th : Th} (h : Apart runner s)
    (hr : s.request th = some r) (hm : Moves capacity s.mLoop (r.action th) m) :
    Apart runner { mLoop := m, request := Function.update s.request th none } := by
  intro t ht
  have hloop : m.loop = s.mLoop.loop := by
    obtain hloop | henter | ⟨answer, hanswer⟩ | ⟨⟨e, he⟩, -⟩ := hm.loop_cases
    · exact hloop
    · exact absurd henter (loop_action r th).1
    · exact absurd hanswer ((loop_action r th).2.1 answer)
    · exact absurd he ((loop_action r th).2.2 e)
  have huses := h t (hloop ▸ ht)
  obtain ⟨hreq, -⟩ := uses_false_iff.mp huses
  refine uses_false_iff.mpr ⟨?_, not_uses_of_moves hm huses fun hcalls => ?_⟩
  · by_cases hne : runner = th
    · simp [hne]
    · simpa [Function.update_of_ne hne] using hreq
  · obtain ⟨rfl, hon⟩ := calls_action hcalls
    rw [hr, Option.any_some, hon] at hreq
    cases hreq

theorem Apart.main {b : MainLoop.Action T Th F} {m : MainLoop.State T Th F} (h : Apart runner s)
    (hl : Living runner s) (hcontract : HandlerContract runner s (.main b))
    (hadmits : s.admits runner b = true) (hm : Moves capacity s.mLoop b m) :
    Apart runner { s with mLoop := m } := by
  intro t ht
  obtain hloop | ⟨hfree, hb⟩ : m.loop = s.mLoop.loop ∨
      s.isFree runner = true ∧ b.beginner ≠ some runner := by
    obtain hloop | rfl | ⟨answer, rfl⟩ | ⟨⟨e, rfl⟩, hpoll⟩ := hm.loop_cases
    · exact Or.inl hloop
    · exact Or.inr ⟨hl.loop_free hadmits, by simp [MainLoop.Action.beginner]⟩
    · exact Or.inr ⟨hl.loop_free hadmits, by simp [MainLoop.Action.beginner]⟩
    · exact Or.inr ⟨hl.user hpoll, by simp [MainLoop.Action.beginner]⟩
  · have hhandled : handled s.mLoop.loop = some t := hloop ▸ ht
    have huses := h t hhandled
    refine uses_false_iff.mpr
      ⟨(uses_false_iff.mp huses).1, not_uses_of_moves hm huses fun hcalls => ?_⟩
    cases b with
    | restart th u =>
      obtain ⟨rfl, rfl⟩ := Prod.mk.inj (Option.some.inj hcalls)
      exact hcontract.1 (th, u) rfl rfl hhandled
    | destroy th u =>
      obtain ⟨rfl, rfl⟩ := Prod.mk.inj (Option.some.inj hcalls)
      exact hcontract.2 (th, u) rfl rfl hhandled
    | start | stop => cases hadmits
    | _ => cases hcalls
  · obtain ⟨hnone, hpoint⟩ := isFree_iff.mp hfree
    exact not_uses_of_free (s := { s with mLoop := m })
      (isFree_iff.mpr ⟨hnone, hm.idle hpoint hb⟩) t

theorem Apart.call {r : Request T F} {th : Th} (h : Apart runner s)
    (hcontract : HandlerContract runner s (.call th r)) :
    Apart runner { s with request := Function.update s.request th (some r) } := by
  intro t ht
  obtain ⟨hreq, hon⟩ := uses_false_iff.mp (h t ht)
  refine uses_false_iff.mpr ⟨?_, hon⟩
  by_cases hne : runner = th
  · subst hne
    cases hr : r.on t with
    | false => simpa using hr
    | true => exact absurd ht (hcontract.1 (runner, t) (mem_called runner hr) rfl)
  · simpa [Function.update_of_ne hne] using hreq

/-- A handler that keeps to its contract is in no function of its own timer. -/
theorem apart_invariant : (machine runner capacity).Invariant (Careful runner) (Living runner)
    (Apart runner : State T Th F → Prop) where
  init s hs := by
    obtain ⟨⟨now, -, hloop⟩, -⟩ := hs
    intro t ht
    simp [hloop, MainLoop.State.start, handled] at ht
  step s a s' hok hl hstep h := by
    obtain ⟨th, r, rfl, -, rfl⟩ | ⟨th, r, m, rfl, hr, hm, rfl⟩ | ⟨b, m, rfl, hadmits, hm, rfl⟩ :=
      step_cases hstep
    · exact h.call hok.1.2
    · exact h.enter hr (MainLoop.step_cases hm)
    · exact h.main hl hok.1.2 hadmits (MainLoop.step_cases hm)

theorem living_of_careful (hs : (machine runner capacity).Reachable (Careful runner) s) :
    Living runner s := living_reachable (fun _ _ h => h.1.1) hs

/-- The handler is in no function of its own timer. -/
theorem apart_reachable (hs : (machine runner capacity).Reachable (Careful runner) s) :
    Apart runner s := apart_invariant.reachable (fun _ => living_of_careful) hs

/-- A careful run is a run of the system in which the last broadcasts of the timer are heard. -/
theorem heard_part (t : T) : Machine.Part (machine runner capacity) (system T Th F capacity)
    (Careful runner) (NoBlockBetween t) (fun s => s.mLoop) where
  init _ hinit := hinit.1
  step s a s' _ hok hstep := by
    obtain ⟨th, r, -, -, rfl⟩ | ⟨th, r, m, -, -, hm, rfl⟩ | ⟨b, m, rfl, -, hm, rfl⟩ :=
      step_cases hstep
    · exact Or.inl rfl
    · refine Or.inr ⟨_, fun hloop => ?_, hm⟩
      cases r <;> cases hloop
    · exact Or.inr ⟨b, hok.2 b rfl t, hm⟩

/-- No call waits for a wake-up that has been. -/
theorem not_missed (hs : (machine runner capacity).Reachable (Careful runner) s) {w : Th} :
    ¬ Missed s.mLoop t w := by
  intro h
  have hreach := (heard_part t).reachable hs
  have hd := disciplined hreach
  obtain ⟨k, hk⟩ := h.blocked
  have hc : (s.mLoop.life t).control = some (.blocked k) := hd.owned.control_eq w t hk
  have hjust := (justified_invariant t).reachable (fun _ => disciplined) hreach
  obtain hstate | howes := hjust (by rw [hc]; rfl)
  · have hreleased : Timer.released (s.mLoop.life t).o.mState = true := h.released
    rw [hstate] at hreleased
    cases hreleased
  · have hdone : (s.mLoop.life t).exec.any owes = false := h.done
    rw [howes] at hdone
    cases hdone

omit [DecidableEq Th] in
theorem OwnHandler.uses {w : Th} (h : OwnHandler runner s t w) : s.uses runner t = true := by
  obtain rfl | ⟨-, hr | ⟨msec, rep, hp⟩⟩ := h.own
  · have hw := h.waits
    cases hp : s.mLoop.thread w <;> rw [hp] at hw <;> first
      | cases hw
      | simp only [waitsIn, Bool.and_eq_true, decide_eq_true_eq] at hw
        simp [State.uses, hp, isOn, hw.1]
  · simp [State.uses, hr]
  · simp [State.uses, hp, isOn]

/-- The handler waits for no call of its own timer. -/
theorem not_ownHandler (hs : (machine runner capacity).Reachable (Careful runner) s) {w : Th} :
    ¬ OwnHandler runner s t w := by
  intro hown
  have huses := apart_reachable hs t (by rw [hown.handler]; rfl)
  rw [hown.uses] at huses
  cases huses

/-- When no handler calls a function of its own timer and no last broadcast comes between the test
and the block of a call, then while a thread is in a call, or loop() is in progress and not in
epoll_wait, a thread in a call is not blocked and goes on, or loop() does. -/
theorem careful_calls_go_on (hs : (machine runner capacity).Reachable (Careful runner) s)
    (hbusy : (∃ th, Inside s th) ∨ works s.mLoop.loop = true) : GoesOn runner capacity s := by
  obtain hgo | ⟨t, w, hmissed⟩ | ⟨t, w, hown⟩ :=
    deadlock_of_stuck (fun _ _ h => h.1.1) hs hbusy
  · exact hgo
  · exact absurd hmissed (not_missed hs)
  · exact absurd hown (not_ownHandler hs)

section Example

/-- `false` waits in start() for the end of the handler, which has called post(). -/
def posting : State Unit Bool Unit :=
  (machine true oneSlot).after (Careful true) ⟨MainLoop.State.start 0, fun _ => none⟩
    ([.main (.setHandler () true), .call false (.start () 0 false), .enter false] ++
      List.replicate 8 (.main (.thread false false)) ++ [.main .enter] ++
      List.replicate 8 (.main (.loop false)) ++ [.call false (.start () 0 false), .enter false] ++
      List.replicate 5 (.main (.thread false false)) ++ [.call true (.post ())])

/-- The handler has called post(), and a second thread waits for the handler to end. -/
theorem careful_calls_go_on_posting : GoesOn true oneSlot posting :=
  careful_calls_go_on
    (Machine.reachable_after ⟨initial_start oneSlot, fun _ => rfl⟩ (by decide +kernel))
    (Or.inl ⟨false, by unfold Inside; decide +kernel⟩)

end Example

end CWrapper.LoopCalls
