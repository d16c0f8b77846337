import CWrapper.Transition
import CWrapper.LoopCalls

/-!
What holds of the calls in every state: a thread that waits for its first lock is in no call yet,
the thread of the loop calls from code of the user alone, and a timer that a thread is about to use
is alive.
-/
namespace CWrapper.MainLoop

open Timer (Object Call Control)
open LoopCalls

variable {T Th F : Type} [DecidableEq T] {th : Th} {t : T}

@[grind =] def Action.beginner : Action T Th F → Option Th
  | .start th _ _ _ | .restart th _ | .stop th _ | .destroy th _ | .post th _ | .terminate th =>
      some th
  | _ => none

theorem isIdle_wakeAll (t : T) (thread : Th → ThreadPoint T F) (th : Th) :
    isIdle (wakeAll t thread th) = isIdle (thread th) := by
  unfold wakeAll
  split
  · rename_i hth
    rw [hth]
    split <;> rfl
  · rfl

theorem restart_wakeAll {thread : Th → ThreadPoint T F} {msec : Timer.Msec} {rep : Bool} {u : T}
    (h : wakeAll u thread th = .restart t msec rep) : thread th = .restart t msec rep := by
  unfold wakeAll at h
  split at h
  · split at h <;> cases h
  · exact h

@[grind =] theorem life_update (locks : T → Locks Th) (t u : T) (l : Locks Th) :
    (Function.update locks t l u).life = if u = t then l.life else (locks u).life := by
  by_cases h : u = t <;> simp [h]

variable [DecidableEq Th] {capacity : ℕ+} {s s' : State T Th F} {a : Action T Th F}

/-- A thread in no call stays so until it begins one. -/
theorem Moves.idle (hm : Moves capacity s a s') (hidle : isIdle (s.thread th) = true)
    (ha : a.beginner ≠ some th) : isIdle (s'.thread th) = true := by
  cases hm with
  | broadcast x again u k hth =>
    have hwake := isIdle_wakeAll u s.thread th
    grind [Function.update_apply]
  | broadcastPending keep u => exact (isIdle_wakeAll u s.thread th).trans hidle
  | broadcastLast keep u => exact (isIdle_wakeAll u s.thread th).trans hidle
  | lockControl x u k hout ha' hlock hlife =>
    obtain ⟨rfl, -⟩ | ⟨msec, rep, -, rfl | ⟨⟨again, rfl⟩, hx⟩⟩ := ha' <;>
      grind [Function.update_apply]
  | restart | destroy | post | postWrite | terminate | terminateWrite | object | remove
  | removeWake | lockWait | testReleased | testBlock | block | spurious | addFound | addLock
  | addScan | addInsert | addWake | leave | returnDestroy => grind [Function.update_apply]
  | _ => exact hidle

/-- A thread is in restart() since it has called it. -/
theorem Moves.restarts (hm : Moves capacity s a s') {msec : Timer.Msec} {rep : Bool}
    (hth : s'.thread th = .restart t msec rep) :
    s.thread th = .restart t msec rep ∨ a = .restart th t := by
  cases hm with
  | broadcast x again u k hx =>
    obtain ⟨rfl, hin⟩ | ⟨-, hin⟩ := update_eq_cases hth
    · cases hin
    · exact Or.inl (restart_wakeAll hin)
  | broadcastPending | broadcastLast => exact Or.inl (restart_wakeAll hth)
  | lockControl | restart | destroy | post | postWrite | terminate | terminateWrite | object
  | remove | removeWake | lockWait | testReleased | testBlock | block | spurious | addFound
  | addLock | addScan | addInsert | addWake | leave | returnDestroy => grind [Function.update_apply]
  | _ => exact Or.inl hth

/-- Only the destructor ends the life of a timer. -/
theorem Moves.alive (hm : Moves capacity s a s') (ho : Owned s) (hh : Held s)
    (hlife : (s.locks t).life = .alive) :
    (s'.locks t).life = .alive ∨ ∃ th, a = .destroy th t := by
  cases hm with
  | destroy x u =>
    by_cases hu : t = u
    · exact Or.inr ⟨x, by rw [hu]⟩
    · exact Or.inl (by grind)
  | returnDestroy x again u hx =>
    by_cases hu : t = u
    · subst hu
      obtain hdying | ⟨-, hlock⟩ := ho x t _ hx
      · rw [hlife] at hdying
        cases hdying
      · have hpoint := hh.control t x hlock
        simp [hx, ThreadPoint.locksControl, locksControl] at hpoint
    · exact Or.inl (by grind)
  | lockControl | lockWait | testReleased | block | leave => grind
  | _ => exact Or.inl hlife

/-- What moves the loop. -/
theorem Moves.loop_cases (hm : Moves capacity s a s') :
    s'.loop = s.loop ∨ a = .enter ∨ (∃ answer, a = .loop answer) ∨
      (∃ r, a = .epoll r) ∧ runsUser s.loop = false := by
  cases hm with
  | enter => exact Or.inr (Or.inl rfl)
  | epollReturn r now timeToWait p hloop =>
    exact Or.inr (Or.inr (Or.inr ⟨⟨r, rfl⟩, by rw [hloop]; rfl⟩))
  | noFunction | takeFunction | invoke | takeTimer | noneExpired | expired | nextTimeout | batchDone
  | watcher | command | readInterrupted | readEmpty | readByte | testTerminated | execute | popFront
  | broadcastPending | broadcastLast | requeueFound | requeueLock | requeueScan | requeueInsert
  | requeueWake | requeueRemove | requeueRemoveWake => exact Or.inr (Or.inr (Or.inl ⟨_, rfl⟩))
  | _ => exact Or.inl rfl

end CWrapper.MainLoop

namespace CWrapper.LoopCalls

open MainLoop Timer Transition

variable {T Th F : Type} {s s' : State T Th F} {th : Th}

theorem beginner_action (r : Request T F) (th : Th) : (r.action th).beginner = some th := by
  cases r <;> rfl

theorem loop_action (r : Request T F) (th : Th) : r.action th ≠ .enter ∧
    (∀ answer, r.action th ≠ .loop answer) ∧ ∀ e, r.action th ≠ .epoll e := by
  cases r <;> exact ⟨by simp [Request.action], by simp [Request.action], by simp [Request.action]⟩

theorem isFree_iff :
    s.isFree th = true ↔ s.request th = none ∧ isIdle (s.mLoop.thread th) = true := by
  simp [State.isFree]

variable [DecidableEq Th] {runner : Th}

/-- A call that the step begins may begin. -/
theorem mayCall_of_admits {b : MainLoop.Action T Th F} (h : s.admits runner b = true)
    (hb : b.beginner = some th) : s.mayCall runner th = true := by
  cases b with
  | restart | destroy | terminate =>
    obtain rfl := Option.some.inj hb
    exact h
  | start | stop | post => cases h
  | _ => cases hb

theorem mayCall_free (h : s.mayCall runner th = true) : s.isFree th = true :=
  (Bool.and_eq_true_iff.mp h).1

/-- The thread of the loop calls from code of the user. -/
theorem mayCall_user (h : s.mayCall runner th = true) (huser : runsUser s.mLoop.loop = false) :
    th ≠ runner := by
  simpa [huser] using (Bool.and_eq_true_iff.mp h).2

variable [DecidableEq T] {capacity : ℕ+}
  {ok : State T Th F → Action T Th F → Prop} {a : Action T Th F}

/-- A run with the calls is a run of the system under them. -/
theorem loop_part (ok : State T Th F → Action T Th F → Prop) :
    Machine.Part (machine runner capacity) (system T Th F capacity) ok Machine.anyStep
      (fun s => s.mLoop) where
  init _ hinit := hinit.1
  step s a s' _ _ hstep := by
    obtain ⟨th, r, -, -, rfl⟩ | ⟨th, r, m, -, -, hm, rfl⟩ | ⟨b, m, -, -, hm, rfl⟩ :=
      step_cases hstep
    · exact Or.inl rfl
    · exact Or.inr ⟨_, trivial, hm⟩
    · exact Or.inr ⟨_, trivial, hm⟩

/-- The invariants of the MainLoop hold under the calls. -/
theorem disciplined_loop (hs : (machine runner capacity).Reachable ok s) : Disciplined s.mLoop :=
  disciplined ((loop_part ok).reachable hs)

theorem held_loop (hs : (machine runner capacity).Reachable ok s) : Held s.mLoop :=
  held_invariant.always ((loop_part ok).reachable hs)

structure Living (runner : Th) (s : State T Th F) : Prop where
  idle : ∀ th, (s.request th).isSome = true → isIdle (s.mLoop.thread th) = true
  user : runsUser s.mLoop.loop = false → s.isFree runner = true
  alive : ∀ th t, (s.request th).any (Request.on t) = true → (s.mLoop.locks t).life = .alive
  restart : ∀ th t msec rep, s.mLoop.thread th = .restart t msec rep →
    (s.mLoop.locks t).life = .alive

omit [DecidableEq Th] in
/-- When loop() goes on, its thread is in no call. -/
theorem Living.loop_free (h : Living runner s)
    (hadmits : (!runsUser s.mLoop.loop || s.isFree runner) = true) : s.isFree runner = true := by
  cases huser : runsUser s.mLoop.loop with
  | true => simpa [huser] using hadmits
  | false => exact h.user huser

theorem Living.call {r : Request T F} (h : Living runner s) (hmay : s.mayCall runner th = true)
    (hlife : Lifetimes s (.call th r)) :
    Living runner { s with request := Function.update s.request th (some r) } where
  idle u hu := by
    by_cases hne : u = th
    · rw [hne]
      exact (isFree_iff.mp (mayCall_free hmay)).2
    · exact h.idle u (by simpa [Function.update_of_ne hne] using hu)
  user huser := by
    have hne := (mayCall_user hmay huser).symm
    simpa [State.isFree, Function.update_of_ne hne] using h.user huser
  alive u t hu := by
    by_cases hne : u = th
    · subst hne
      exact hlife.1 (u, t) (mem_called u (by simpa using hu))
    · exact h.alive u t (by simpa [Function.update_of_ne hne] using hu)
  restart := h.restart

theorem Living.enter {r : Request T F} {m : MainLoop.State T Th F} (h : Living runner s)
    (ho : Owned s.mLoop) (hh : Held s.mLoop) (hr : s.request th = some r)
    (hm : Moves capacity s.mLoop (r.action th) m) :
    Living runner { mLoop := m, request := Function.update s.request th none } := by
  have hidle : ∀ u, u ≠ th → isIdle (s.mLoop.thread u) = true → isIdle (m.thread u) = true := by
    intro u hne hu
    refine hm.idle hu ?_
    rw [beginner_action]
    intro heq
    exact hne (Option.some.inj heq).symm
  have halive : ∀ t, (s.mLoop.locks t).life = .alive → (m.locks t).life = .alive := by
    intro t ht
    obtain hlife | ⟨u, hu⟩ := hm.alive ho hh ht
    · exact hlife
    · cases r <;> cases hu
  have hloop : m.loop = s.mLoop.loop := by
    obtain hloop | henter | ⟨answer, hanswer⟩ | ⟨⟨e, he⟩, -⟩ := hm.loop_cases
    · exact hloop
    · exact absurd henter (loop_action r th).1
    · exact absurd hanswer ((loop_action r th).2.1 answer)
    · exact absurd he ((loop_action r th).2.2 e)
  refine ⟨fun u hu => ?_, fun huser => ?_, fun u t hu => ?_, fun u t msec rep hu => ?_⟩
  · by_cases hne : u = th
    · rw [hne] at hu
      simp at hu
    · exact hidle u hne (h.idle u (by simpa [Function.update_of_ne hne] using hu))
  · rw [hloop] at huser
    obtain ⟨hnone, hpoint⟩ := isFree_iff.mp (h.user huser)
    have hne : runner ≠ th := by
      intro heq
      rw [heq, hr] at hnone
      cases hnone
    exact isFree_iff.mpr ⟨by simpa [Function.update_of_ne hne] using hnone, hidle runner hne hpoint⟩
  · by_cases hne : u = th
    · rw [hne] at hu
      simp at hu
    · exact halive t (h.alive u t (by simpa [Function.update_of_ne hne] using hu))
  · obtain hrestart | hcall := hm.restarts hu
    · exact halive t (h.restart u t msec rep hrestart)
    · cases r <;> cases hcall

theorem Living.main {b : MainLoop.Action T Th F} {m : MainLoop.State T Th F} (h : Living runner s)
    (ho : Owned s.mLoop) (hh : Held s.mLoop) (hadmits : s.admits runner b = true)
    (hlife : Lifetimes s (.main b)) (hm : Moves capacity s.mLoop b m) :
    Living runner { s with mLoop := m } := by
  have hfree : ∀ u, b.beginner = some u → s.isFree u = true := fun u hu =>
    mayCall_free (mayCall_of_admits hadmits hu)
  have halive : ∀ u t, s.uses u t = true → (s.mLoop.locks t).life = .alive →
      (m.locks t).life = .alive := by
    intro u t hu ht
    obtain hlife' | ⟨x, rfl⟩ := hm.alive ho hh ht
    · exact hlife'
    · rw [hlife.2 (x, t) rfl u] at hu
      cases hu
  refine ⟨fun u hu => ?_, fun huser => ?_, fun u t hu => ?_, fun u t msec rep hu => ?_⟩
  · refine hm.idle (h.idle u hu) fun hb => ?_
    obtain ⟨hnone, -⟩ := isFree_iff.mp (hfree u hb)
    rw [hnone] at hu
    cases hu
  · have hself : s.isFree runner = true ∧ b.beginner ≠ some runner := by
      obtain hloop | rfl | ⟨answer, rfl⟩ | ⟨⟨e, rfl⟩, hpoll⟩ := hm.loop_cases
      · rw [hloop] at huser
        exact ⟨h.user huser, fun hb => mayCall_user (mayCall_of_admits hadmits hb) huser rfl⟩
      · exact ⟨h.loop_free hadmits, by simp [MainLoop.Action.beginner]⟩
      · exact ⟨h.loop_free hadmits, by simp [MainLoop.Action.beginner]⟩
      · exact ⟨h.user hpoll, by simp [MainLoop.Action.beginner]⟩
    obtain ⟨hnone, hpoint⟩ := isFree_iff.mp hself.1
    exact isFree_iff.mpr ⟨hnone, hm.idle hpoint hself.2⟩
  · exact halive u t (by simp [State.uses, hu]) (h.alive u t hu)
  · obtain hrestart | rfl := hm.restarts hu
    · exact halive u t (by simp [State.uses, isOn, hrestart]) (h.restart u t msec rep hrestart)
    · obtain hlife' | ⟨x, hx⟩ := hm.alive ho hh (hlife.1 (u, t) rfl)
      · exact hlife'
      · cases hx

/-- A call that has not begun is on a timer that is alive, as long as the callers keep to the
lifetimes. -/
theorem living_invariant (hok : ∀ s a, ok s a → Lifetimes s a) :
    (machine runner capacity).Invariant ok (fun s => Disciplined s.mLoop ∧ Held s.mLoop)
      (Living runner : State T Th F → Prop) where
  init s hs := by
    obtain ⟨⟨now, -, hloop⟩, hrequest⟩ := hs
    refine ⟨fun th hth => ?_, fun _ => ?_, fun th t hth => ?_, fun th t msec rep hth => ?_⟩
    · simp [hrequest] at hth
    · simp [State.isFree, hrequest, hloop, MainLoop.State.start, isIdle]
    · simp [hrequest] at hth
    · simp [hloop, MainLoop.State.start] at hth
  step s a s' ha hJ hstep h := by
    obtain ⟨th, r, rfl, hmay, rfl⟩ | ⟨th, r, m, rfl, hr, hm, rfl⟩ | ⟨b, m, rfl, hadmits, hm, rfl⟩ :=
      step_cases hstep
    · exact h.call hmay (hok s _ ha)
    · exact h.enter hJ.1.owned hJ.2 hr (MainLoop.step_cases hm)
    · exact h.main hJ.1.owned hJ.2 hadmits (hok s _ ha) (MainLoop.step_cases hm)

/-- In every reachable state the calls that have not begun are on timers that are alive. -/
theorem living_reachable (hok : ∀ s a, ok s a → Lifetimes s a)
    (hs : (machine runner capacity).Reachable ok s) : Living runner s :=
  (living_invariant hok).reachable (fun _ h => ⟨disciplined_loop h, held_loop h⟩) hs

end CWrapper.LoopCalls
