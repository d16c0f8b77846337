import CWrapper.TimerThreadsRuns

/-!
Which handler a TimerThread calls. A callback is one of the handler that the section after msleep
has read under mLock, which is held until the callback has returned.
-/
namespace CWrapper.TimerThreads

open Transition WorkerThread

variable {H Th : Type}

/-- The handler whose callback is about to begin or has begun. -/
def RunPoint.handler : RunPoint H → Option H
  | .call _ handler | .callback _ handler => some handler
  | _ => none

/-- mLock is held once while a callback is about to begin or in progress. -/
theorem depth_of_handler {r : RunPoint H} {handler : H} (h : r.handler = some handler) :
    r.depth = 1 := by
  cases r <;> first | rfl | cases h

variable [DecidableEq Th] {s s' : State H Th} {th u : Th} {a : Action H Th}

def State.setsHandler (s : State H Th) : Action H Th → Bool
  | .resume u =>
      match s.call u with
      | .locked (.setHandler _) => true
      | _ => false
  | _ => false

section Handler

theorem callStep_handler {c : Call H} (hsteps : CallSteps s th c s') :
    s'.run = s.run ∧ (s'.mHandler = s.mHandler ∨
      ∃ handler, c = .locked (.setHandler handler) ∧ s'.mHandler = handler) := by
  cases hsteps with
  | callStop | stopped | lock | callStart | started => exact ⟨rfl, Or.inl rfl⟩
  | assign op =>
    refine ⟨(assign_fields s th op).2.2.2, ?_⟩
    cases op with
    | setHandler handler => exact Or.inr ⟨handler, rfl, rfl⟩
    | setInterval | getInterval | setRepeat | getRepeat | start | restart | stop => exact Or.inl rfl

/-- A callback is one of the handler that the section after msleep has read. -/
theorem runStep_handler (hsteps : RunSteps s th (s.run th) s') :
    s'.mHandler = s.mHandler ∧ ∀ u handler, (s'.run u).handler = some handler →
      (s.run u).handler = some handler ∨ s.mHandler = some handler := by
  have hgoto {s₁ : State H Th} {r : RunPoint H} (hs₁ : s₁.mHandler = s.mHandler)
      (hrun : s₁.run = s.run) (hnext : ∀ handler, r.handler = some handler →
        (s.run th).handler = some handler ∨ s.mHandler = some handler) :
      (s₁.gotoRun th r).mHandler = s.mHandler ∧
        ∀ u handler, ((s₁.gotoRun th r).run u).handler = some handler →
          (s.run u).handler = some handler ∨ s.mHandler = some handler := by
    refine ⟨hs₁, fun u handler hu => ?_⟩
    simp only [State.gotoRun, hrun] at hu
    by_cases heq : u = th
    · rw [heq, Function.update_self] at hu
      rw [heq]
      exact hnext handler hu
    · rw [Function.update_of_ne heq] at hu
      exact Or.inl hu
  have hnone {r : RunPoint H} (hr : r.handler = none) (handler : H)
      (hhandler : r.handler = some handler) :
      (s.run th).handler = some handler ∨ s.mHandler = some handler := by
    rw [hr] at hhandler
    cases hhandler
  generalize hr : s.run th = r at hsteps
  cases hsteps with
  | goes hgoes =>
    cases hgoes with
    | run | leave | elapsed | skip => exact hgoto rfl rfl (hnone rfl)
    | fire keepGoing hread => exact hgoto rfl rfl fun handler hh => Or.inr (hread.trans hh)
    | begin keepGoing handler =>
      exact hgoto rfl rfl fun handler' hh => Or.inl (by rw [hr]; exact hh)
  | lock hlocks => exact hgoto rfl rfl (hnone (by cases hlocks <;> rfl))
  | unlock hunlocks => exact hgoto rfl rfl (hnone (by cases hunlocks <;> rfl))
  | callMsleep | awake | returned => exact hgoto rfl rfl (hnone rfl)

/-- The steps of mThread begin no callback. -/
theorem follow_handler {e : WorkerThread.State Unit Th} {b : WorkerThread.Action Unit Th}
    {handler : H} (hu : ((s.follow { s with mThread := e } b).run u).handler = some handler) :
    (s.run u).handler = some handler := by
  have hgoto {th : Th} {r : RunPoint H} (hr : r.handler = none)
      (hu : ((State.gotoRun { s with mThread := e } th r).run u).handler = some handler) :
      (s.run u).handler = some handler := by
    simp only [State.gotoRun] at hu
    by_cases heq : u = th
    · rw [heq, Function.update_self, hr] at hu
      cases hu
    · rwa [Function.update_of_ne heq] at hu
  cases b with
  | call | lock | wakeup | expire => exact hu
  | resume th answer =>
    simp only [State.follow] at hu
    split at hu
    · exact hgoto rfl hu
    · exact hgoto rfl hu
    · exact hgoto rfl hu
    · exact hu

theorem follow_mHandler (s s' : State H Th) (b : WorkerThread.Action Unit Th) :
    (s.follow s' b).mHandler = s'.mHandler := by
  cases b with
  | resume th answer =>
    simp only [State.follow]
    split <;> rfl
  | call | lock | wakeup | expire => rfl

/-- mHandler changes in the section of setHandler() only, and that waits for mLock. -/
theorem step_handler (hstep : step s a = some s') :
    (s'.mHandler = s.mHandler ∨ s.setsHandler a = true) ∧
      ∀ u handler, (s'.run u).handler = some handler →
        (s.run u).handler = some handler ∨ s.mHandler = some handler := by
  cases step_moves hstep with
  | tick | enter => exact ⟨Or.inl rfl, fun _ _ hu => Or.inl hu⟩
  | resume hsteps =>
    obtain ⟨hrun, hhandler⟩ := callStep_handler hsteps
    rw [hrun]
    refine ⟨?_, fun _ _ hu => Or.inl hu⟩
    obtain hsame | ⟨handler, hcall, -⟩ := hhandler
    · exact Or.inl hsame
    · exact Or.inr (by rw [State.setsHandler, hcall])
  | run answer hsteps =>
    obtain ⟨hsame, hrun⟩ := runStep_handler hsteps
    exact ⟨Or.inl hsame, hrun⟩
  | @engine b e _ _ =>
    exact ⟨Or.inl (follow_mHandler s _ b), fun u handler hu => Or.inl (follow_handler hu)⟩

/-- When a thread outside the handler has passed the section of setHandler(), no callback of another
handler is under way, and none begins before mHandler is set again. -/
theorem handler_replaced (hs : (machine H Th).Reachable Machine.anyStep s) {handler : Option H}
    (hcall : s.call th = .locked (.setHandler handler)) (hout : s.run th = .outside)
    (hstep : step s (.resume th) = some s') {as : List (Action H Th)} {s'' : State H Th}
    (hpath : (machine H Th).Path (fun s a => s.setsHandler a = false) s' as s'') :
    s''.mHandler = handler ∧ ∀ u h, (s''.run u).handler = some h → handler = some h := by
  have hcons := consistent_reachable hs
  have hkept : s'.mHandler = handler ∧ ∀ u h, (s'.run u).handler = some h → handler = some h := by
    have hstep : callStep s th (s.call th) = some s' := hstep
    rw [hcall] at hstep
    obtain rfl := Option.some.inj hstep
    refine ⟨rfl, fun u h hu => ?_⟩
    -- whoever is in a callback has mLock, and that is the thread in the section
    have hcalling : (s.run u).handler = some h := hu
    have hheld : 0 < ReentrantLock.held s.mLock u := by
      rw [hcons.held u, depth_of_handler hcalling]
      omega
    have hheld' : 0 < ReentrantLock.held s.mLock th := by
      rw [hcons.held th, hcall, hout]
      exact Nat.zero_lt_one
    rw [ReentrantLock.held_unique hheld hheld', hout] at hcalling
    cases hcalling
  refine hpath.keeps (I := fun s => s.mHandler = handler ∧
    ∀ u h, (s.run u).handler = some h → handler = some h) ?_ hkept
  intro s a s' hok hstep ⟨hsame, hall⟩
  obtain ⟨hhandler | hsets, hrun⟩ := step_handler hstep
  · refine ⟨hhandler.trans hsame, fun u h hu => ?_⟩
    obtain hu | hu := hrun u h hu
    · exact hall u h hu
    · rw [← hsame]
      exact hu
  · rw [hok] at hsets
    cases hsets

/-- While the worker thread waits, `false` is about to take the handler away. -/
def replacing : State Unit Bool :=
  (machine Unit Bool).after Machine.anyStep waiting [.enter false (.setHandler none), .resume false]

def replaced : State Unit Bool :=
  (machine Unit Bool).after (fun s a => s.setsHandler a = false)
    ((machine Unit Bool).next replacing (.resume false)) expires

theorem handler_replaced_replacing :
    replacing.mHandler = some () ∧ replaced.mHandler = none ∧
      ∀ u h, (replaced.run u).handler = some h → none = some h := by
  have hs : (machine Unit Bool).Reachable Machine.anyStep replacing :=
    waiting_reachable.path (Machine.path_after (by decide +kernel))
  have hcall : replacing.call false = .locked (.setHandler none) := rfl
  have hstep : (machine Unit Bool).step replacing (.resume false) =
      some ((machine Unit Bool).next replacing (.resume false)) :=
    Machine.step_next (by decide +kernel)
  have hpath : (machine Unit Bool).Path (fun s a => s.setsHandler a = false)
      ((machine Unit Bool).next replacing (.resume false)) expires replaced :=
    Machine.path_after (by decide +kernel)
  exact ⟨rfl, handler_replaced hs hcall rfl hstep hpath⟩

end Handler

end CWrapper.TimerThreads
