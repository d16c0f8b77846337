import CWrapper.TimerThreadsProgress
import CWrapper.WorkerJoin

/-!
The one deadlock of a TimerThread. The handler calls start() or restart(), which waits for the
thread that joins the worker thread in stop(), start() or restart(). The handler has mLock, and
keeps it.
-/
namespace CWrapper.TimerThreads

open Transition WorkerThread

variable {H Th : Type} [DecidableEq Th] {s s' : State H Th} {th t h : Th}

section Deadlock

/-- The handler is in mThread.start() of start() or restart(), while another thread joins the worker
thread. -/
structure HandlerDeadlock (s : State H Th) (t h : Th) : Prop where
  handler : (s.run t).inHandler = true
  starting : s.call t = .starting
  joins : (∃ op, s.call h = .stopping op) ∨ s.call h = .starting
  engine : Deadlock s.mThread t h

/-- A deadlock of the engine is one of the handler: nothing else of run() calls start(). -/
theorem Consistent.deadlock (hcons : Consistent s) (hdead : Deadlock s.mThread t h) :
    HandlerDeadlock s t h := by
  have hdead' := hdead
  obtain ⟨⟨w, hrun⟩, ⟨w', hstart⟩, -, op, hjoin⟩ := hdead'
  have hstarting : s.call t = .starting := by
    obtain hnone | ⟨entry, hentry, hreaches⟩ := hcons.engine t
    · rw [hstart] at hnone
      cases hnone
    · rw [hstart] at hreaches
      obtain rfl : entry = .start () := by
        cases entry <;> first | rfl | cases hreaches
      exact starting_of_engine hentry
  refine ⟨?_, hstarting, ?_, hdead⟩
  · obtain htask | hin := hcons.outside t (by rw [hstarting]; simp)
    · rw [hrun] at htask
      cases htask
    · exact hin
  · obtain hnone | ⟨entry, hentry, hreaches⟩ := hcons.engine h
    · rw [hjoin] at hnone
      cases hnone
    · rw [hjoin] at hreaches
      cases entry with
      | start => exact Or.inr (starting_of_engine hentry)
      | stop => exact Or.inl (stopping_of_engine hentry)
      | requestStop | msleep => cases hreaches
      | join => exact absurd hentry (engine_ne_join _ _)

/-- pthread_join does not fail: no thread joins itself. -/
theorem joinSucceeds_of_admits (hs : (machine H Th).Reachable Machine.anyStep s)
    {b : WorkerThread.Action Unit Th} (hadmits : s.admits b = true) :
    s.mThread.joinSucceeds b = true := by
  cases b with
  | call | lock | wakeup | expire => rfl
  | resume th answer =>
    cases answer with
    | yes | thread => rfl
    | no =>
      simp only [WorkerThread.State.joinSucceeds]
      split
      · rename_i op id hcall
        simp only [State.admits, hcall, Bool.or_eq_true, decide_eq_true_eq] at hadmits
        exact joins_other (engine_part.reachable hs) hcall hadmits
      · rfl

theorem joining_part : Machine.Part (machine H Th) (WorkerThread.machine Unit Th) Machine.anyStep
    (fun e a => e.joinSucceeds a = true) (fun s => s.mThread) where
  init := engine_part.init
  step s a s' hs _ hstep := by
    obtain hsame | ⟨b, ⟨-, hadmits⟩ | ⟨th, entry, rfl⟩, hb⟩ := step_engine hstep
    · exact Or.inl hsame
    · exact Or.inr ⟨b, joinSucceeds_of_admits hs hadmits, hb⟩
    · exact Or.inr ⟨.call th entry, rfl, hb⟩

/-- While a thread is in a TimerThread, one of them is not blocked and goes on, or the handler is in
start() or restart() while another thread joins the worker thread; and then the two are blocked for
ever, with mLock held. -/
theorem only_handler_deadlock (hs : (machine H Th).Reachable Machine.anyStep s) :
    (∀ th, s.inside th = true →
      (∃ th', s.inside th' = true ∧ ¬ Blocked s th' ∧ s.canStep th') ∨
        ∃ t h, HandlerDeadlock s t h) ∧
    ∀ t h, HandlerDeadlock s t h → ∀ as s', (machine H Th).Path Machine.anyStep s as s' →
      HandlerDeadlock s' t h ∧ Blocked s' t ∧ Blocked s' h ∧
        0 < ReentrantLock.held s'.mLock t := by
  refine ⟨fun th hin => ?_, fun t h hdead as s' hpath => ?_⟩
  · obtain ⟨th', hin', hfree⟩ | ⟨t, h, hdead⟩ := free_thread hs hin
    · exact Or.inl ⟨th', hin', hfree, canStep_of_free hs hin' hfree⟩
    · exact Or.inr ⟨t, h, (consistent_reachable hs).deadlock hdead⟩
  · obtain ⟨bs, hbs⟩ := joining_part.path hs hpath
    have hdead' := hdead.engine.path (engine_part.reachable hs) hbs
    have hcons' := consistent_reachable (hs.path hpath)
    have hhandler := hcons'.deadlock hdead'
    refine ⟨hhandler, .engine hdead'.blocked.1, .engine hdead'.blocked.2, ?_⟩
    have hin := hhandler.handler
    rw [hcons'.held t]
    cases hr : s'.run t <;> rw [hr] at hin <;> first | exact Nat.succ_pos _ | cases hin

end Deadlock

section Example

/-- `false` joins the worker thread in stop(), and the handler calls restart(). -/
def restarting : State Unit Bool :=
  (machine Unit Bool).after Machine.anyStep expired
    ([.enter false .stop] ++ inFunction 1 false ++ inEngineLock false ++ inEngine 1 false ++
      inEngineLock false ++ inEngine 2 false ++ inEngineLock false ++ inEngine 1 false ++
      inEngineLock false ++ [.enter true .restart] ++ inFunction 1 true ++ inEngineLock true ++
      inEngineLock true ++ inFunction 4 true)

theorem only_handler_deadlock_restarting : HandlerDeadlock restarting true false ∧
    ∀ as s', (machine Unit Bool).Path Machine.anyStep restarting as s' →
      HandlerDeadlock s' true false ∧ Blocked s' true ∧ Blocked s' false ∧
        0 < ReentrantLock.held s'.mLock true := by
  have hs : (machine Unit Bool).Reachable Machine.anyStep restarting :=
    expired_reachable.path (Machine.path_after (by decide +kernel))
  have hdead : HandlerDeadlock restarting true false :=
    ⟨by decide +kernel, rfl, Or.inl ⟨.stop, rfl⟩, ⟨⟨(), rfl⟩, ⟨(), rfl⟩, rfl, .stop, rfl⟩⟩
  exact ⟨hdead, (only_handler_deadlock hs).2 true false hdead⟩

end Example

end CWrapper.TimerThreads
