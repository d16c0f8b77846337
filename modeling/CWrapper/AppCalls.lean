import CWrapper.AppLoop
import CWrapper.AppStop

/-!
The program keeps to the contracts of its members. No call into a member is refused, since main()
and the worker thread are in no other function of the member when they call one; and the loop and
mTimer are used as ITimerHandler demands, so nobody is stuck in them.
-/
namespace CWrapper.App

open Transition SampleService LoopCalls

variable {Th : Type} [DecidableEq Th] {runner : Th} {capacity : ℕ+} {s : State Th} {th : Th}

/-- A thread outside mService and its taskEntry calls a function of mMsgQ there. -/
theorem service_accepts (hs : (SampleService.machine Th).Reachable Machine.anyStep s.mService)
    (hcall : s.mService.call th = .none) (htask : s.serviceTask th = .none) :
    s.mService.isFree th = true ∧ s.mService.mMsgQ.thread th = .idle := by
  refine ⟨SampleService.isFree_of_none hs hcall htask, ?_⟩
  have hstands := (SampleService.consistent_reachable hs).stands th
  rw [hcall] at hstands
  refine hstands.idle fun hget => ?_
  exact SampleService.task_of_loop hs (by simp [hget]) htask

/-- main() calls the member that comes next. -/
theorem main_calls (hs : (machine runner capacity).Reachable Machine.anyStep s) {op : Operation}
    {m : Member} (hcall : s.call = .call op m) :
    (step runner capacity s .next).isSome = true := by
  have h := consistent_reachable hs
  have hstep : step runner capacity s .next =
      (s.goto (.inside op m)).invoke runner capacity op m := by
    simp only [step, hcall, callStep]
  rw [hstep]
  cases m with
  | mTimer =>
    have huse := (loop_reachable hs).2
    obtain ⟨hhandled, hruns⟩ := not_handled_of_outside (huse.outside (by simp [hcall]))
    have hfree : s.mLoop.isFree runner = true := by
      obtain hfree | ⟨op', hinside⟩ | ⟨hposted, -⟩ := huse.free
      · exact hfree
      · rw [hcall] at hinside
        cases hinside
      · rw [hhandled] at hposted
        cases hposted
    have hmay : s.mLoop.mayCall runner runner = true := by
      simp [LoopCalls.State.mayCall, hfree, hruns]
    simp [State.invoke, State.loopStep, State.goto, LoopCalls.step, hmay]
  | mService =>
    obtain ⟨hfree, hidle⟩ := service_accepts (service_part.reachable hs)
      (h.main_service (by simp [hcall])) h.main.2
    cases op <;>
      simp [State.invoke, State.serviceStep, State.goto, inService, SampleService.step,
        SampleService.State.enter, SampleService.State.queueStep, SampleService.State.goto, hfree,
        SyncQueue.step, SyncQueue.State.call, hidle]
  | mThread =>
    have hnone := h.main_thread (by simp [hcall])
    simp [State.invoke, State.threadStep, State.goto, WorkerThread.step, hnone, h.main.1,
      WorkerThread.Call.isNone, WorkerThread.Task.mayCall]

/-- run() calls msleep() and request(). -/
theorem run_calls (hs : (machine runner capacity).Reachable Machine.anyStep s) {n : ℕ}
    (hrun : s.run th = .callMsleep n ∨ s.run th = .callRequest n) :
    (step runner capacity s (.run th)).isSome = true := by
  have h := consistent_reachable hs
  obtain hrun | hrun := hrun
  · have hout : s.run th ≠ .outside := by simp [hrun]
    have hnone := h.run_thread hout (by simp [hrun])
    have htask := (h.runs th).mp hout
    simp [step, hrun, runStep, State.threadStep, State.gotoRun, WorkerThread.step, hnone, htask,
      WorkerThread.Call.isNone, WorkerThread.Task.mayCall]
  · have hout : s.run th ≠ .outside := by simp [hrun]
    have htask : s.serviceTask th = .none := by
      obtain hnone | hnone := h.apart th
      · rw [(h.runs th).mp hout] at hnone
        cases hnone
      · exact hnone
    obtain ⟨hfree, hidle⟩ := service_accepts (service_part.reachable hs)
      (h.run_service hout (by simp [hrun])) htask
    simp [step, hrun, runStep, State.serviceStep, State.gotoRun, SampleService.step, hfree,
      SampleService.State.queueStep, SampleService.State.goto, SyncQueue.step,
      SyncQueue.State.call, hidle]

section Loop

/-- A thread in a call is not blocked and goes on, loop() goes on, or its handler calls post(). -/
def LoopGoes (runner : Th) (capacity : ℕ+) (s : State Th) : Prop :=
  (∃ th, Inside s.mLoop th ∧ ¬ Blocked s.mLoop th ∧
    ((step runner capacity s (.loop (.enter th))).isSome = true ∨
      (step runner capacity s (.loop (.main (.thread th false)))).isSome = true)) ∨
  (∃ answer, (step runner capacity s (.loop (.main (.loop answer)))).isSome = true) ∨
    (step runner capacity s .post).isSome = true

/-- The handler returns true when it has called post(), which it can do. -/
theorem handler_goes_on (hgo : LoopGoesOn runner capacity s.mLoop)
    (hhandled : handled s.mLoop.mLoop.loop = some ()) : LoopGoes runner capacity s := by
  have huser := runsUser_of_handled hhandled
  have hfree : s.mLoop.isFree runner = true := by
    by_contra hfree
    simp [LoopGoesOn, LoopCalls.step, LoopCalls.State.admits, huser, hfree] at hgo
  cases hposted : s.posted with
  | false =>
    refine Or.inr (Or.inr ?_)
    simp [step, State.loopStep, LoopCalls.step, LoopCalls.State.mayCall, hhandled, hposted, hfree,
      huser]
  | true =>
    refine Or.inr (Or.inl ⟨true, ?_⟩)
    have hloop : s.mLoop.mLoop.loop = .exec () .callback := by
      generalize s.mLoop.mLoop.loop = p at hhandled
      cases p with
      | exec t e => cases e <;> first | rfl | cases hhandled
      | _ => cases hhandled
    simp [step, State.admitsLoop, State.loopStep, LoopCalls.step, LoopCalls.State.admits, hposted,
      hfree, MainLoop.step, MainLoop.loopStep, MainLoop.execStep, Timer.executeStep, hloop]

theorem loop_goes_on (hgo : GoesOn runner capacity s.mLoop) : LoopGoes runner capacity s := by
  obtain ⟨th, hin, hfree, hstep⟩ | hloop := hgo
  · refine Or.inl ⟨th, hin, hfree, ?_⟩
    obtain henter | hthread := hstep
    · exact Or.inl (by simpa [step, State.admitsLoop, State.loopStep] using henter)
    · exact Or.inr (by simpa [step, State.admitsLoop, State.loopStep] using hthread)
  · cases hhandled : handled s.mLoop.mLoop.loop with
    | some t => exact handler_goes_on hloop hhandled
    | none =>
      refine Or.inr (Or.inl ⟨false, ?_⟩)
      simpa [step, State.admitsLoop, State.loopStep, hhandled, LoopGoesOn] using hloop

end Loop

/-- The loop and mTimer are used as their contracts demand; while a thread is in a call of them, or
loop() is in progress outside epoll_wait, such a thread or loop() goes on; and main() and run() call
the members without being refused. -/
theorem contracts_kept (hs : (machine runner capacity).Reachable Machine.anyStep s) :
    (LoopCalls.machine runner capacity).Reachable (Careful runner) s.mLoop ∧
    ((∃ th, Inside s.mLoop th) ∨ works s.mLoop.mLoop.loop = true →
      LoopGoes runner capacity s) ∧
    (∀ op m, s.call = .call op m → (step runner capacity s .next).isSome = true) ∧
    ∀ th n, s.run th = .callMsleep n ∨ s.run th = .callRequest n →
      (step runner capacity s (.run th)).isSome = true := by
  have hcareful := (loop_reachable hs).1
  refine ⟨hcareful, fun hbusy => loop_goes_on ?_, fun op m hcall => main_calls hs hcall,
    fun th n hrun => run_calls hs hrun⟩
  obtain hgo | ⟨t, w, hmissed⟩ | ⟨t, w, hown⟩ :=
    deadlock_of_stuck (fun _ _ h => h.1.1) hcareful hbusy
  · exact hgo
  · exact absurd hmissed (not_missed hcareful)
  · exact absurd hown (not_ownHandler hcareful)

theorem contracts_kept_leaving :
    (step 0 MainLoop.oneSlot leaving .next).isSome = true ∧
      (step 0 MainLoop.oneSlot leaving (.run 2)).isSome = true := by
  have hs : (machine (0 : Fin 3) MainLoop.oneSlot).Reachable Machine.anyStep leaving :=
    logged_reachable.path (Machine.path_after (by decide +kernel))
  have hcall : leaving.call = .call .stop .mThread := by decide +kernel
  have hrun : leaving.run 2 = .callMsleep 1 := by decide +kernel
  obtain ⟨-, -, hmain, hworker⟩ := contracts_kept hs
  exact ⟨hmain .stop .mThread hcall, hworker 2 1 (Or.inl hrun)⟩

end CWrapper.App
