import CWrapper.AppNumbers

/-!
start() leaves aside what mService.start() returns. When mService has no thread, nobody takes a
message out of mMsgQ, and when it is full, run() is in request() for ever, and so is stop() in
mThread.stop().
-/
namespace CWrapper.App

open Transition SampleService

variable {Th : Type}

/-- A thread is in mMsgQ.put() of request() and has its message still to put in, mMsgQ is full, and
mService has no thread. -/
structure Starved (s : State Th) : Prop where
  asks : ∃ th msg, message (s.mService.mMsgQ.thread th) = some msg
  full : s.mService.mMsgQ.mQueue.isFull = true
  alone : s.noService

variable [DecidableEq Th] {runner : Th} {capacity : ℕ+} {s s' : State Th} {th u : Th}

section Steps

/-- Nobody takes the message that the thread has, and nobody makes room for it. -/
theorem Starved.puts (hstarved : Starved s)
    (hs : (SampleService.machine Th).Reachable Machine.anyStep s.mService)
    (heos : s.mService.mMsgQ.mEOS = false)
    (hputs : Puts s.mService.mMsgQ s'.mService.mMsgQ) (hno : s'.noService) : Starved s' := by
  cases hputs with
  | none _ hqueue hmessage =>
    obtain ⟨th, msg, hmsg⟩ := hstarved.asks
    refine ⟨⟨th, msg, (hmessage th).trans hmsg⟩, ?_, hno⟩
    obtain hqueue | ⟨u, point, hget⟩ := hqueue
    · rw [hqueue]
      exact hstarved.full
    · have hloop : s.mService.loop u ≠ .outside := by
        have hstands := (SampleService.consistent_reachable hs).stands u
        rw [hget] at hstands
        generalize s.mService.loop u = pt at hstands ⊢
        generalize s.mService.call u = c at hstands
        cases hstands with
        | get => simp
      exact absurd (hstarved.alone u) (SampleService.task_of_loop hs hloop)
  | put _ _ _ henqueued =>
    obtain heos' | ⟨hroom, -⟩ := henqueued
    · rw [heos] at heos'
      cases heos'
    · rw [hstarved.full] at hroom
      cases hroom

theorem Starved.request (hstarved : Starved s)
    (hs : (machine runner capacity).Reachable Machine.anyStep s) :
    ∃ th n, s.run th = .request n := by
  obtain ⟨th, msg, hmsg⟩ := hstarved.asks
  obtain ⟨n, hn⟩ := asks_of_message (consistent_reachable hs)
    (SampleService.consistent_reachable (service_part.reachable hs)) hmsg
  exact ⟨th, n, hn⟩

/-- main() is not past mThread.stop(). -/
theorem Starved.mayRun (hstarved : Starved s)
    (hs : (machine runner capacity).Reachable Machine.anyStep s) : s.call.mayRun = true := by
  obtain ⟨th, n, hn⟩ := hstarved.request hs
  have hrun : s.run th ≠ .outside := by simp [hn]
  exact ((sessions_reachable hs).running (consistent_reachable hs) hrun).2

/-- Nobody is left to take a message out, so that the queue stays full and the thread stays in
put(). -/
theorem Starved.step (hstarved : Starved s)
    (hs : (machine runner capacity).Reachable Machine.anyStep s)
    (hm : Moves runner capacity s s') : Starved s' := by
  have h := consistent_reachable hs
  have hservice := service_part.reachable hs
  have hcons := SampleService.consistent_reachable hservice
  obtain ⟨th, n, hn⟩ := hstarved.request hs
  have hrun : s.run th ≠ .outside := by simp [hn]
  have hmay := hstarved.mayRun hs
  have hmoves := hm.service_moves
  have hno : s'.noService := by
    refine hmoves.noService h hservice ?_ hstarved.alone
    intro hcall
    rw [hcall] at hmay
    cases hmay
  have heos := (sessions_reachable hs).eos h hrun
  cases hmoves with
  | same hsame => exact ⟨hsame ▸ hstarved.asks, hsame ▸ hstarved.full, hno⟩
  | @enter op hcall =>
    rw [hcall] at hmay
    cases op <;> cases hmay
  | @request k u hrun' =>
    have hother : s.run u ≠ .outside := by simp [hrun']
    obtain rfl := one_run hs hrun hother
    rw [hn] at hrun'
    cases hrun'
  | step ha _ hv =>
    refine hstarved.puts hservice heos (hcons.puts (SampleService.step_moves hv) ?_) hno
    intro th what heq
    rw [heq] at ha
    cases ha

/-- While the worker thread is in run(), main() does not return from stop() of mThread. -/
theorem Starved.stopping (hstarved : Starved s')
    (hs : (machine runner capacity).Reachable Machine.anyStep s')
    (hm : Moves runner capacity s s') (hcall : s.call = .inside .stop .mThread) :
    s'.call = .inside .stop .mThread := by
  have hmay := hstarved.mayRun hs
  cases hm.turn with
  | stay hsame => rw [hsame, hcall]
  | start hnone | stop hnone =>
    rw [hcall] at hnone
    cases hnone
  | enter hcall' =>
    rw [hcall] at hcall'
    cases hcall'
  | «return» hcall' _ hs' =>
    rw [hcall] at hcall'
    cases hcall'
    rw [hs'] at hmay
    cases hmay

end Steps

section Runs

/-- Where mMsgQ is full and mService has no thread, run() is in request() for ever: the worker
thread does not leave run(), main() is not past mThread.stop(), and where it is in it, it never
returns from it. -/
theorem starved_for_ever (hs : (machine runner capacity).Reachable Machine.anyStep s)
    (hstarved : Starved s) {as : List (Action Th)}
    (hpath : (machine runner capacity).Path Machine.anyStep s as s') :
    Starved s' ∧ (∃ th n, s'.run th = .request n) ∧ s'.call.mayRun = true ∧
      (s.call = .inside .stop .mThread → s'.call = .inside .stop .mThread) := by
  obtain ⟨hs', hstarved', hstopping⟩ :
      (machine runner capacity).Reachable Machine.anyStep s' ∧ Starved s' ∧
        (s.call = .inside .stop .mThread → s'.call = .inside .stop .mThread) := by
    refine hpath.keeps (I := fun x => (machine runner capacity).Reachable Machine.anyStep x ∧
      Starved x ∧ (s.call = .inside .stop .mThread → x.call = .inside .stop .mThread)) ?_
      ⟨hs, hstarved, fun hcall => hcall⟩
    intro s₁ a s₂ ha hstep hkept
    obtain ⟨hs₁, hstarved₁, hstopping⟩ := hkept
    have hs₂ := hs₁.step ha hstep
    have hm := step_moves hstep
    have hstarved₂ := hstarved₁.step hs₁ hm
    exact ⟨hs₂, hstarved₂, fun hcall => hstarved₂.stopping hs₂ hm (hstopping hcall)⟩
  exact ⟨hstarved', hstarved'.request hs', hstarved'.mayRun hs', hstopping⟩

theorem starved_for_ever_hanging : hanging.call = .inside .stop .mThread ∧
    ∀ as s', (machine (0 : Fin 3) MainLoop.oneSlot).Path Machine.anyStep hanging as s' →
      (∃ th n, s'.run th = .request n) ∧ s'.call = .inside .stop .mThread := by
  have hs : (machine (0 : Fin 3) MainLoop.oneSlot).Reachable Machine.anyStep hanging :=
    Machine.reachable_after ⟨0, by decide, rfl⟩ (by decide +kernel)
  have hcall : hanging.call = .inside .stop .mThread := by decide +kernel
  have hnone : ∀ th, (hanging.serviceTask th).isNone = true := by decide +kernel
  have hstarved : Starved hanging := ⟨⟨2, ⟨64, 0, 0, 0⟩, by decide +kernel⟩, by decide +kernel,
    fun th => WorkerThread.task_isNone_iff.mp (hnone th)⟩
  refine ⟨hcall, fun as s' hpath => ?_⟩
  obtain ⟨-, hrun, -, hstopping⟩ := starved_for_ever hs hstarved hpath
  exact ⟨hrun, hstopping hcall⟩

end Runs

end CWrapper.App
