import CWrapper.AppPhases

/-!
The threads of the program by the calls of main(). mEOS is not set while the worker thread is in
run(), and when stop() has returned, neither of the two threads is left.
-/
namespace CWrapper.App

open Transition SampleService

variable {Th : Type} [DecidableEq Th] {runner : Th} {capacity : ℕ+} {s : State Th} {th u : Th}

section Runs

/-- One thread at most is in run(). -/
theorem one_run (hs : (machine runner capacity).Reachable Machine.anyStep s)
    (hth : s.run th ≠ .outside) (hu : s.run u ≠ .outside) : th = u := by
  obtain ⟨⟨p, hfits⟩, -⟩ := WorkerThread.fits_and_waits (thread_part.reachable hs)
  have h := consistent_reachable hs
  refine hfits.one_task ?_ ?_
  · rw [(h.runs th).mp hth]
    simp
  · rw [(h.runs u).mp hu]
    simp

theorem Call.isOpen_of_mayRun {c : Call} (h : c.mayRun = true) : c.isOpen = true := by
  unfold Call.mayRun at h
  split at h <;> first | rfl | cases h

/-- A thread is in run() in a session of mThread only. -/
theorem Sessions.running (hi : Sessions runner s) (h : Consistent runner s)
    (hrun : s.run th ≠ .outside) : s.started = true ∧ s.call.mayRun = true := by
  have hsession : ¬ (s.started = false ∨ s.call.mayRun = false) := by
    intro hnot
    have hnone := hi.thread hnot th
    rw [(h.runs th).mp hrun] at hnone
    cases hnone
  rwa [not_or, Bool.not_eq_false, Bool.not_eq_false] at hsession

/-- While a thread is in run(), mEOS is not set. -/
theorem Sessions.eos (hi : Sessions runner s) (h : Consistent runner s)
    (hrun : s.run th ≠ .outside) : s.mService.mMsgQ.mEOS = false := by
  obtain ⟨hstarted, hmay⟩ := hi.running h hrun
  exact hi.opened hstarted (Call.isOpen_of_mayRun hmay)

end Runs

section Stop

/-- mThread has a thread, which may be in run(), between its start() and its stop() only, and so has
mService, whose stop() comes after that of mThread; when stop() of the App has returned, neither of
the two is left. -/
theorem threads_in_sessions (hs : (machine runner capacity).Reachable Machine.anyStep s) :
    (s.started = false ∨ s.call.mayRun = false →
      s.mThread.nobody ∧ ∀ th, s.run th = .outside) ∧
    (s.started = false ∨ s.call.mayServe = false →
      s.noService ∧ ∀ th, s.mService.loop th = .outside) ∧
    (s.call.mayRun = true → s.call.mayServe = true) := by
  have h := consistent_reachable hs
  have hi := sessions_reachable hs
  refine ⟨fun hnot => ⟨hi.thread hnot, fun th => ?_⟩, fun hnot => ⟨hi.service hnot, fun th => ?_⟩,
    fun hmay => ?_⟩
  · by_contra hrun
    have htask := (h.runs th).mp hrun
    rw [hi.thread hnot th] at htask
    cases htask
  · by_contra hloop
    exact SampleService.task_of_loop (service_part.reachable hs) hloop (hi.service hnot th)
  · simp only [Call.mayServe, Call.isOpen_of_mayRun hmay, Bool.true_or]

end Stop

section Session

-- `n` steps of a thread in a member; a section of mStateLock begins with its lock

def queueSteps (n : ℕ) (th : Fin 3) : List (Action (Fin 3)) :=
  .replicate n (.service (.queue (.resume th 0)))

def asyncSteps (n : ℕ) : List (Action (Fin 3)) := .replicate n (.service (.thread (.resume 0)))

def engineSteps (n : ℕ) (th : Fin 3) : List (Action (Fin 3)) :=
  .replicate n (.service (.thread (.engine (.resume th .yes))))

def engineSection (n : ℕ) (th : Fin 3) : List (Action (Fin 3)) :=
  .service (.thread (.engine (.lock th))) :: engineSteps n th

def threadSteps (n : ℕ) (th : Fin 3) : List (Action (Fin 3)) :=
  .replicate n (.thread (.resume th .yes))

def threadSection (n : ℕ) (th : Fin 3) : List (Action (Fin 3)) :=
  .thread (.lock th) :: threadSteps n th

def timerCall (n : ℕ) : List (Action (Fin 3)) :=
  [.next, .loop (.enter 0)] ++ .replicate n (.loop (.main (.thread 0 false))) ++ [.next]

def serviceCreates : List (Action (Fin 3)) :=
  [.next] ++ queueSteps 3 0 ++ [.service (.next 0)] ++ asyncSteps 4 ++ engineSection 2 0 ++
    engineSection 3 0 ++ asyncSteps 3 ++ engineSteps 2 0 ++ engineSection 4 0

def serviceStart : List (Action (Fin 3)) :=
  serviceCreates ++ [.service (.thread (.engine (.resume 0 (.thread 1))))] ++ engineSection 1 1 ++
    engineSection 2 0 ++ asyncSteps 2 ++ engineSection 2 1 ++
    [.service (.thread (.run 1)), .service (.thread (.run 1)), .service (.next 0),
      .service (.loop 1)] ++ queueSteps 1 1 ++ [.next]

def serviceFails : List (Action (Fin 3)) :=
  serviceCreates ++ [.service (.thread (.engine (.resume 0 .no)))] ++ engineSection 4 0 ++
    asyncSteps 2 ++ [.service (.next 0), .next]

def threadStart : List (Action (Fin 3)) :=
  [.next] ++ threadSteps 2 0 ++ threadSection 4 0 ++ [.thread (.resume 0 (.thread 2))] ++
    threadSection 1 0 ++ threadSection 1 2 ++ threadSection 2 0 ++ threadSection 2 2 ++ [.next]

def calls : List (Action (Fin 3)) :=
  [.run 2, .run 2] ++ threadSection 1 2 ++ [.thread (.expire 2)] ++ threadSection 1 2 ++
    [.run 2, .run 2]

def requests : List (Action (Fin 3)) := calls ++ queueSteps 1 2 ++ [.service (.next 2), .run 2]

def logs : List (Action (Fin 3)) :=
  queueSteps 1 1 ++ [.service (.loop 1), .service (.loop 1)] ++ queueSteps 1 1

def threadJoins : List (Action (Fin 3)) :=
  [.next] ++ threadSection 2 0 ++ threadSection 3 0 ++ threadSection 2 0 ++ threadSection 1 0

def threadStop : List (Action (Fin 3)) :=
  threadJoins ++ [.run 2] ++ threadSteps 1 2 ++ threadSection 1 2 ++ threadSteps 1 0 ++
    threadSection 3 0 ++ threadSection 2 0 ++ [.next]

def serviceStop : List (Action (Fin 3)) :=
  [.next] ++ queueSteps 3 0 ++ queueSteps 1 1 ++ [.service (.next 0)] ++ asyncSteps 3 ++
    engineSection 2 0 ++ engineSection 3 0 ++ engineSection 2 0 ++ engineSection 1 0 ++
    [.service (.thread (.run 1))] ++ engineSteps 1 1 ++ engineSection 1 1 ++ engineSteps 1 0 ++
    engineSection 3 0 ++ engineSection 2 0 ++ asyncSteps 2 ++ [.service (.next 0), .next]

def logged : State (Fin 3) :=
  (machine 0 MainLoop.oneSlot).after Machine.anyStep (start 0)
    ([.start] ++ timerCall 8 ++ serviceStart ++ threadStart ++ requests ++ logs)

theorem logged_reachable :
    (machine (0 : Fin 3) MainLoop.oneSlot).Reachable Machine.anyStep logged :=
  Machine.reachable_after ⟨0, by decide, rfl⟩ (by decide +kernel)

/-- main() is about to call stop() of mThread, and run() msleep(). -/
def leaving : State (Fin 3) :=
  (machine 0 MainLoop.oneSlot).after Machine.anyStep logged [.run 2, .stop]

/-- mService has no thread, mMsgQ is full, and main() joins the worker thread in stop(). -/
def hanging : State (Fin 3) :=
  (machine 0 MainLoop.oneSlot).after Machine.anyStep (start 0)
    ([.start] ++ timerCall 8 ++ serviceFails ++ threadStart ++
      (List.replicate messages requests).flatten ++ calls ++ [.stop] ++ threadJoins)

def stopped : State (Fin 3) :=
  (machine 0 MainLoop.oneSlot).after Machine.anyStep logged
    ([.stop] ++ threadStop ++ serviceStop ++ timerCall 7)

theorem threads_in_sessions_stopped : logged.run 2 = .shouldRun 1 ∧ stopped.started = false ∧
    stopped.mThread.nobody ∧ stopped.noService := by
  have hs : (machine (0 : Fin 3) MainLoop.oneSlot).Reachable Machine.anyStep stopped :=
    logged_reachable.path (Machine.path_after (by decide +kernel))
  have hstopped : stopped.started = false := by decide +kernel
  have hthreads := threads_in_sessions hs
  exact ⟨by decide +kernel, hstopped, (hthreads.1 (Or.inl hstopped)).1,
    (hthreads.2.1 (Or.inl hstopped)).1⟩

end Session

end CWrapper.App
