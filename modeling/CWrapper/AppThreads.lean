import CWrapper.AppSteps
import CWrapper.SampleServiceEntries

/-!
Where the threads of the program stand. main() is in a member where it has called one in start() or
stop(); the worker thread is in msleep() or in request() where run() has called them; and no thread
is in both taskEntry functions.
-/
namespace CWrapper.App

open Transition SampleService

variable {Th : Type}

def State.entry [DecidableEq Th] (s : State Th) (runner th : Th) :
    Option (WorkerThread.Entry Unit) :=
  if th = runner then
    match s.call with
    | .inside op .mThread => some (inThread op)
    | _ => none
  else
    match s.run th with
    | .msleep _ => some .msleep
    | _ => none

/-- The point of main() and that of a thread in run(), with the point of the thread in mService. -/
inductive InService (c : Call) (r : RunPoint) (main : Prop) : SampleService.Call → Prop
  | outside : InService c r main .none
  | setEOS {op : Operation} (hmain : main) (hcall : c = .inside op .mService) :
      InService c r main (.setEOS op)
  | thread {op : Operation} (hmain : main) (hcall : c = .inside op .mService) :
      InService c r main (.thread op)
  | request {n : ℕ} (hrun : r = .request n) : InService c r main .request

def State.serviceTask (s : State Th) (th : Th) : WorkerThread.Task Unit :=
  s.mService.mThread.mThreadEngine.task th

structure Consistent [DecidableEq Th] (runner : Th) (s : State Th) : Prop where
  runs : ∀ th, s.run th ≠ .outside ↔ s.mThread.task th = .run ()
  thread : ∀ th, s.mThread.call th = .none ∨
    ∃ e, s.entry runner th = some e ∧ e.reaches (s.mThread.call th) = true
  service : ∀ th, InService s.call (s.run th) (th = runner) (s.mService.call th)
  main : s.mThread.task runner = .none ∧ s.serviceTask runner = .none
  apart : ∀ th, s.mThread.task th = .none ∨ s.serviceTask th = .none

variable [DecidableEq Th] {runner : Th} {capacity : ℕ+} {s s' : State Th} {th u : Th}

theorem entry_runner : s.entry runner runner =
    match s.call with
    | .inside op .mThread => some (inThread op)
    | _ => none := if_pos rfl

theorem entry_other (hne : th ≠ runner) : s.entry runner th =
    match s.run th with
    | .msleep _ => some .msleep
    | _ => none := if_neg hne

namespace Consistent

theorem not_runner (h : Consistent runner s) (hrun : s.run th ≠ .outside) : th ≠ runner := by
  intro heq
  have htask := (h.runs th).mp hrun
  rw [heq, h.main.1] at htask
  cases htask

theorem run_runner (h : Consistent runner s) : s.run runner = .outside := by
  by_contra hrun
  exact h.not_runner hrun rfl

theorem thread_none (h : Consistent runner s) (hentry : s.entry runner th = none) :
    s.mThread.call th = .none := by
  obtain hnone | ⟨e, he, -⟩ := h.thread th
  · exact hnone
  · rw [hentry] at he
    cases he

/-- main() is in mThread in its start() and stop(). -/
theorem main_thread (h : Consistent runner s) (hcall : ∀ op, s.call ≠ .inside op .mThread) :
    s.mThread.call runner = .none := by
  refine h.thread_none ?_
  rw [entry_runner]
  split
  · rename_i op heq
    exact absurd heq (hcall op)
  · rfl

theorem main_service (h : Consistent runner s) (hcall : ∀ op, s.call ≠ .inside op .mService) :
    s.mService.call runner = .none := by
  have hservice := h.service runner
  generalize s.mService.call runner = c at hservice ⊢
  cases hservice with
  | outside => rfl
  | setEOS _ hinside | thread _ hinside => exact absurd hinside (hcall _)
  | request hrun =>
    rw [h.run_runner] at hrun
    cases hrun

theorem run_thread (h : Consistent runner s) (hrun : s.run th ≠ .outside)
    (hnot : ∀ n, s.run th ≠ .msleep n) : s.mThread.call th = .none := by
  refine h.thread_none ?_
  rw [entry_other (h.not_runner hrun)]
  split
  · rename_i n heq
    exact absurd heq (hnot n)
  · rfl

theorem run_service (h : Consistent runner s) (hrun : s.run th ≠ .outside)
    (hnot : ∀ n, s.run th ≠ .request n) : s.mService.call th = .none := by
  have hservice := h.service th
  have hne := h.not_runner hrun
  generalize s.mService.call th = c at hservice ⊢
  cases hservice with
  | outside => rfl
  | setEOS hmain | thread hmain => exact absurd hmain hne
  | request hrun => exact absurd hrun (hnot _)

/-- main() goes on in start() or stop(), from a point at which it is in neither of the two. -/
theorem goto (h : Consistent runner s) (hthread : s'.mThread = s.mThread)
    (hservice : s'.mService = s.mService) (hrun : s'.run = s.run)
    (hnone : s.mThread.call runner = .none) (hnone' : s.mService.call runner = .none) :
    Consistent runner s' := by
  refine ⟨fun u => ?_, fun u => ?_, fun u => ?_, ?_, fun u => ?_⟩
  · rw [hrun, hthread]
    exact h.runs u
  · rw [hthread]
    by_cases hu : u = runner
    · rw [hu]
      exact Or.inl hnone
    · have hthread := h.thread u
      rwa [entry_other hu, ← hrun, ← entry_other (s := s') hu] at hthread
  · rw [hservice]
    have hinside := h.service u
    generalize hc : s.mService.call u = c at hinside ⊢
    cases hinside with
    | outside => exact .outside
    | setEOS hmain | thread hmain =>
      rw [hmain, hnone'] at hc
      cases hc
    | request hrequest => exact .request (hrun ▸ hrequest)
  · rw [hthread, State.serviceTask, hservice]
    exact h.main
  · rw [hthread, State.serviceTask, hservice]
    exact h.apart u

/-- The worker thread goes on in run(). -/
theorem runTo (h : Consistent runner s) {pt : RunPoint} (hout : s.run th ≠ .outside)
    (hpt : pt ≠ .outside) (hrun : s'.run = Function.update s.run th pt) (hcall : s'.call = s.call)
    (htask : s'.mThread.task = s.mThread.task ∧ s'.serviceTask = s.serviceTask)
    (hthread : s'.mThread.call = Function.update s.mThread.call th (s'.mThread.call th))
    (hself : s'.mThread.call th = .none ∨
      (∃ n, pt = .msleep n) ∧ WorkerThread.Entry.msleep.reaches (s'.mThread.call th) = true)
    (hservice : s'.mService.call = Function.update s.mService.call th (s'.mService.call th))
    (hself' : s'.mService.call th = .none ∨ (∃ n, pt = .request n) ∧
      s'.mService.call th = .request) : Consistent runner s' := by
  have hne := h.not_runner hout
  have hrunth : s'.run th = pt := by rw [hrun, Function.update_self]
  refine ⟨fun u => ?_, fun u => ?_, fun u => ?_, ?_, fun u => ?_⟩
  · rw [htask.1]
    by_cases hu : u = th
    · rw [hu, hrunth]
      exact iff_of_true hpt ((h.runs th).mp hout)
    · rw [hrun, Function.update_of_ne hu]
      exact h.runs u
  · by_cases hu : u = th
    · rw [hu, entry_other hne, hrunth]
      obtain hnone | ⟨⟨n, rfl⟩, hreaches⟩ := hself
      · exact Or.inl hnone
      · exact Or.inr ⟨.msleep, rfl, hreaches⟩
    · rw [hthread, Function.update_of_ne hu]
      have hentry : s'.entry runner u = s.entry runner u := by
        rw [State.entry, State.entry, hcall, hrun, Function.update_of_ne hu]
      rw [hentry]
      exact h.thread u
  · by_cases hu : u = th
    · rw [hu]
      obtain hnone | ⟨⟨n, rfl⟩, hrequest⟩ := hself'
      · rw [hnone]
        exact .outside
      · rw [hrequest]
        exact .request hrunth
    · rw [hservice, hcall, hrun, Function.update_of_ne hu, Function.update_of_ne hu]
      exact h.service u
  · rw [htask.1, htask.2]
    exact h.main
  · rw [htask.1, htask.2]
    exact h.apart u

end Consistent

section Calls

/-- main() calls start() or stop() of mThread. -/
theorem Consistent.callThread (h : Consistent runner s) {op : Operation}
    {t : WorkerThread.State Unit Th} (hcall : s.call = .call op .mThread)
    (ht : WorkerThread.step s.mThread (.call runner (inThread op)) = some t) :
    Consistent runner { s.goto (.inside op .mThread) with mThread := t } := by
  obtain ⟨-, ht⟩ := Option.ite_none_right_eq_some.mp ht
  obtain rfl := Option.some.inj ht
  have hnone := h.main_service (by simp [hcall])
  refine ⟨h.runs, fun u => ?_, fun u => ?_, h.main, h.apart⟩
  · by_cases hu : u = runner
    · rw [hu]
      refine Or.inr ⟨inThread op, entry_runner, ?_⟩
      simp only [WorkerThread.State.goto, Function.update_self]
      cases op <;> rfl
    · simp only [WorkerThread.State.goto, Function.update_of_ne hu]
      have hthread := h.thread u
      rwa [entry_other hu] at hthread ⊢
  · have hinside := h.service u
    show InService _ _ _ (s.mService.call u)
    generalize hc : s.mService.call u = c at hinside ⊢
    cases hinside with
    | outside => exact .outside
    | setEOS hmain | thread hmain =>
      rw [hmain, hnone] at hc
      cases hc
    | request hrun => exact .request hrun

/-- main() calls start() or stop() of mService. -/
theorem Consistent.callService (h : Consistent runner s) {op : Operation}
    {v : SampleService.State Th} (hcall : s.call = .call op .mService)
    (hv : SampleService.step s.mService (inService runner op) = some v) :
    Consistent runner { s.goto (.inside op .mService) with mService := v } := by
  obtain ⟨-, hv⟩ : s.mService.isFree runner = true ∧
      (s.mService.goto runner (.setEOS op)).queueStep (.setEOS runner op.eos) = some v := by
    cases op <;> exact Option.ite_none_right_eq_some.mp hv
  obtain ⟨q, -, rfl⟩ := queueStep_eq hv
  have hnone := h.main_thread (by simp [hcall])
  refine ⟨h.runs, fun u => ?_, fun u => ?_, h.main, h.apart⟩
  · by_cases hu : u = runner
    · rw [hu]
      exact Or.inl hnone
    · have hthread := h.thread u
      rwa [entry_other hu] at hthread ⊢
  · by_cases hu : u = runner
    · simp only [SampleService.State.goto, hu, Function.update_self]
      exact .setEOS trivial rfl
    · simp only [SampleService.State.goto, Function.update_of_ne hu]
      have hinside := h.service u
      generalize s.mService.call u = c at hinside ⊢
      cases hinside with
      | outside => exact .outside
      | setEOS hmain | thread hmain => exact absurd hmain hu
      | request hrun => exact .request hrun

end Calls

end CWrapper.App
