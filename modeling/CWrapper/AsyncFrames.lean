import CWrapper.AsyncTask
import CWrapper.WorkerEntries

/-!
What a step of an AsyncThread leaves alone. A thread comes to be in taskEntry when pthread_create
has made it, and it enters and leaves the callback by steps of run() only.
-/
namespace CWrapper.AsyncThread

open Transition WorkerThread

variable {K Th : Type} [DecidableEq Th] {s s' : State K Th} {th u : Th}

theorem step_tasks {a : Action K Th} (hstep : step s a = some s')
    (hu : s.mThreadEngine.task u = .none) :
    s'.mThreadEngine.task u = .none ∨ ∃ th, a = .engine (.resume th (.thread u)) := by
  cases step_moves hstep with
  | start | stop => exact Or.inl hu
  | resume hcall =>
    obtain hsame | ⟨entry, he⟩ := (callStep_moves hcall).engine
    · exact Or.inl (by rw [hsame, hu])
    · obtain hnone | ⟨th', ha⟩ := step_task he hu
      · exact Or.inl hnone
      · cases ha
  | run hrun =>
    obtain ⟨run, new, rfl, -⟩ := runStep_fields hrun
    exact Or.inl hu
  | @engine a e _ he =>
    obtain ⟨call, run, session, new, hobserve⟩ :=
      observe_fields s { s with mThreadEngine := e } a
    rw [hobserve]
    obtain hnone | ⟨th', ha⟩ := step_task he hu
    · exact Or.inl hnone
    · exact Or.inr ⟨th', by rw [ha]⟩

/-- Outside taskEntry, and in taskEntry before and after run(), nobody is in the callback. -/
theorem turn_run {e : WorkerThread.State Unit Th}
    (hleave : s.run th = .outside ∨ s.run th = .leave) :
    ({ s with mThreadEngine := e }.turn th (s.mThreadEngine.task th)).run u = .inside ↔
      s.run u = .inside := by
  have hupdate (pt : RunPoint) (hpt : pt ≠ .inside) :
      Function.update s.run th pt u = .inside ↔ s.run u = .inside := by
    by_cases heq : u = th
    · rw [heq, Function.update_self]
      refine iff_of_false hpt fun hinside => ?_
      rw [hinside] at hleave
      simp at hleave
    · rw [Function.update_of_ne heq]
  unfold State.turn
  split
  · exact hupdate .test (by simp)
  · exact hupdate .outside (by simp)
  · exact Iff.rfl

/-- The steps of run() apart, nobody enters or leaves the callback. -/
theorem step_inside (hs : (machine K Th).Reachable Machine.anyStep s) {a : Action K Th}
    (hstep : step s a = some s') (ha : ∀ th, a ≠ .run th) :
    s'.run u = .inside ↔ s.run u = .inside := by
  cases step_moves hstep with
  | start | stop => exact Iff.rfl
  | resume hcall => rw [(callStep_moves hcall).run]
  | @run _ th _ => exact absurd rfl (ha th)
  | @engine a e hadmits he =>
    cases a with
    | call | lock | wakeup | expire => exact Iff.rfl
    | resume th answer =>
      obtain ⟨⟨p, hfits⟩, -⟩ := fits_and_waits_engine hs
      have hmoves := (orderly_reachable hs).resume_moves hfits hadmits he
      generalize s.observe { s with mThreadEngine := e } (.resume th answer) = s' at hmoves ⊢
      cases hmoves with
      | task hcall hec =>
        exact turn_run (by simpa [State.admits, hec] using hadmits)
      | goes | joined | created => exact Iff.rfl

end CWrapper.AsyncThread
