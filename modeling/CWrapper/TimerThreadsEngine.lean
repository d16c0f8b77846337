import CWrapper.TimerThreadsSteps

/-!
What the steps of mThread do with the threads of a TimerThread: the worker thread enters and leaves
run(), and a thread goes on in the function of mThread that it has called.
-/
namespace CWrapper.TimerThreads

open Transition WorkerThread

variable {H Th : Type} [DecidableEq Th] {s s' : State H Th} {th : Th} {r : RunPoint H}
  {e : WorkerThread.State Unit Th}

/-- The worker thread goes on in taskEntry, enters run() or has left it. -/
theorem Consistent.taskStep (h : Consistent s) (hnone : s.mThread.call th = .none)
    {answer : Answer Th} (hadmits : s.admits (.resume th answer) = true)
    (hstep : WorkerThread.step s.mThread (.resume th answer) = some e) :
    Consistent (s.follow { s with mThread := e } (.resume th answer)) := by
  have hrun : s.run th = .outside ∨ s.run th = .leave := by
    cases hr : s.run th <;> simp [State.admits, hnone, hr] at hadmits ⊢
  obtain ⟨lock, hdoes⟩ := taskDoes_of_resume hstep hnone
  obtain ⟨hcalls, hne, t, htasks⟩ :=
    TaskDoes.next (s := { s.mThread with mStateLock := lock }) rfl hdoes
  have henters : t = .run () ↔ ∃ w, s.mThread.task th = .released (some w) := by
    rw [← hdoes.enters, htasks, Function.update_self]
    exact ⟨fun ht => ⟨(), ht⟩, fun ⟨w, ht⟩ => ht⟩
  have hcall : s.call th = .none := by
    by_contra hc
    obtain htask | hin := h.outside th hc
    · exact hne htask
    · obtain hr | hr := hrun <;> rw [hr] at hin <;> cases hin
  have hfollow (r : RunPoint H) (hr : r.depth = 0) (hruns : r ≠ .outside ↔ t = .run ())
      (hmsleep : ∀ timeoutMs, r ≠ .msleep timeoutMs) :
      Consistent (State.gotoRun { s with mThread := e } th r) := by
    refine ⟨fun u => ?_, fun u => ?_, fun u => ?_, fun u => ?_, fun u => ?_⟩ <;>
      simp only [State.gotoRun, hcalls, htasks] <;> by_cases hu : u = th
    · subst hu
      rw [Function.update_self, h.held u, hr]
      obtain hr | hr := hrun <;> rw [hr] <;> rfl
    · rw [Function.update_of_ne hu]
      exact h.held u
    · rw [hu, Function.update_self, Function.update_self]
      exact hruns
    · rw [Function.update_of_ne hu, Function.update_of_ne hu]
      exact h.runs u
    · rw [hu]
      exact fun hc => absurd hcall hc
    · rw [Function.update_of_ne hu, Function.update_of_ne hu]
      exact h.outside u
    · rw [hu]
      exact Or.inl hnone
    · rw [Function.update_of_ne hu]
      exact h.engine u
    · rw [hu, Function.update_self]
      exact fun timeoutMs hr => absurd hr (hmsleep timeoutMs)
    · rw [Function.update_of_ne hu]
      exact h.sleeps u
  have hsame (hr : s.run th = .outside) (ht : t ≠ .run ()) :
      Consistent { s with mThread := e } := by
    have heq : State.gotoRun { s with mThread := e } th .outside = { s with mThread := e } := by
      simp only [State.gotoRun, ← hr, Function.update_eq_self]
    rw [← heq]
    exact hfollow .outside rfl (by simp [ht]) (by simp)
  have hleft (ht : s.mThread.task th ≠ .run ()) : s.run th = .outside := by
    by_contra hr
    exact ht ((h.runs th).mp hr)
  simp only [State.follow, hnone]
  cases htask : s.mThread.task th with
  | none => exact absurd htask hne
  | entry | await | exit | exited =>
    exact hsame (hleft (by simp [htask])) (by simp [henters, htask])
  | released worker =>
    cases worker with
    | none => exact hsame (hleft (by simp [htask])) (by simp [henters, htask])
    | some w => exact hfollow .test rfl (by simp [henters, htask]) (by simp)
  | run w => exact hfollow .outside rfl (by simp [henters, htask]) (by simp)

/-- A thread goes on in a function of mThread, in run() at the point `r`. -/
theorem Consistent.stay (h : Consistent s) {entry : Entry Unit}
    (hentry : (s.call th).engine r = some entry)
    (hnext : e.call th = .none ∨ entry.reaches (e.call th) = true)
    (hcalls : ∀ u, u ≠ th → e.call u = s.mThread.call u)
    (hruns : ∀ u, e.task u = .run () ↔ s.mThread.task u = .run ())
    (hout : ∀ u, s.call u ≠ .none → s.mThread.task u = .none → e.task u = .none)
    (hr : r = s.run th ∨ s.run th ≠ .outside ∧ r ≠ .outside ∧ (s.run th).inHandler = false ∧
      r.depth = (s.run th).depth) (hmsleep : ∀ timeoutMs, r ≠ .msleep timeoutMs) :
    Consistent (State.gotoRun { s with mThread := e } th r) := by
  have houter : r ≠ .outside ↔ s.run th ≠ .outside := by
    obtain rfl | ⟨hs, hr, -⟩ := hr
    · exact Iff.rfl
    · exact iff_of_true hr hs
  have hdepth : r.depth = (s.run th).depth := by
    obtain rfl | ⟨-, -, -, hd⟩ := hr
    · rfl
    · exact hd
  refine ⟨fun u => ?_, fun u => ?_, fun u hu => ?_, fun u => ?_, fun u => ?_⟩ <;>
    simp only [State.gotoRun] <;> by_cases heq : u = th
  · rw [heq, Function.update_self, hdepth]
    exact h.held th
  · rw [Function.update_of_ne heq]
    exact h.held u
  · rw [heq, Function.update_self, houter, hruns]
    exact h.runs th
  · rw [Function.update_of_ne heq, hruns]
    exact h.runs u
  · subst heq
    rw [Function.update_self]
    obtain htask | hin := h.outside u hu
    · exact Or.inl (hout u hu htask)
    · obtain rfl | ⟨-, -, hnot, -⟩ := hr
      · exact Or.inr hin
      · rw [hnot] at hin
        cases hin
  · rw [Function.update_of_ne heq]
    exact (h.outside u hu).imp_left (hout u hu)
  · rw [heq, Function.update_self]
    exact hnext.imp_right fun hreaches => ⟨entry, hentry, hreaches⟩
  · rw [Function.update_of_ne heq, hcalls u heq]
    exact h.engine u
  · rw [heq, Function.update_self]
    exact fun timeoutMs hr => absurd hr (hmsleep timeoutMs)
  · rw [Function.update_of_ne heq, hcalls u heq]
    exact h.sleeps u

theorem Consistent.engineCall (h : Consistent s) (hne : s.mThread.call th ≠ .none)
    {answer : Answer Th} (hadmits : s.admits (.resume th answer) = true)
    (hstep : WorkerThread.step s.mThread (.resume th answer) = some e) :
    Consistent (s.follow { s with mThread := e } (.resume th answer)) := by
  obtain hnone | ⟨entry, hentry, hreaches⟩ := h.engine th
  · exact absurd hnone hne
  have hisNone : (s.mThread.call th).isNone = false := by
    rw [← Bool.not_eq_true, isNone_iff]
    exact hne
  obtain ⟨lock, hdoes⟩ := callDoes_of_resume hstep hisNone
  obtain ⟨hnext, hframe⟩ :=
    CallDoes.next (s := { s.mThread with mStateLock := lock }) rfl hreaches hdoes
  have hlocal := hdoes.isLocal.call
  have htasks : (∀ u, e.task u = .run () ↔ s.mThread.task u = .run ()) ∧
      ∀ u, s.call u ≠ .none → s.mThread.task u = .none → e.task u = .none := by
    cases hframe with
    | same htask =>
      rw [htask]
      exact ⟨fun _ => Iff.rfl, fun _ _ hu => hu⟩
    | @joined id hexited htask =>
      have hexited : s.mThread.task id = .exited := hexited
      rw [htask]
      refine ⟨fun u => ?_, fun u _ hu => ?_⟩ <;> by_cases heq : u = id
      · simp [heq, hexited]
      · rw [Function.update_of_ne heq]
      · rw [heq, Function.update_self]
      · rw [Function.update_of_ne heq]
        exact hu
    | @created id hcreates hnone htask =>
      have hnone : s.mThread.task id = .none := hnone.2
      rw [htask]
      refine ⟨fun u => ?_, fun u hc hu => ?_⟩ <;> by_cases heq : u = id
      · simp [heq, hnone]
      · rw [Function.update_of_ne heq]
      · -- pthread_create makes a thread that is in no function
        obtain ⟨⟨w, hpoint⟩, rfl⟩ := creates_eq_some hcreates
        have hpoint : s.mThread.call th = .start w (.prepare .create) := hpoint
        simp only [State.admits, hpoint] at hadmits
        rw [heq, eq_none_of_isNone hadmits] at hc
        exact absurd rfl hc
      · rw [Function.update_of_ne heq]
        exact hu
  by_cases hmsleep : ∃ timeoutMs, s.run th = .msleep timeoutMs
  · obtain ⟨timeoutMs, hr⟩ := hmsleep
    have hcall : s.call th = .none := h.call_none (by rw [hr]; simp) (by rw [hr]; rfl)
    rw [hcall, hr] at hentry
    have hwait := h.stay (r := .wait (s.now + timeoutMs.toNat)) (by rw [hcall]; exact hentry) hnext
      hlocal htasks.1 htasks.2 (Or.inr (by rw [hr]; exact ⟨by simp, by simp, rfl, rfl⟩)) (by simp)
    simpa only [State.follow, h.sleeps th timeoutMs hr, hr] using hwait
  · have hstay := h.stay hentry hnext hlocal htasks.1 htasks.2 (Or.inl rfl)
      (fun timeoutMs hr => hmsleep ⟨timeoutMs, hr⟩)
    simp only [State.gotoRun, Function.update_eq_self] at hstay
    simp only [State.follow]
    split
    · rename_i heq _
      exact absurd heq hne
    · rename_i heq _
      exact absurd heq hne
    · rename_i hr
      exact absurd ⟨_, hr⟩ hmsleep
    · exact hstay

end CWrapper.TimerThreads
