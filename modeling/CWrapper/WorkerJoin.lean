import CWrapper.WorkerDeadlock
import CWrapper.WorkerMoves

/-!
The threads that come to be in taskEntry and that leave it, as the objects see them that use a
WorkerThread: start() makes them, and when stop() comes to its end there is none.
-/
namespace CWrapper.WorkerThread

open Transition

variable {W Th : Type} [DecidableEq Th] {s s' : State W Th} {th u : Th} {a : Action W Th}

section Created

/-- A thread that comes to be in taskEntry is made by a step of pthread_create. -/
theorem step_created
    (hreaches : ∀ th, s.call th = .none ∨ ∃ e : Entry W, e.reaches (s.call th) = true)
    (hstep : step s a = some s') (hu : s.task u = .none) (hu' : s'.task u ≠ .none) :
    ∃ th w, a = .resume th (.thread u) ∧ s.call th = .start w (.prepare .create) := by
  obtain hnone | ⟨th, rfl⟩ := step_task hstep hu
  · exact absurd hnone hu'
  obtain ⟨-, -, hne, t, htask⟩ | ⟨hne, -⟩ := resume_cases hstep
  · have hother : u ≠ th := by
      intro heq
      exact hne (heq ▸ hu)
    rw [htask, Function.update_of_ne hother] at hu'
    exact absurd hu hu'
  · have hisNone : (s.call th).isNone = false := by
      rw [← Bool.not_eq_true, isNone_iff]
      exact hne
    obtain ⟨e, he⟩ := (hreaches th).resolve_left hne
    obtain ⟨lock, hdoes⟩ := callDoes_of_resume hstep hisNone
    obtain ⟨-, hframe⟩ := CallDoes.next (s := { s with mStateLock := lock }) rfl he hdoes
    cases hframe with
    | same htask =>
      rw [htask] at hu'
      exact absurd hu hu'
    | @joined id _ htask =>
      rw [htask] at hu'
      by_cases heq : u = id
      · rw [heq, Function.update_self] at hu'
        exact absurd rfl hu'
      · rw [Function.update_of_ne heq] at hu'
        exact absurd hu hu'
    | created hcreates =>
      obtain ⟨⟨w, hpoint⟩, -⟩ := creates_eq_some hcreates
      exact ⟨th, w, rfl, hpoint⟩

end Created

section Join

variable [DecidableEq W] {p : Phase W Th}

/-- No thread joins itself. -/
theorem joins_other (hs : (machine W Th).Reachable Machine.anyStep s) {op : Operation W} {id : Th}
    (hcall : s.call th = .joinLocked op (.pthreadJoin (some id)))
    (hid : id = th ∨ (s.task id).isNone = true) : (s.task id).isNone = true := by
  obtain rfl | hnone := hid
  · obtain hnone | htask | ⟨-, hrun⟩ := calls_reachable hs id
    · rw [hcall] at hnone
      cases hnone
    · rw [htask]
      rfl
    · rw [hcall] at hrun
      cases hrun
  · exact hnone

/-- pthread_join of the worker thread succeeds. -/
theorem join_yes (hfits : Fits s p) {op : Operation W} {threadId : Option Th}
    (hcall : s.call th = .joinLocked op (.pthreadJoin threadId)) {answer : Answer Th}
    (hok : s.joinSucceeds (.resume th answer) = true) : answer ≠ .no := by
  intro hno
  have hjoin := hfits.agrees.joining th threadId (by rw [hcall]; rfl)
  obtain rfl | ⟨w, t, r, stop, rfl⟩ :=
    hfits.idle_or_live th (by rw [hcall]; rfl) (by rw [hcall]; rfl)
  · cases hjoin
  · obtain rfl : some t = threadId := Option.some.inj hjoin
    have hlive : (s.task t).isNone = false := by
      rw [hfits.task]
      obtain ⟨-, -, hr | hr | hr | hr | hr⟩ := hfits.handshake <;>
      simp [Phase.task, hr, Task.isNone]
    rw [hno] at hok
    simp only [State.joinSucceeds, hcall, hlive] at hok
    cases hok

/-- A thread that is in stop() from outside taskEntry stays there, or nobody is in taskEntry. -/
theorem inStop_step (hs : (machine W Th).Reachable Machine.anyStep s)
    (hok : s.joinSucceeds a = true) (hstep : step s a = some s') (hstop : InStop (s.call th))
    (hout : s.task th = .none) : InStop (s'.call th) ∨ s.nobody := by
  obtain ⟨⟨p, hfits⟩, hwaits⟩ := fits_and_waits hs
  have hne : s.call th ≠ .none := by
    intro hnone
    rw [hnone] at hstop
    cases hstop
  have hmoves := step_moves hstep
  cases a with
  | call u entry =>
    cases hmoves with
    | call hnone _ =>
    have hother : th ≠ u := by
      intro heq
      rw [heq] at hne
      exact hne hnone
    exact Or.inl (by simpa only [State.goto, Function.update_of_ne hother] using hstop)
  | lock u | wakeup u =>
    cases hmoves
    exact Or.inl hstop
  | expire u =>
    cases hmoves with
    | expire hasleep =>
    have hother : th ≠ u := by
      intro heq
      rw [heq, (hwaits.sleep u hasleep).1] at hstop
      cases hstop
    exact Or.inl (by simpa only [State.goto, Function.update_of_ne hother] using hstop)
  | resume u answer =>
    by_cases hu : th = u
    · subst hu
      cases hfits.stop_moves hstop hout (fun _ hcall => join_yes hfits hcall hok) hstep with
      | goOn hgoes hc =>
        rw [hgoes.call, Function.update_self]
        exact Or.inl hc
      | joined hc _ hcall _ =>
        rw [hcall, Function.update_self]
        exact Or.inl hc
      | finish _ hnobody => exact Or.inr hnobody
    · obtain ⟨-, hcall, -⟩ | ⟨-, hlocal⟩ := resume_cases hstep
      · rw [hcall]
        exact Or.inl hstop
      · rw [hlocal.call th hu]
        exact Or.inl hstop

end Join

end CWrapper.WorkerThread
