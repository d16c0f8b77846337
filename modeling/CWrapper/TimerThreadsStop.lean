import CWrapper.TimerThreadsDeadlock

/-!
The end of a session of a TimerThread. mThread.stop(), which start(), restart() and stop() call,
returns when nobody is in taskEntry; and while mThread.start() is not called, nobody comes there.
-/
namespace CWrapper.TimerThreads

open Transition WorkerThread

variable {H Th : Type} [DecidableEq Th] {s s' : State H Th} {th u : Th} {a : Action H Th}
  {op : Operation H}

def Call.isStarting : Call H → Bool
  | .starting => true
  | _ => false

/-- The step is not one that its thread takes in mThread.start(). -/
def noStart (s : State H Th) : Action H Th → Prop
  | .engine (.resume th _) => (s.call th).isStarting = false
  | _ => True

instance (s : State H Th) : (a : Action H Th) → Decidable (noStart s a)
  | .engine (.resume th _) => inferInstanceAs (Decidable ((s.call th).isStarting = false))
  | .engine (.call _ _) | .engine (.lock _) | .engine (.wakeup _) | .engine (.expire _)
  | .tick _ | .enter _ _ | .resume _ | .run _ _ => isTrue trivial

/-- The thread is in mThread.stop() from outside run(), or nobody is in taskEntry. -/
def Ending (s : State H Th) (th : Th) : Prop :=
  s.mThread.task th = .none ∧
      ((∃ op, s.call th = .callStop op) ∨
        (∃ op, s.call th = .stopping op) ∧ InStop (s.mThread.call th)) ∨
    s.mThread.nobody

section Engine

/-- Nobody is created outside mThread.start(). -/
theorem task_kept (hcons : Consistent s) (hno : noStart s a) (hstep : step s a = some s')
    (hu : s.mThread.task u = .none) : s'.mThread.task u = .none := by
  obtain hsame | ⟨b, hmade, hb⟩ := step_engine hstep
  · rw [hsame, hu]
  · by_contra hu'
    have hreaches (t : Th) : s.mThread.call t = .none ∨
        ∃ entry : Entry Unit, entry.reaches (s.mThread.call t) = true :=
      (hcons.engine t).imp_right fun ⟨entry, _, hreaches⟩ => ⟨entry, hreaches⟩
    obtain ⟨t, w, rfl, hpoint⟩ := WorkerThread.step_created hreaches hb hu hu'
    obtain ⟨rfl, -⟩ | ⟨_, _, heq⟩ := hmade
    · obtain hnone | ⟨entry, hentry, hreaches⟩ := hcons.engine t
      · rw [hpoint] at hnone
        cases hnone
      · rw [hpoint] at hreaches
        obtain rfl : entry = .start () := by
          cases entry <;> first | rfl | cases hreaches
        have hfalse : (s.call t).isStarting = false := hno
        rw [starting_of_engine hentry] at hfalse
        cases hfalse
    · cases heq

end Engine

section Ending

theorem nobody_kept (hcons : Consistent s) (hno : noStart s a)
    (hstep : step s a = some s') (hnobody : s.mThread.nobody) : s'.mThread.nobody := by
  intro u
  exact task_kept hcons hno hstep (hnobody u)

/-- A thread stays in its function while another one takes a step, or mThread. -/
theorem call_kept (hstep : step s a = some s') (hother : a ≠ .resume th)
    (hcall : s.call th ≠ .none) : s'.call th = s.call th := by
  cases step_moves hstep with
  | tick => rfl
  | @enter u op hmay =>
    refine Function.update_of_ne (fun heq => ?_) ..
    simp only [State.mayCall, Bool.and_eq_true] at hmay
    rw [← heq] at hmay
    exact hcall (eq_none_of_isNone hmay.1.1)
  | @resume _ u hsteps =>
    have hne : th ≠ u := fun heq => hother (by rw [heq])
    obtain ⟨c, hc⟩ := callStep_call hsteps
    rw [hc, Function.update_of_ne hne]
  | run answer hsteps => rw [runStep_call hsteps]
  | engine => rw [follow_call]

/-- As long as no thread takes a step in mThread.start(), stop() goes on to find nobody in
taskEntry. -/
theorem Ending.step (h : Ending s th) (hs : (machine H Th).Reachable Machine.anyStep s)
    (hno : noStart s a) (hstep : TimerThreads.step s a = some s') :
    Ending s' th := by
  have hcons := consistent_reachable hs
  have hkept (hnobody : s.mThread.nobody) : Ending s' th :=
    Or.inr (nobody_kept hcons hno hstep hnobody)
  obtain ⟨hout, hin⟩ | hnobody := h
  · have hout' : s'.mThread.task th = .none := task_kept hcons hno hstep hout
    obtain ⟨op, hcall⟩ | ⟨⟨op, hcall⟩, hstop⟩ := hin
    · by_cases ha : a = .resume th
      · subst ha
        have hsteps := callStep_does hstep
        rw [hcall] at hsteps
        cases hsteps with
        | callStop op he =>
        cases WorkerThread.step_moves he
        refine Or.inl ⟨hout', Or.inr ⟨⟨op, Function.update_self ..⟩, ?_⟩⟩
        show InStop (Function.update s.mThread.call th (.isCurrentThread .stop) th)
        rw [Function.update_self]
        exact .isCurrentThread
      · have hsame := call_kept hstep ha (by rw [hcall]; simp)
        exact Or.inl ⟨hout', Or.inl ⟨op, hsame.trans hcall⟩⟩
    · have ha : a ≠ .resume th := by
        intro ha
        rw [ha] at hstep
        have hsteps := callStep_does hstep
        rw [hcall] at hsteps
        cases hsteps with
        | stopped op hnone =>
        rw [← isNone_iff, hstop.isNone] at hnone
        cases hnone
      have hsame := call_kept hstep ha (by rw [hcall]; simp)
      have hstopped (hstop' : InStop (s'.mThread.call th)) : Ending s' th :=
        Or.inl ⟨hout', Or.inr ⟨⟨op, hsame.trans hcall⟩, hstop'⟩⟩
      obtain heq | ⟨b, hadmits, hb⟩ := step_engine hstep
      · exact hstopped (by rw [heq]; exact hstop)
      · have hok : s.mThread.joinSucceeds b = true := by
          obtain ⟨-, hadmits⟩ | ⟨t, entry, rfl⟩ := hadmits
          · exact joinSucceeds_of_admits hs hadmits
          · rfl
        obtain hstop' | hnobody := inStop_step (engine_part.reachable hs) hok hb hstop hout
        · exact hstopped hstop'
        · exact hkept hnobody
  · exact hkept hnobody

/-- When a call of mThread.stop() that TimerThread has made outside run() has returned and no thread
has taken a step in mThread.start() meanwhile, nobody is in run(); and nobody comes there before the
next such step. -/
theorem no_callback_after_stop (hs : (machine H Th).Reachable Machine.anyStep s)
    (hcall : s.call th = .callStop op) (hout : s.run th = .outside) {as : List (Action H Th)}
    (hpath : (machine H Th).Path noStart s as s')
    (hdone : ∀ op, s'.call th ≠ .callStop op ∧ s'.call th ≠ .stopping op) :
    ∀ bs s'', (machine H Th).Path noStart s' bs s'' → ∀ u, s''.run u = .outside := by
  have hending : (machine H Th).Reachable Machine.anyStep s ∧ Ending s th := by
    refine ⟨hs, Or.inl ⟨?_, Or.inl ⟨op, hcall⟩⟩⟩
    obtain htask | hin := (consistent_reachable hs).outside th (by rw [hcall]; simp)
    · exact htask
    · rw [hout] at hin
      cases hin
  obtain ⟨hs', hending'⟩ := hpath.keeps (I := fun s =>
    (machine H Th).Reachable Machine.anyStep s ∧ Ending s th)
    (fun s a s' hok hstep h => ⟨h.1.step trivial hstep, h.2.step h.1 hok hstep⟩)
    hending
  have hnobody : s'.mThread.nobody := by
    obtain ⟨-, ⟨op, hcall⟩ | ⟨⟨op, hcall⟩, -⟩⟩ | hnobody := hending'
    · exact absurd hcall (hdone op).1
    · exact absurd hcall (hdone op).2
    · exact hnobody
  intro bs s'' hpath' u
  obtain ⟨hs'', hnobody''⟩ := hpath'.keeps (I := fun s =>
    (machine H Th).Reachable Machine.anyStep s ∧ s.mThread.nobody)
    (fun s a s' hok hstep h => ⟨h.1.step trivial hstep,
      nobody_kept (consistent_reachable h.1) hok hstep h.2⟩) ⟨hs', hnobody⟩
  by_contra hrun
  have htask := ((consistent_reachable hs'').runs u).mp hrun
  rw [hnobody'' u] at htask
  cases htask

def stopping : State Unit Bool :=
  (machine Unit Bool).after Machine.anyStep expired [.enter false .stop]

/-- `false`, in stop(), joins the worker thread, whose handler returns. -/
def stopActions : List (Action Unit Bool) :=
  inFunction 1 false ++ inEngineLock false ++ inEngine 1 false ++ inEngineLock false ++
    inEngine 2 false ++ inEngineLock false ++ inEngine 1 false ++ inEngineLock false ++ inRun 3 ++
    inEngine 1 true ++ inEngineLock true ++ inEngine 1 false ++ inEngineLock false ++
    inEngine 2 false ++ inEngineLock false ++ inEngine 1 false ++ inFunction 1 false

def stopped : State Unit Bool := (machine Unit Bool).after noStart stopping stopActions

theorem no_callback_after_stop_stopped :
    (stopping.run true).inHandler = true ∧ (stopped.call false).isNone = true ∧
      ∀ bs s'', (machine Unit Bool).Path noStart stopped bs s'' → ∀ u, s''.run u = .outside := by
  have hs : (machine Unit Bool).Reachable Machine.anyStep stopping :=
    expired_reachable.path (Machine.path_after (by decide +kernel))
  have hpath : (machine Unit Bool).Path noStart stopping stopActions stopped :=
    Machine.path_after (by decide +kernel)
  have hreturned : stopped.call false = .none := eq_none_of_isNone (by decide +kernel)
  have hcall : stopping.call false = .callStop .stop := rfl
  exact ⟨by decide +kernel, by decide +kernel,
    no_callback_after_stop hs hcall rfl hpath (by simp [hreturned])⟩

end Ending

end CWrapper.TimerThreads
