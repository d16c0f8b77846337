import CWrapper.AppSessions

/-!
What main() has done of start() and of stop() decides which of the two threads may be there, and
whether mEOS is set. While the worker thread is in run(), mEOS is not set.
-/
namespace CWrapper.App

open Transition SampleService

variable {Th : Type}

structure Sessions [DecidableEq Th] (runner : Th) (s : State Th) : Prop where
  starting : ∀ m, s.call = .call .start m ∨ s.call = .inside .start m → s.started = true
  thread : s.started = false ∨ s.call.mayRun = false → s.mThread.nobody
  joining : s.call = .inside .stop .mThread →
    WorkerThread.InStop (s.mThread.call runner) ∨ s.mThread.nobody
  service : s.started = false ∨ s.call.mayServe = false → s.noService
  opening : s.call = .inside .start .mService → s.noService ∨ s.isLate runner
  closing : s.call = .inside .stop .mService → s.noService ∨ s.isStopping runner
  stores : ∀ op, s.call = .inside op .mService →
    s.mService.call runner = .setEOS op ∧ s.mService.mMsgQ.thread runner = .setEOS op.eos ∨
      s.mService.mMsgQ.mEOS = op.eos
  opened : s.started = true → s.call.isOpen = true → s.mService.mMsgQ.mEOS = false

variable [DecidableEq Th] {runner : Th} {capacity : ℕ+} {s s' : State Th} {th u : Th}

section Clauses

theorem Call.mayRun_of_inside {op : Operation} {m : Member}
    (hnot : (Call.inside op m).mayRun = false) : (Call.call op m).mayRun = false := by
  cases op <;> cases m <;> first | rfl | cases hnot

theorem Call.mayServe_of_inside {op : Operation} {m : Member}
    (hnot : (Call.inside op m).mayServe = false) : (Call.call op m).mayServe = false := by
  cases op <;> cases m <;> first | rfl | cases hnot

/-- start() of main() stores mStarted before it calls a member. -/
theorem Sessions.starting_step (hi : Sessions runner s) (hm : Moves runner capacity s s')
    (m : Member) (hcall : s'.call = .call .start m ∨ s'.call = .inside .start m) :
    s'.started = true := by
  cases hm.turn with
  | stay hsame hstarted =>
    rw [hsame] at hcall
    rw [hstarted]
    exact hi.starting m hcall
  | start _ _ _ hstarted => exact hstarted
  | stop _ hcall' =>
    rw [hcall'] at hcall
    obtain hcall | hcall := hcall <;> cases hcall
  | @enter op m' hcall₀ hcall' hstarted =>
    rw [hcall'] at hcall
    obtain hcall | hcall := hcall
    · cases hcall
    · cases hcall
      rw [hstarted]
      exact hi.starting m (Or.inl hcall₀)
  | @«return» op m' hcall₀ _ hs' =>
    rw [hs'] at hcall ⊢
    cases op with
    | start =>
      have hstarted := hi.starting m' (Or.inr hcall₀)
      cases m' <;> exact hstarted
    | stop => cases m' <;> simp [State.leave, State.goto, after] at hcall

/-- No thread is in taskEntry of mThread where main() has not started it, or has stopped it. -/
theorem Sessions.thread_step (hi : Sessions runner s) (h : Consistent runner s)
    (hm : Moves runner capacity s s') (hnot : s'.started = false ∨ s'.call.mayRun = false) :
    s'.mThread.nobody := by
  have hkept (hcall : s.call ≠ .inside .start .mThread) (hnobody : s.mThread.nobody) :
      s'.mThread.nobody := fun u => thread_kept h hm hcall (hnobody u)
  cases hm.turn with
  | stay hsame hstarted =>
    rw [hsame, hstarted] at hnot
    refine hkept ?_ (hi.thread hnot)
    intro hcall
    rw [hi.starting _ (Or.inr hcall), hcall] at hnot
    simp [Call.mayRun] at hnot
  | start hcall hstarted => exact hkept (by simp [hcall]) (hi.thread (Or.inl hstarted))
  | stop hcall hcall' hstarted =>
    rw [hcall', hstarted] at hnot
    exact hkept (by simp [hcall]) (hi.thread (Or.inl (by simpa [Call.mayRun] using hnot)))
  | @enter op m hcall hcall' hstarted =>
    rw [hcall', hstarted] at hnot
    exact hkept (by simp [hcall])
      (hi.thread (hnot.imp_right fun hrun => hcall ▸ Call.mayRun_of_inside hrun))
  | @«return» op m hcall hreturned hs' =>
    have hnobody : s.mThread.nobody := by
      rw [hs'] at hnot
      cases m with
      | mTimer | mService => exact hi.thread (Or.inr (by cases op <;> simp [hcall, Call.mayRun]))
      | mThread =>
        cases op with
        | start =>
          have hstarted := hi.starting _ (Or.inr hcall)
          simp [State.leave, State.goto, after, Call.mayRun, hstarted] at hnot
        | stop =>
          have hnone : (s.mThread.call runner).isNone = true := hreturned
          obtain hstop | hnobody := hi.joining hcall
          · rw [hstop.isNone] at hnone
            cases hnone
          · exact hnobody
    obtain ⟨c, started, hleave, -⟩ := leave_fields s op m
    rw [hs', hleave]
    exact hnobody

/-- While stop() of mThread is in progress, main() is at one of its points, unless the worker thread
is gone. -/
theorem Sessions.joining_step (hi : Sessions runner s) (h : Consistent runner s)
    (hm : Moves runner capacity s s')
    (hs : (WorkerThread.machine Unit Th).Reachable Machine.anyStep s.mThread)
    (hcall : s'.call = .inside .stop .mThread) :
    WorkerThread.InStop (s'.mThread.call runner) ∨ s'.mThread.nobody := by
  cases hm.turn with
  | stay hsame =>
    rw [hsame] at hcall
    have hkept (hnobody : s.mThread.nobody) : s'.mThread.nobody :=
      fun u => thread_kept h hm (by simp [hcall]) (hnobody u)
    obtain hstop | hnobody := hi.joining hcall
    · exact (inStop_kept h hm hs hcall hstop).imp_right hkept
    · exact Or.inr (hkept hnobody)
  | start _ _ hcall' | stop _ hcall' =>
    rw [hcall'] at hcall
    cases hcall
  | enter _ hcall' _ hthread =>
    rw [hcall'] at hcall
    cases hcall
    rw [hthread rfl]
    exact Or.inl .isCurrentThread
  | @«return» op m _ _ hs' =>
    obtain ⟨c, started, hleave, hnot⟩ := leave_fields s op m
    rw [hs', hleave] at hcall
    exact absurd hcall (hnot _ _)

/-- No thread is in taskEntry of mService where main() has not started it, or has stopped it. -/
theorem Sessions.service_step (hi : Sessions runner s) (h : Consistent runner s)
    (hm : Moves runner capacity s s')
    (hs : (SampleService.machine Th).Reachable Machine.anyStep s.mService)
    (hnot : s'.started = false ∨ s'.call.mayServe = false) : s'.noService := by
  have hkept := hm.service_moves.noService h hs
  cases hm.turn with
  | stay hsame hstarted =>
    rw [hsame, hstarted] at hnot
    refine hkept ?_ (hi.service hnot)
    intro hcall
    rw [hi.starting _ (Or.inr hcall), hcall] at hnot
    simp [Call.mayServe] at hnot
  | start hcall hstarted => exact hkept (by simp [hcall]) (hi.service (Or.inl hstarted))
  | stop hcall hcall' hstarted =>
    rw [hcall', hstarted] at hnot
    exact hkept (by simp [hcall])
      (hi.service (Or.inl (by simpa [Call.mayServe, Call.isOpen] using hnot)))
  | @enter op m hcall hcall' hstarted =>
    rw [hcall', hstarted] at hnot
    exact hkept (by simp [hcall])
      (hi.service (hnot.imp_right fun hserve => hcall ▸ Call.mayServe_of_inside hserve))
  | @«return» op m hcall hreturned hs' =>
    have hnone : s.noService := by
      rw [hs'] at hnot
      cases m with
      | mTimer =>
        exact hi.service (Or.inr (by cases op <;> simp [hcall, Call.mayServe, Call.isOpen]))
      | mThread =>
        refine hi.service (Or.inl ?_)
        cases op <;>
          simpa [State.leave, State.goto, after, Call.mayServe, Call.isOpen] using hnot
      | mService =>
        cases op with
        | start =>
          have hstarted := hi.starting _ (Or.inr hcall)
          simp [State.leave, State.goto, after, Call.mayServe, Call.isOpen, hstarted] at hnot
        | stop =>
          have hnone : s.mService.call runner = .none := of_decide_eq_true hreturned
          obtain hnone' | hstopping := hi.closing hcall
          · exact hnone'
          · rw [State.isStopping, hnone] at hstopping
            simp at hstopping
    obtain ⟨c, started, hleave, -⟩ := leave_fields s op m
    rw [hs', hleave]
    exact hnone

/-- While start() of mService is in progress, nobody is in taskEntry before it has called
mThread.start(). -/
theorem Sessions.opening_step (hi : Sessions runner s) (h : Consistent runner s)
    (hm : Moves runner capacity s s')
    (hs : (SampleService.machine Th).Reachable Machine.anyStep s.mService)
    (hcall : s'.call = .inside .start .mService) : s'.noService ∨ s'.isLate runner := by
  have hmoves := hm.service_moves
  cases hm.turn with
  | stay hsame =>
    rw [hsame] at hcall
    obtain hnone | hlate := hi.opening hcall
    · -- the thread that is created is created in a call of mThread.start()
      by_cases hnone' : s'.noService
      · exact Or.inl hnone'
      obtain ⟨u, hu⟩ := not_forall.mp hnone'
      obtain hu' | ⟨-, -, callback, hthread, hstarting⟩ := hmoves.kept h hs (hnone u)
      · exact absurd hu' hu
      · exact Or.inr (Or.inr ⟨hthread, Or.inl (by rw [hstarting]; rfl)⟩)
    · exact Or.inr (hmoves.isLate h hs hcall hlate)
  | start _ _ hcall' | stop _ hcall' =>
    rw [hcall'] at hcall
    cases hcall
  | enter hcall₀ hcall' =>
    rw [hcall'] at hcall
    cases hcall
    exact Or.inl (hmoves.noService h hs (by simp [hcall₀])
      (hi.service (Or.inr (by simp [hcall₀, Call.mayServe, Call.isOpen]))))
  | @«return» op m _ _ hs' =>
    obtain ⟨c, started, hleave, hnot⟩ := leave_fields s op m
    rw [hs', hleave] at hcall
    exact absurd hcall (hnot _ _)

/-- Once stop() of mService has returned from mThread.stop(), nobody is in taskEntry. -/
theorem Sessions.closing_step (hi : Sessions runner s) (h : Consistent runner s)
    (hm : Moves runner capacity s s')
    (hs : (SampleService.machine Th).Reachable Machine.anyStep s.mService)
    (hcall : s'.call = .inside .stop .mService) : s'.noService ∨ s'.isStopping runner := by
  have hmoves := hm.service_moves
  cases hm.turn with
  | stay hsame =>
    rw [hsame] at hcall
    obtain hnone | hstopping := hi.closing hcall
    · exact Or.inl (hmoves.noService h hs (by simp [hcall]) hnone)
    · exact hmoves.isStopping h hs hcall hstopping
  | start _ _ hcall' | stop _ hcall' =>
    rw [hcall'] at hcall
    cases hcall
  | enter _ hcall' _ _ hservice =>
    rw [hcall'] at hcall
    cases hcall
    exact Or.inr (Or.inl (hservice rfl).1)
  | @«return» op m _ _ hs' =>
    obtain ⟨c, started, hleave, hnot⟩ := leave_fields s op m
    rw [hs', hleave] at hcall
    exact absurd hcall (hnot _ _)

theorem Sessions.stores_step (hi : Sessions runner s) (h : Consistent runner s)
    (hm : Moves runner capacity s s')
    (hs : (SampleService.machine Th).Reachable Machine.anyStep s.mService) (op : Operation)
    (hcall : s'.call = .inside op .mService) :
    s'.mService.call runner = .setEOS op ∧ s'.mService.mMsgQ.thread runner = .setEOS op.eos ∨
      s'.mService.mMsgQ.mEOS = op.eos := by
  have hmoves := hm.service_moves
  cases hm.turn with
  | stay hsame =>
    rw [hsame] at hcall
    obtain ⟨heos, hthread⟩ | ⟨op', hcall', heos⟩ := hmoves.eos h hs
    · obtain ⟨hstoring, hpoint⟩ | hstored := hi.stores op hcall
      · refine Or.inl ⟨?_, hthread runner _ hpoint⟩
        obtain hsame | ⟨-, ⟨op', hthread⟩, -⟩ | ⟨op', -, -, hidle, -⟩ := hmoves.call h hcall
        · rw [hsame, hstoring]
        · rw [hstoring] at hthread
          cases hthread
        · rw [hpoint] at hidle
          cases hidle
      · exact Or.inr (heos.trans hstored)
    · rw [hcall] at hcall'
      cases hcall'
      exact Or.inr heos
  | start _ _ hcall' | stop _ hcall' =>
    rw [hcall'] at hcall
    cases hcall
  | enter _ hcall' _ _ hservice =>
    rw [hcall'] at hcall
    cases hcall
    exact Or.inl (hservice rfl)
  | @«return» op m _ _ hs' =>
    obtain ⟨c, started, hleave, hnot⟩ := leave_fields s op m
    rw [hs', hleave] at hcall
    exact absurd hcall (hnot _ _)

/-- Between start() and stop() of mService the queue takes messages. -/
theorem Sessions.opened_step (hi : Sessions runner s) (h : Consistent runner s)
    (hm : Moves runner capacity s s')
    (hs : (SampleService.machine Th).Reachable Machine.anyStep s.mService)
    (hstarted' : s'.started = true) (hopen : s'.call.isOpen = true) :
    s'.mService.mMsgQ.mEOS = false := by
  have hkept (hstarted : s.started = true) (hopen : s.call.isOpen = true) :
      s'.mService.mMsgQ.mEOS = false := by
    obtain ⟨heos, -⟩ | ⟨op, hcall, -⟩ := hm.service_moves.eos h hs
    · exact heos.trans (hi.opened hstarted hopen)
    · rw [hcall] at hopen
      cases op <;> cases hopen
  cases hm.turn with
  | stay hsame hstarted => exact hkept (hstarted ▸ hstarted') (hsame ▸ hopen)
  | start _ _ hcall' =>
    rw [hcall'] at hopen
    cases hopen
  | stop hcall _ hstarted => exact hkept (hstarted ▸ hstarted') (by simp [hcall, Call.isOpen])
  | @enter op m hcall hcall' hstarted =>
    refine hkept (hstarted ▸ hstarted') ?_
    rw [hcall'] at hopen
    rw [hcall]
    cases op <;> cases m <;> first | rfl | cases hopen
  | @«return» op m hcall hreturned hs' =>
    cases m with
    | mTimer =>
      rw [hs'] at hstarted' hopen
      cases op with
      | start => cases hopen
      | stop => cases hstarted'
    | mThread =>
      refine hkept ?_ (by cases op <;> simp [hcall, Call.isOpen])
      rw [hs'] at hstarted'
      cases op <;> exact hstarted'
    | mService =>
      rw [hs'] at hopen
      cases op with
      | start =>
        have hnone : s.mService.call runner = .none := of_decide_eq_true hreturned
        obtain ⟨hstoring, -⟩ | heos := hi.stores .start hcall
        · rw [hnone] at hstoring
          cases hstoring
        · rw [hs']
          exact heos
      | stop => cases hopen

/-- Each clause is kept by a lemma of its own. -/
theorem Sessions.step (hi : Sessions runner s) (h : Consistent runner s)
    (hthread : (WorkerThread.machine Unit Th).Reachable Machine.anyStep s.mThread)
    (hservice : (SampleService.machine Th).Reachable Machine.anyStep s.mService)
    (hm : Moves runner capacity s s') : Sessions runner s' where
  starting := hi.starting_step hm
  thread := hi.thread_step h hm
  joining := hi.joining_step h hm hthread
  service := hi.service_step h hm hservice
  opening := hi.opening_step h hm hservice
  closing := hi.closing_step h hm hservice
  stores := hi.stores_step h hm hservice
  opened := hi.opened_step h hm hservice

/-- The members have threads only between the start() and the stop() that main() has made of them.
-/
theorem sessions_reachable (hs : (machine runner capacity).Reachable Machine.anyStep s) :
    Sessions runner s := by
  refine Machine.Invariant.reachable (I := Sessions runner)
    (J := (machine runner capacity).Reachable Machine.anyStep) ⟨?_, ?_⟩ (fun s hs => hs) hs
  · intro s hinit
    obtain ⟨now, -, rfl⟩ := hinit
    refine ⟨fun m hcall => ?_, fun _ _ => rfl, fun hcall => ?_, fun _ _ => rfl, fun hcall => ?_,
      fun hcall => ?_, fun op hcall => ?_, fun hstarted => ?_⟩
    · obtain hcall | hcall := hcall <;> cases hcall
    · cases hcall
    · cases hcall
    · cases hcall
    · cases hcall
    · cases hstarted
  · intro s a s' _ hs hstep hi
    exact hi.step (consistent_reachable hs) (thread_part.reachable hs) (service_part.reachable hs)
      (step_moves hstep)

end Clauses

end CWrapper.App
