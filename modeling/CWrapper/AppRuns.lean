import CWrapper.AppThreads

/-!
The steps of the members keep the threads of the program where main() and run() have put them.
-/
namespace CWrapper.App

open Transition SampleService

variable {Th : Type} [DecidableEq Th] {runner : Th} {capacity : ℕ+} {s s' : State Th} {th u : Th}
  {t : WorkerThread.State Unit Th} {answer : WorkerThread.Answer Th}

section Thread

theorem follow_task (s' : State Th) (hnone : s.mThread.call th = .none)
    (hnone' : s'.mThread.call th = .none) :
    s.follow s' (.resume th answer) =
      match s.mThread.task th with
      | .released (some _) => s'.gotoRun th (.shouldRun 0)
      | .run _ => s'.gotoRun th .outside
      | _ => s' := by
  simp only [State.follow]
  split
  · rename_i heq
    rw [heq]
  · rename_i heq
    rw [heq]
  · rename_i hreleased hrun
    split
    · rename_i heq
      rw [hnone'] at heq
      cases heq
    split
    · rename_i heq
      exact absurd heq (hreleased _ hnone)
    · rename_i heq
      exact absurd heq (hrun _ hnone)
    · rfl

/-- The worker thread goes on in taskEntry, enters run() or has left it. -/
theorem Consistent.taskStep (h : Consistent runner s) (hnone : s.mThread.call th = .none)
    (hadmits : s.admitsThread runner (.resume th answer) = true)
    (hstep : WorkerThread.step s.mThread (.resume th answer) = some t) :
    Consistent runner (s.follow { s with mThread := t } (.resume th answer)) := by
  have hrun : s.run th = .outside ∨ s.run th = .leave := by
    simpa [State.admitsThread, hnone] using hadmits
  obtain ⟨lock, hdoes⟩ := WorkerThread.taskDoes_of_resume hstep hnone
  obtain ⟨hcalls, hne, r, htasks⟩ :=
    WorkerThread.TaskDoes.next (s := { s.mThread with mStateLock := lock }) rfl hdoes
  have henters : r = .run () ↔ ∃ w, s.mThread.task th = .released (some w) := by
    rw [← hdoes.enters, htasks, Function.update_self]
    exact ⟨fun hr => ⟨(), hr⟩, fun ⟨w, hr⟩ => hr⟩
  have hrunner : th ≠ runner := fun heq => hne (heq ▸ h.main.1)
  have hfollow (pt : RunPoint) (hruns : pt ≠ .outside ↔ r = .run ()) :
      Consistent runner (State.gotoRun { s with mThread := t } th pt) := by
    refine ⟨fun u => ?_, fun u => ?_, fun u => ?_, ?_, fun u => ?_⟩ <;>
      simp only [State.gotoRun, hcalls, htasks]
    · by_cases hu : u = th
      · rw [hu, Function.update_self, Function.update_self]
        exact hruns
      · rw [Function.update_of_ne hu, Function.update_of_ne hu]
        exact h.runs u
    · by_cases hu : u = th
      · rw [hu]
        exact Or.inl hnone
      · have hthread := h.thread u
        simp only [State.entry, Function.update_of_ne hu] at hthread ⊢
        exact hthread
    · by_cases hu : u = th
      · subst hu
        have hinside := h.service u
        generalize s.mService.call u = c at hinside ⊢
        cases hinside with
        | outside => exact .outside
        | setEOS hmain | thread hmain => exact absurd hmain hrunner
        | request hrequest =>
          obtain hr | hr := hrun <;> rw [hr] at hrequest <;> cases hrequest
      · rw [Function.update_of_ne hu]
        exact h.service u
    · rw [Function.update_of_ne hrunner.symm]
      exact h.main
    · by_cases hu : u = th
      · rw [hu]
        exact Or.inr ((h.apart th).resolve_left hne)
      · rw [Function.update_of_ne hu]
        exact h.apart u
  have hsame (ht : r ≠ .run ()) (hr : s.run th = .outside) :
      Consistent runner { s with mThread := t } := by
    have heq : State.gotoRun { s with mThread := t } th .outside = { s with mThread := t } := by
      simp only [State.gotoRun, ← hr, Function.update_eq_self]
    rw [← heq]
    exact hfollow .outside (by simp [ht])
  have hleft (ht : s.mThread.task th ≠ .run ()) : s.run th = .outside := by
    by_contra hr
    exact ht ((h.runs th).mp hr)
  have hcallth : t.call th = .none := by rw [hcalls, hnone]
  rw [follow_task { s with mThread := t } hnone hcallth]
  cases htask : s.mThread.task th with
  | none => exact absurd htask hne
  | entry | await | exit | exited =>
    exact hsame (by simp [henters, htask]) (hleft (by simp [htask]))
  | released worker =>
    cases worker with
    | none => exact hsame (by simp [henters, htask]) (hleft (by simp [htask]))
    | some w => exact hfollow (.shouldRun 0) (by simp [henters, htask])
  | run w => exact hfollow .outside (by simp [henters, htask])

theorem isNew_iff {id : Th} : s.isNew runner id = true ↔ id ≠ runner ∧
    s.mThread.task id = .none ∧ s.mService.isFree id = true ∧ s.mLoop.isFree id = true := by
  simp [State.isNew, WorkerThread.task_isNone_iff, and_assoc]

theorem serviceTask_of_new {id : Th} (hnew : s.isNew runner id = true) :
    s.serviceTask id = .none := by
  obtain ⟨-, -, hfree, -⟩ := isNew_iff.mp hnew
  exact (AsyncThread.isFree_iff.mp (SampleService.isFree_iff.mp hfree).2).2.2

theorem follow_of_ne (s' : State Th) (answer : WorkerThread.Answer Th)
    (hne : s.mThread.call th ≠ .none) :
    ∃ result, s.follow s' (.resume th answer) = { s' with result := result } := by
  simp only [State.follow]
  split
  · rename_i heq _
    exact absurd heq hne
  · rename_i heq _
    exact absurd heq hne
  · split <;> exact ⟨_, rfl⟩

/-- A thread goes on in the function of mThread that it has called. -/
theorem Consistent.threadCall (h : Consistent runner s) (hne : s.mThread.call th ≠ .none)
    (hadmits : s.admitsThread runner (.resume th answer) = true)
    (hstep : WorkerThread.step s.mThread (.resume th answer) = some t) :
    Consistent runner (s.follow { s with mThread := t } (.resume th answer)) := by
  obtain hnone | ⟨e, hentry, hreaches⟩ := h.thread th
  · exact absurd hnone hne
  have hisNone : (s.mThread.call th).isNone = false := by
    rw [← Bool.not_eq_true, WorkerThread.isNone_iff]
    exact hne
  obtain ⟨lock, hdoes⟩ := WorkerThread.callDoes_of_resume hstep hisNone
  obtain ⟨hnext, hframe⟩ :=
    WorkerThread.CallDoes.next (s := { s.mThread with mStateLock := lock }) rfl hreaches hdoes
  have hlocal := hdoes.isLocal.call
  obtain ⟨result, hfollow⟩ := follow_of_ne { s with mThread := t } answer hne
  have htasks (u : Th) : (t.task u = .run () ↔ s.mThread.task u = .run ()) ∧
      (s.mThread.task u = .none → t.task u = .none ∨ s.isNew runner u = true) := by
    cases hframe with
    | same htask =>
      rw [htask]
      exact ⟨Iff.rfl, Or.inl⟩
    | @joined id hexited htask =>
      have hexited : s.mThread.task id = .exited := hexited
      rw [htask]
      by_cases heq : u = id
      · simp [heq, hexited]
      · rw [Function.update_of_ne heq]
        exact ⟨Iff.rfl, Or.inl⟩
    | @created id hcreates hnone htask =>
      have hnone : s.mThread.task id = .none := hnone.2
      rw [htask]
      by_cases heq : u = id
      · obtain ⟨⟨w, hpoint⟩, rfl⟩ := WorkerThread.creates_eq_some hcreates
        have hpoint : s.mThread.call th = .start w (.prepare .create) := hpoint
        have hnew : s.isNew runner id = true := by
          simpa [State.admitsThread, hpoint] using hadmits
        simp [heq, hnone, hnew]
      · rw [Function.update_of_ne heq]
        exact ⟨Iff.rfl, Or.inl⟩
  rw [hfollow]
  refine ⟨fun u => ?_, fun u => ?_, h.service, ?_, fun u => ?_⟩
  · exact (h.runs u).trans (htasks u).1.symm
  · by_cases hu : u = th
    · rw [hu]
      exact hnext.imp_right fun hreaches => ⟨e, hentry, hreaches⟩
    · show t.call u = .none ∨ _
      rw [hlocal u hu]
      exact h.thread u
  · refine ⟨?_, h.main.2⟩
    obtain hnone | hnew := (htasks runner).2 h.main.1
    · exact hnone
    · exact absurd rfl (isNew_iff.mp hnew).1
  · by_cases htask : s.mThread.task u = .none
    · obtain hnone | hnew := (htasks u).2 htask
      · exact Or.inl hnone
      · have hout := serviceTask_of_new hnew
        exact Or.inr hout
    · exact Or.inr ((h.apart u).resolve_left htask)

theorem Consistent.threadStep (h : Consistent runner s) (hwaits : WorkerThread.Waits s.mThread)
    {a : WorkerThread.Action Unit Th} (hadmits : s.admitsThread runner a = true)
    (ht : WorkerThread.step s.mThread a = some t) :
    Consistent runner (s.follow { s with mThread := t } a) := by
  cases a with
  | call => cases hadmits
  | lock th =>
    obtain ⟨-, ht⟩ := Option.ite_none_right_eq_some.mp ht
    obtain rfl := Option.some.inj ht
    exact ⟨h.runs, h.thread, h.service, h.main, h.apart⟩
  | wakeup th =>
    obtain rfl := Option.some.inj ht
    exact ⟨h.runs, h.thread, h.service, h.main, h.apart⟩
  | resume th answer =>
    by_cases hnone : s.mThread.call th = .none
    · exact h.taskStep hnone hadmits ht
    · exact h.threadCall hnone hadmits ht
  | expire th =>
    obtain ⟨hasleep, ht⟩ := Option.ite_none_right_eq_some.mp ht
    obtain rfl := Option.some.inj ht
    refine ⟨h.runs, fun u => ?_, h.service, h.main, h.apart⟩
    by_cases hu : u = th
    · have hcall := (hwaits.sleep th hasleep).1
      obtain hnone | ⟨e, he, hreaches⟩ := h.thread th
      · rw [hcall] at hnone
        cases hnone
      · rw [hcall] at hreaches
        refine Or.inr ⟨e, hu ▸ he, ?_⟩
        simp only [State.follow, WorkerThread.State.goto, hu, Function.update_self]
        cases e <;> first | rfl | cases hreaches
    · simp only [State.follow, WorkerThread.State.goto, Function.update_of_ne hu]
      exact h.thread u

end Thread

section Service

/-- mService goes on, and main() and the worker thread in it. -/
theorem Consistent.serviceStep (h : Consistent runner s)
    (hs : (SampleService.machine Th).Reachable Machine.anyStep s.mService)
    {a : SampleService.Action Th} {v : SampleService.State Th}
    (hadmits : s.admitsService runner a = true) (hv : SampleService.step s.mService a = some v) :
    Consistent runner { s with mService := v } := by
  have hcreated (u : Th) (hu : s.serviceTask u = .none)
      (hu' : v.mThread.mThreadEngine.task u ≠ .none) : s.isNew runner u = true := by
    obtain ⟨th, callback, rfl, -⟩ := (SampleService.step_moves hv).created hs hu hu'
    exact hadmits
  have hkept (u : Th) (hu : s.serviceTask u = .none) (hnew : s.isNew runner u = false) :
      v.mThread.mThreadEngine.task u = .none := by
    by_contra hu'
    rw [hcreated u hu hu'] at hnew
    cases hnew
  refine ⟨h.runs, h.thread, fun u => ?_, ⟨h.main.1, ?_⟩, fun u => ?_⟩
  · have ha : a.enters = false := by
      cases a <;> first | rfl | cases hadmits
    have hinside := h.service u
    show InService _ _ _ (v.call u)
    obtain hsame | ⟨hnone, -⟩ | ⟨op, hcall, hcall', -⟩ := (SampleService.step_moves hv).call ha u
    · rw [hsame]
      exact hinside
    · rw [hnone]
      exact .outside
    · rw [hcall] at hinside
      rw [hcall']
      cases hinside with
      | setEOS hmain hcall => exact .thread hmain hcall
  · refine hkept runner h.main.2 ?_
    simp [State.isNew]
  · by_cases htask : s.mThread.task u = .none
    · exact Or.inl htask
    · refine Or.inr (hkept u ((h.apart u).resolve_left htask) ?_)
      rw [← Bool.not_eq_true]
      exact fun hnew => htask (isNew_iff.mp hnew).2.1

end Service

section Runs

/-- A step keeps the points of each thread in App, mThread and mService together. -/
theorem Consistent.step (h : Consistent runner s)
    (hthread : (WorkerThread.machine Unit Th).Reachable Machine.anyStep s.mThread)
    (hservice : (SampleService.machine Th).Reachable Machine.anyStep s.mService)
    (hm : Moves runner capacity s s') : Consistent runner s' := by
  have hcallNone {c : Call} (hcall : s.call = c) (hc : ∀ op m, c ≠ .inside op m) :
      s.mThread.call runner = .none ∧ s.mService.call runner = .none :=
    ⟨h.main_thread fun op => hcall ▸ hc op _, h.main_service fun op => hcall ▸ hc op _⟩
  have hrunTo {th : Th} {pt : RunPoint} (hout : s.run th ≠ .outside) (hpt : pt ≠ .outside)
      (hthread : s.mThread.call th = .none) (hservice : s.mService.call th = .none) :
      Consistent runner (s.gotoRun th pt) :=
    h.runTo hout hpt rfl rfl ⟨rfl, rfl⟩ (Function.update_eq_self ..).symm (Or.inl hthread)
      (Function.update_eq_self ..).symm (Or.inl hservice)
  cases hm with
  | start hmay | stop hmay =>
    simp only [State.mayCall, Bool.and_eq_true, decide_eq_true_eq] at hmay
    obtain ⟨hthread, hservice⟩ := hcallNone hmay.1 (by simp)
    exact h.goto rfl rfl rfl hthread hservice
  | callTimer hcall =>
    obtain ⟨hthread, hservice⟩ := hcallNone hcall (by simp)
    exact h.goto rfl rfl rfl hthread hservice
  | callService hcall hv => exact h.callService hcall hv
  | callThread hcall ht => exact h.callThread hcall ht
  | @«return» op m hcall hreturned =>
    obtain ⟨c, started, hleave, -⟩ := leave_fields s op m
    rw [hleave]
    cases m with
    | mTimer =>
      exact h.goto rfl rfl rfl (h.main_thread (by simp [hcall])) (h.main_service (by simp [hcall]))
    | mService =>
      exact h.goto rfl rfl rfl (h.main_thread (by simp [hcall])) (of_decide_eq_true hreturned)
    | mThread =>
      exact h.goto rfl rfl rfl (WorkerThread.isNone_iff.mp hreturned)
        (h.main_service (by simp [hcall]))
  | @shouldRun th n hrun =>
    refine hrunTo (by simp [hrun]) (by split <;> simp)
      (h.run_thread (by simp [hrun]) (by simp [hrun]))
      (h.run_service (by simp [hrun]) (by simp [hrun]))
  | @callMsleep th n t hrun ht =>
    obtain ⟨-, ht⟩ := Option.ite_none_right_eq_some.mp ht
    obtain rfl := Option.some.inj ht
    have hout : s.run th ≠ .outside := by simp [hrun]
    have hpt : RunPoint.msleep n ≠ .outside := by simp
    refine h.runTo hout hpt rfl rfl ⟨rfl, rfl⟩ ?_
      (Or.inr ⟨⟨n, rfl⟩, ?_⟩) (Function.update_eq_self ..).symm
      (Or.inl (h.run_service (by simp [hrun]) (by simp [hrun])))
    · simp [WorkerThread.State.goto, WorkerThread.Entry.point]
    · simp [WorkerThread.State.goto, WorkerThread.Entry.point, WorkerThread.Entry.reaches]
  | @slept th n hrun hnone =>
    exact hrunTo (by simp [hrun]) (by simp) hnone
      (h.run_service (by simp [hrun]) (by simp [hrun]))
  | @callRequest th n v hrun hv =>
    obtain ⟨-, hv⟩ := Option.ite_none_right_eq_some.mp hv
    obtain ⟨q, -, rfl⟩ := queueStep_eq hv
    have hout : s.run th ≠ .outside := by simp [hrun]
    have hpt : RunPoint.request n ≠ .outside := by simp
    refine h.runTo hout hpt rfl rfl ⟨rfl, rfl⟩
      (Function.update_eq_self ..).symm
      (Or.inl (h.run_thread (by simp [hrun]) (by simp [hrun]))) ?_ (Or.inr ⟨⟨n, rfl⟩, ?_⟩)
    · simp [SampleService.State.goto]
    · simp [SampleService.State.goto]
  | @requested th n hrun hnone =>
    exact hrunTo (by simp [hrun]) (by simp)
      (h.run_thread (by simp [hrun]) (by simp [hrun])) hnone
  | post => exact ⟨h.runs, h.thread, h.service, h.main, h.apart⟩
  | thread hadmits ht => exact h.threadStep (WorkerThread.fits_and_waits hthread).2 hadmits ht
  | service hadmits hv => exact h.serviceStep hservice hadmits hv
  | @loop a l =>
    obtain ⟨posted, hhandle⟩ := handle_fields { s with mLoop := l } a
    rw [hhandle]
    exact ⟨h.runs, h.thread, h.service, h.main, h.apart⟩

/-- The three members and the threads between them stand at points that belong together, in every
reachable state. -/
theorem consistent_reachable (hs : (machine runner capacity).Reachable Machine.anyStep s) :
    Consistent runner s := by
  refine Machine.Invariant.reachable (I := Consistent runner)
    (J := (machine runner capacity).Reachable Machine.anyStep) ⟨?_, ?_⟩ (fun s hs => hs) hs
  · intro s hinit
    obtain ⟨now, -, rfl⟩ := hinit
    exact ⟨fun _ => by simp [start, WorkerThread.start], fun _ => Or.inl rfl, fun _ => .outside,
      ⟨rfl, rfl⟩, fun _ => Or.inl rfl⟩
  · intro s a s' _ hs hstep h
    exact h.step (thread_part.reachable hs) (service_part.reachable hs) (step_moves hstep)

end Runs

end CWrapper.App
