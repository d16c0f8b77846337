import CWrapper.SampleServiceSteps

/-!
In every reachable state the threads of a SampleService stand where its functions and the callback
put them, and one thread at most is in the callback.
-/
namespace CWrapper.SampleService

open Transition SyncQueue

variable {Th : Type} [DecidableEq Th] {s s' : State Th} {th u : Th} {pt : LoopPoint}
  {q : SyncQueue.State Msg Th messages}

section Queue

/-- What a step of mMsgQ does to the loop of the callback, and to the items that have left. -/
inductive QueueMoves (s : State Th) (q : SyncQueue.State Msg Th messages) : State Th → Prop
  | stay (hremoved : q.removed = s.mMsgQ.removed)
      (hstands : ∀ u, Stands (s.call u) (s.loop u) (q.thread u)) :
      QueueMoves s q { s with mMsgQ := q }
  | closed {th : Th} (hloop : s.loop th = .get) (hremoved : q.removed = s.mMsgQ.removed)
      (hidle : q.thread th = .idle)
      (hothers : ∀ u, u ≠ th → Stands (s.call u) (s.loop u) (q.thread u)) :
      QueueMoves s q (State.gotoLoop { s with mMsgQ := q } th .done)
  | got {th : Th} {msg : Msg} (hloop : s.loop th = .get)
      (hremoved : q.removed = s.mMsgQ.removed ++ [(.got, msg)]) (hidle : q.thread th = .idle)
      (hothers : ∀ u, u ≠ th → Stands (s.call u) (s.loop u) (q.thread u)) :
      QueueMoves s q (State.gotoLoop { s with mMsgQ := q } th (.log msg))

theorem receive_of_ne {choice : ℕ} (h : s.loop th ≠ .get ∨ s.mMsgQ.thread th ≠ .idle) :
    s.receive (.resume th choice) = s := by
  refine if_neg fun hboth => ?_
  rw [Bool.and_eq_true, decide_eq_true_eq, decide_eq_true_eq] at hboth
  obtain hne | hne := h
  · exact hne hboth.1
  · exact hne hboth.2

theorem receive_of_get {choice : ℕ} (hloop : s.loop th = .get) (hidle : s.mMsgQ.thread th = .idle) :
    s.receive (.resume th choice) = s.gotoLoop th s.received :=
  if_pos (by rw [hloop, hidle]; rfl)

/-- What a section of mMsgQ means for the loop of the callback. -/
theorem Consistent.turn_moves (h : Consistent s) {choice : ℕ}
    (hturn : Turn s.mMsgQ th (s.mMsgQ.thread th) q) :
    QueueMoves s q (State.receive { s with mMsgQ := q } (.resume th choice)) := by
  have hothers (u : Th) (hu : u ≠ th) : Stands (s.call u) (s.loop u) (q.thread u) :=
    (h.stands u).wake (hturn.others hu)
  have hstay {p : ThreadPoint Msg} (hthread : q.thread th = p)
      (hself : Stands (s.call th) (s.loop th) p) (hremoved : q.removed = s.mMsgQ.removed)
      (hne : s.loop th ≠ .get ∨ p ≠ .idle) :
      QueueMoves s q (State.receive { s with mMsgQ := q } (.resume th choice)) := by
    have hkept : State.receive { s with mMsgQ := q } (.resume th choice) = { s with mMsgQ := q } :=
      receive_of_ne (by simpa [hthread] using hne)
    rw [hkept]
    refine .stay hremoved fun u => ?_
    by_cases hu : u = th
    · rw [hu, hthread]
      exact hself
    · exact hothers u hu
  have hst := h.stands th
  generalize hp : s.mMsgQ.thread th = p at hst hturn
  generalize hc : s.call th = c at hst hstay
  generalize hpt : s.loop th = pt at hst hstay
  cases hturn with
  | refuse heos =>
    cases hst
    exact hstay (Function.update_self ..) .requested rfl (Or.inl (by simp))
  | putWait =>
    cases hst with
    | put => exact hstay (Function.update_self ..) (.put _ rfl) rfl (Or.inl (by simp))
  | put choice =>
    cases hst
    exact hstay (Function.update_self ..) .requested signalEmpty_same.2.2.1 (Or.inl (by simp))
  | store =>
    cases hst with
    | store op => exact hstay (Function.update_self ..) (.broadcastFull op) rfl (Or.inl (by simp))
  | broadcastFull =>
    cases hst with
    | broadcastFull op =>
      exact hstay (Function.update_self ..) (.broadcastEmpty op) rfl (Or.inl (by simp))
  | broadcastEmpty =>
    cases hst with
    | broadcastEmpty op => exact hstay (Function.update_self ..) (.stored op) rfl (Or.inl (by simp))
  | getWait =>
    cases hst
    exact hstay (Function.update_self ..) (.get rfl) rfl (Or.inr (by simp))
  | closed =>
    cases hst
    rw [receive_of_get (s := { s with mMsgQ := s.mMsgQ.return th (.get false (some default)) })
      hpt (Function.update_self ..)]
    have hdone : State.received
        { s with mMsgQ := s.mMsgQ.return th (.get false (some default)) } = .done := by
      simp [State.received, SyncQueue.State.return]
    rw [hdone]
    exact .closed hpt rfl (Function.update_self ..) hothers
  | get choice =>
    cases hst
    rw [receive_of_get (s := { s with
        mMsgQ := ((s.mMsgQ.dequeue id (some default) .got).signalFull choice).return th
          (.get true (some s.mMsgQ.front)) }) hpt (Function.update_self ..)]
    have hlog : State.received { s with
        mMsgQ := ((s.mMsgQ.dequeue id (some default) .got).signalFull choice).return th
          (.get true (some s.mMsgQ.front)) } = .log s.mMsgQ.front := by
      simp [State.received, SyncQueue.State.return]
    rw [hlog]
    exact .got hpt signalFull_same.2.2.1 (Function.update_self ..) hothers

/-- What a step of mMsgQ means for the loop, and for the items that have left. -/
theorem Consistent.queue_moves (h : Consistent s) {a : SyncQueue.Action Msg Th}
    (hin : inQueue a = true) (hq : SyncQueue.step id s.mMsgQ a = some q) :
    QueueMoves s q (State.receive { s with mMsgQ := q } a) := by
  cases a with
  | put | get | putForce | flush | setEOS => cases hin
  | tick d =>
    obtain rfl := Option.some.inj hq
    exact .stay rfl h.stands
  | resume th choice => exact h.turn_moves ((h.stands th).turn hq)
  | spurious th =>
    simp only [SyncQueue.step] at hq
    have hleave : QueueMoves s (s.mMsgQ.leaveWait th false)
        { s with mMsgQ := s.mMsgQ.leaveWait th false } :=
      .stay rfl fun u => (h.stands u).wake (MayWake.update s.mMsgQ.thread)
    split at hq
    · obtain rfl := Option.some.inj hq
      exact hleave
    · obtain rfl := Option.some.inj hq
      exact hleave
    · cases hq
  | timeout th =>
    simp only [SyncQueue.step] at hq
    have hst := h.stands th
    generalize s.call th = c at hst
    generalize s.loop th = pt at hst
    split at hq
    · rename_i hth
      rw [hth] at hst
      cases hst with
      | put _ hpoint => cases hpoint
    · rename_i hth
      rw [hth] at hst
      cases hst with
      | get hpoint => cases hpoint
    · cases hq

theorem Consistent.queue (h : Consistent s) {a : SyncQueue.Action Msg Th}
    (hin : inQueue a = true) (hq : SyncQueue.step id s.mMsgQ a = some q) :
    Consistent (State.receive { s with mMsgQ := q } a) := by
  have hleave {th : Th} {pt : LoopPoint} (hloop : s.loop th = .get) (hidle : q.thread th = .idle)
      (hothers : ∀ u, u ≠ th → Stands (s.call u) (s.loop u) (q.thread u))
      (hst : Stands .none pt .idle) (hpt : pt ≠ .outside) :
      Consistent (State.gotoLoop { s with mMsgQ := q } th pt) := by
    refine ⟨fun u => ?_, h.outside, fun u => ?_⟩
    · by_cases hu : u = th
      · have hcall : s.call th = .none := by
          have hth := h.stands th
          rw [hloop] at hth
          generalize s.call th = c at hth
          generalize s.mMsgQ.thread th = p at hth
          cases hth
          rfl
        simp only [State.gotoLoop, hu, Function.update_self, hcall, hidle]
        exact hst
      · simp only [State.gotoLoop, Function.update_of_ne hu]
        exact hothers u hu
    · by_cases hu : u = th
      · simp only [State.gotoLoop, hu, Function.update_self]
        exact iff_of_true hpt ((h.inside th).mp (by rw [hloop]; simp))
      · simp only [State.gotoLoop, Function.update_of_ne hu]
        exact h.inside u
  have hmoves := h.queue_moves hin hq
  generalize State.receive { s with mMsgQ := q } a = s' at hmoves ⊢
  cases hmoves with
  | stay _ hstands => exact ⟨hstands, h.outside, h.inside⟩
  | closed hloop _ hidle hothers => exact hleave hloop hidle hothers .done (by simp)
  | @got th msg hloop _ hidle hothers => exact hleave hloop hidle hothers (.log msg) (by simp)

end Queue

section Steps

/-- A thread begins a function. -/
theorem Consistent.begin (h : Consistent s) (hsessions : AsyncThread.Sessions s.mThread)
    (hfree : s.isFree th = true) {c : Call} {p : ThreadPoint Msg}
    (hq : s.mMsgQ.call th p = some q) (hst : Stands c .outside p) :
    Consistent { s.goto th c with mMsgQ := q } := by
  obtain ⟨-, hthread⟩ := isFree_iff.mp hfree
  obtain ⟨-, -, htask⟩ := AsyncThread.isFree_iff.mp hthread
  have hloop : s.loop th = .outside := by
    by_contra hne
    have hrun := (h.inside th).mp hne
    rw [hsessions.outside th htask] at hrun
    cases hrun
  obtain ⟨-, rfl⟩ := SyncQueue.call_eq hq
  refine ⟨fun u => ?_, fun u hu => ?_, h.inside⟩
  · by_cases hu : u = th
    · simp only [State.goto, SyncQueue.State.goto, hu, Function.update_self, hloop]
      exact hst
    · simp only [State.goto, SyncQueue.State.goto, Function.update_of_ne hu]
      exact h.stands u
  · by_cases heq : u = th
    · rw [heq]
      exact htask
    · simp only [State.goto, Function.update_of_ne heq] at hu
      exact h.outside u hu

/-- A thread goes on in its function, and mMsgQ is left alone. -/
theorem Consistent.goto (h : Consistent s) {c : Call} (hst : Stands c (s.loop th)
    (s.mMsgQ.thread th)) (hout : c ≠ .none → s.mThread.mThreadEngine.task th = .none) :
    Consistent (s.goto th c) := by
  refine ⟨fun u => ?_, fun u hu => ?_, h.inside⟩
  · by_cases hu : u = th
    · simp only [State.goto, hu, Function.update_self]
      exact hst
    · simp only [State.goto, Function.update_of_ne hu]
      exact h.stands u
  · by_cases heq : u = th
    · simp only [State.goto, heq, Function.update_self] at hu ⊢
      exact hout hu
    · simp only [State.goto, Function.update_of_ne heq] at hu
      exact h.outside u hu

/-- The worker thread goes on in the callback. -/
theorem Consistent.gotoLoop (h : Consistent s) (hst : Stands (s.call th) pt (q.thread th))
    (hothers : ∀ u, u ≠ th → q.thread u = s.mMsgQ.thread u) (hloop : s.loop th ≠ .outside)
    (hpt : pt ≠ .outside) : Consistent { s.gotoLoop th pt with mMsgQ := q } := by
  refine ⟨fun u => ?_, h.outside, fun u => ?_⟩
  · by_cases hu : u = th
    · simp only [State.gotoLoop, hu, Function.update_self]
      exact hst
    · simp only [State.gotoLoop, Function.update_of_ne hu, hothers u hu]
      exact h.stands u
  · by_cases hu : u = th
    · simp only [State.gotoLoop, hu, Function.update_self]
      exact iff_of_true hpt ((h.inside th).mp hloop)
    · simp only [State.gotoLoop, Function.update_of_ne hu]
      exact h.inside u

/-- The worker thread enters or leaves the callback. -/
theorem Consistent.turn (h : Consistent s) {t : AsyncThread.State Unit Th}
    {rp : AsyncThread.RunPoint}
    (htask : t.mThreadEngine = s.mThread.mThreadEngine)
    (hrun : t.run = Function.update s.mThread.run th rp)
    (hst : Stands (s.call th) pt (s.mMsgQ.thread th)) (hpt : pt ≠ .outside ↔ rp = .inside) :
    Consistent (State.gotoLoop { s with mThread := t } th pt) := by
  refine ⟨fun u => ?_, fun u hu => ?_, fun u => ?_⟩
  · by_cases hu : u = th
    · simp only [State.gotoLoop, hu, Function.update_self]
      exact hst
    · simp only [State.gotoLoop, Function.update_of_ne hu]
      exact h.stands u
  · show t.mThreadEngine.task u = .none
    rw [htask]
    exact h.outside u hu
  · by_cases hu : u = th
    · simp only [State.gotoLoop, hu, hrun, Function.update_self]
      exact hpt
    · simp only [State.gotoLoop, hrun, Function.update_of_ne hu]
      exact h.inside u

/-- The worker thread enters and leaves the callback together with run() of mThread. -/
theorem Consistent.run (h : Consistent s) (hsessions : AsyncThread.Sessions s.mThread)
    (hadmits : s.admits (.run th) = true) {t : AsyncThread.State Unit Th}
    (ht : AsyncThread.step s.mThread (.run th) = some t) :
    Consistent (s.follow { s with mThread := t } (.run th)) := by
  have hstep : AsyncThread.runStep s.mThread th (s.mThread.run th) = some t := ht
  have hcall (hrun : s.mThread.run th ≠ .outside) : s.call th = .none := by
    by_contra hne
    exact hrun (hsessions.outside th (h.outside th hne))
  have hout (hrun : s.mThread.run th ≠ .inside) : s.loop th = .outside := by
    by_contra hne
    exact hrun ((h.inside th).mp hne)
  have hst := h.stands th
  simp only [State.follow]
  cases hrun : s.mThread.run th with
  | outside | leave =>
    rw [hrun] at hstep
    cases hstep
  | test =>
    rw [hrun] at hstep
    obtain rfl := Option.some.inj hstep
    refine h.ofThread (fun u _ hu => hu) fun u => ?_
    by_cases hu : u = th
    · simp only [AsyncThread.State.gotoRun, hu, Function.update_self, hrun]
      split <;> simp
    · simp only [AsyncThread.State.gotoRun, Function.update_of_ne hu]
  | invoke =>
    rw [hrun] at hstep
    obtain rfl := Option.some.inj hstep
    rw [hcall (by simp [hrun]), hout (by simp [hrun])] at hst
    refine h.turn rfl rfl ?_ (by simp)
    rw [hcall (by simp [hrun]), hst.idle (by simp)]
    exact .shouldRun
  | inside =>
    rw [hrun] at hstep
    obtain ⟨-, hstep⟩ := Option.ite_none_right_eq_some.mp hstep
    obtain rfl := Option.some.inj hstep
    have hdone : s.loop th = .done := by simpa [State.admits, hrun] using hadmits
    rw [hcall (by simp [hrun]), hdone] at hst
    refine h.turn rfl rfl ?_ (by simp)
    rw [hcall (by simp [hrun]), hst.idle (by simp)]
    exact .free

/-- A step of mThread keeps the points of all threads together. -/
theorem Consistent.thread (h : Consistent s)
    (hthread : (AsyncThread.machine Unit Th).Reachable Machine.anyStep s.mThread)
    {a : AsyncThread.Action Unit Th} (hadmits : s.admits a = true)
    {t : AsyncThread.State Unit Th} (ht : AsyncThread.step s.mThread a = some t) :
    Consistent (s.follow { s with mThread := t } a) := by
  by_cases hrun : ∃ th, a = .run th
  · obtain ⟨th, rfl⟩ := hrun
    exact h.run (AsyncThread.sessions_reachable hthread) hadmits ht
  · have hkept : s.follow { s with mThread := t } a = { s with mThread := t } := by
      cases a with
      | run th => exact absurd ⟨th, rfl⟩ hrun
      | start | stop | resume | engine => rfl
    rw [hkept]
    refine h.ofThread (fun u hu hnone => ?_) fun u =>
      AsyncThread.step_inside hthread ht fun th heq => hrun ⟨th, heq⟩
    obtain hkept | ⟨th, rfl⟩ := AsyncThread.step_tasks ht hnone
    · exact hkept
    · have hcall : s.call u = .none := by simpa [State.admits] using hadmits
      exact absurd hcall hu

/-- One step keeps the points in the three objects together. -/
theorem Consistent.step (h : Consistent s)
    (hthread : (AsyncThread.machine Unit Th).Reachable Machine.anyStep s.mThread)
    {a : Action Th} (hm : Moves s a s') : Consistent s' := by
  have hsessions := AsyncThread.sessions_reachable hthread
  cases hm with
  | enter op hfree hq => exact h.begin hsessions hfree hq (.store op)
  | request hfree hq => exact h.begin hsessions hfree hq (.put _ rfl)
  | @stored th op t hcall hidle ht =>
    have hout := h.outside th (by rw [hcall]; simp)
    have hst := h.stands th
    have hrun (u : Th) (heq : op.inThread th = .run u) : False := by
      cases op <;> cases heq
    rw [hcall, hidle] at hst
    have hgoto : Consistent (s.goto th (.thread op)) := by
      refine h.goto ?_ fun _ => hout
      rw [hidle]
      generalize s.loop th = pt at hst ⊢
      cases hst
      exact .thread op
    refine hgoto.ofThread (fun u _ hnone => ?_) fun u =>
      AsyncThread.step_inside hthread ht fun u heq => hrun u heq
    obtain hkept | ⟨th', heq⟩ := AsyncThread.step_tasks ht hnone
    · exact hkept
    · cases op <;> cases heq
  | @«return» th hidle hcall =>
    refine h.goto ?_ (by simp)
    have hst := h.stands th
    obtain hcall | ⟨⟨op, hcall⟩, -⟩ := hcall
    · rw [hidle hcall] at hst ⊢
      rw [hcall] at hst
      generalize s.loop th = pt at hst ⊢
      cases hst
      exact .free
    · rw [hcall] at hst
      generalize s.loop th = pt at hst ⊢
      generalize s.mMsgQ.thread th = p at hst ⊢
      cases hst
      exact .free
  | @get th q hloop hq =>
    obtain ⟨-, rfl⟩ := SyncQueue.call_eq hq
    refine h.gotoLoop ?_ (fun u hu => Function.update_of_ne hu ..) (by simp [hloop]) (by simp)
    have hst := h.stands th
    rw [hloop] at hst
    simp only [SyncQueue.State.goto, Function.update_self]
    generalize s.call th = c at hst ⊢
    generalize s.mMsgQ.thread th = p at hst
    cases hst
    exact .get rfl
  | @finish th hloop =>
    refine h.gotoLoop (q := s.mMsgQ) ?_ (fun _ _ => rfl) (by simp [hloop]) (by simp)
    have hst := h.stands th
    rw [hloop] at hst
    generalize s.call th = c at hst ⊢
    generalize s.mMsgQ.thread th = p at hst ⊢
    cases hst
    exact .done
  | @log th msg hloop =>
    have hst := h.stands th
    rw [hloop] at hst
    have hgoto : Consistent { s.gotoLoop th .shouldRun with mMsgQ := s.mMsgQ } := by
      refine h.gotoLoop ?_ (fun _ _ => rfl) (by simp [hloop]) (by simp)
      generalize s.call th = c at hst ⊢
      generalize s.mMsgQ.thread th = p at hst ⊢
      cases hst
      exact .shouldRun
    exact ⟨hgoto.stands, hgoto.outside, hgoto.inside⟩
  | queue hin hq => exact h.queue hin hq
  | thread hadmits ht => exact h.thread hthread hadmits ht

/-- Where a thread stands in a SampleService determines where it stands in mMsgQ and mThread. -/
theorem consistent_reachable (hs : (machine Th).Reachable Machine.anyStep s) : Consistent s := by
  refine Machine.Invariant.reachable (I := Consistent) ⟨?_, ?_⟩
    (fun s hs => thread_part.reachable hs) hs
  · intro s hinit
    obtain ⟨now, rfl⟩ := hinit
    exact ⟨fun _ => .free, fun _ hne => absurd rfl hne, fun _ => by simp [start, AsyncThread.start]⟩
  · intro s a s' _ hthread hstep h
    exact h.step hthread (step_moves hstep)

/-- A thread in the callback is in taskEntry. -/
theorem task_of_loop (hs : (machine Th).Reachable Machine.anyStep s) (hth : s.loop th ≠ .outside) :
    s.mThread.mThreadEngine.task th ≠ .none := by
  intro hnone
  have hrun := ((consistent_reachable hs).inside th).mp hth
  rw [(AsyncThread.sessions_reachable (thread_part.reachable hs)).outside th hnone] at hrun
  cases hrun

/-- One thread at most is in the callback. -/
theorem one_callback (hs : (machine Th).Reachable Machine.anyStep s) (hth : s.loop th ≠ .outside)
    (hu : s.loop u ≠ .outside) : u = th := by
  obtain ⟨⟨p, hfits⟩, -⟩ := AsyncThread.fits_and_waits_engine (thread_part.reachable hs)
  exact hfits.one_task (task_of_loop hs hu) (task_of_loop hs hth)

end Steps

end CWrapper.SampleService
