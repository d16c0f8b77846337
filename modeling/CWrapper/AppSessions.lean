import CWrapper.AppRuns
import CWrapper.WorkerJoin

/-!
The sessions of the two threads of the program, by where main() is. mThread has a thread between its
start() and its stop() only, and so has mService; and mEOS is not set where main() is between
mService.start() and mService.stop().
-/
namespace CWrapper.App

open Transition SampleService

variable {Th : Type}

/-- The points of main() at which mThread may have a thread. -/
def Call.mayRun : Call → Bool
  | .none | .inside .start .mThread | .call .stop .mThread | .inside .stop .mThread => true
  | _ => false

/-- The points of main() after mService.start() and before mService.stop(). -/
def Call.isOpen : Call → Bool
  | .none | .call .start .mThread | .inside .start .mThread | .call .stop .mThread
  | .inside .stop .mThread | .call .stop .mService => true
  | _ => false

/-- The points of main() at which mService may have a thread. -/
def Call.mayServe (c : Call) : Bool := c.isOpen || c matches .inside _ .mService

def State.noService (s : State Th) : Prop := ∀ th, s.serviceTask th = .none

def State.isLate (s : State Th) (runner : Th) : Prop :=
  s.mService.call runner = .none ∨ s.mService.call runner = .thread .start ∧
    ((s.mService.mThread.call runner).isLate = true ∨ s.mService.mThread.call runner = .none)

/-- stop() of mService has not returned from mThread.stop(). -/
def State.isStopping (s : State Th) (runner : Th) : Prop :=
  s.mService.call runner = .setEOS .stop ∨ s.mService.call runner = .thread .stop ∧
    (s.mService.mThread.call runner).isStop = true

inductive Turn [DecidableEq Th] (runner : Th) (s s' : State Th) : Prop
  | stay (hcall : s'.call = s.call) (hstarted : s'.started = s.started)
  | start (hcall : s.call = .none) (hnot : s.started = false)
      (hcall' : s'.call = .call .start .mTimer) (hstarted' : s'.started = true)
  | stop (hcall : s.call = .none) (hcall' : s'.call = .call .stop .mThread)
      (hstarted : s'.started = s.started)
  | enter {op : Operation} {m : Member} (hcall : s.call = .call op m)
      (hcall' : s'.call = .inside op m) (hstarted : s'.started = s.started)
      (hthread : m = .mThread → s'.mThread.call runner = (inThread op).point)
      (hservice : m = .mService → s'.mService.call runner = .setEOS op ∧
        s'.mService.mMsgQ.thread runner = .setEOS op.eos)
  | return {op : Operation} {m : Member} (hcall : s.call = .inside op m)
      (hreturned : s.returned runner m = true) (hs' : s' = s.leave op m)

variable [DecidableEq Th] {runner : Th} {capacity : ℕ+} {s s' : State Th} {th u : Th}

/-- main() goes from one call to the next in the order of its code. -/
theorem Moves.turn (hm : Moves runner capacity s s') : Turn runner s s' := by
  cases hm with
  | start hmay hnot =>
    simp only [State.mayCall, Bool.and_eq_true, decide_eq_true_eq] at hmay
    exact .start hmay.1 hnot rfl rfl
  | stop hmay =>
    simp only [State.mayCall, Bool.and_eq_true, decide_eq_true_eq] at hmay
    exact .stop hmay.1 rfl rfl
  | callTimer hcall => exact .enter hcall rfl rfl (by simp) (by simp)
  | @callService op _ hcall hv =>
    refine .enter hcall rfl rfl (by simp) fun _ => ?_
    obtain ⟨-, hv⟩ : s.mService.isFree runner = true ∧
        (s.mService.goto runner (.setEOS op)).queueStep (.setEOS runner op.eos) = some _ := by
      cases op <;> exact Option.ite_none_right_eq_some.mp hv
    obtain ⟨q, hq, rfl⟩ := queueStep_eq hv
    have hq : s.mService.mMsgQ.call runner (.setEOS op.eos) = some q := hq
    obtain ⟨-, rfl⟩ := SyncQueue.call_eq hq
    exact ⟨Function.update_self .., Function.update_self ..⟩
  | callThread hcall ht =>
    obtain ⟨-, ht⟩ := Option.ite_none_right_eq_some.mp ht
    obtain rfl := Option.some.inj ht
    exact .enter hcall rfl rfl (fun _ => Function.update_self ..) (by simp)
  | «return» hcall hreturned => exact .return hcall hreturned rfl
  | shouldRun | callMsleep | slept | callRequest | requested | post | service => exact .stay rfl rfl
  | @thread a t =>
    obtain ⟨run, result, hfollow⟩ := follow_fields s { s with mThread := t } a
    rw [hfollow]
    exact .stay rfl rfl
  | @loop a l =>
    obtain ⟨posted, hhandle⟩ := handle_fields { s with mLoop := l } a
    rw [hhandle]
    exact .stay rfl rfl

section Tasks

/-- A thread comes to be in taskEntry of mThread while main() is in mThread.start(). -/
theorem thread_kept (h : Consistent runner s) (hm : Moves runner capacity s s')
    (hnot : s.call ≠ .inside .start .mThread) (hu : s.mThread.task u = .none) :
    s'.mThread.task u = .none := by
  have hkept {a : WorkerThread.Action Unit Th} {t : WorkerThread.State Unit Th}
      (ht : WorkerThread.step s.mThread a = some t) : t.task u = .none := by
    by_contra hu'
    obtain ⟨th, w, -, hpoint⟩ := WorkerThread.step_created
      (fun th => (h.thread th).imp_right fun ⟨e, _, he⟩ => ⟨e, he⟩) ht hu hu'
    obtain hnone | ⟨e, hentry, hreaches⟩ := h.thread th
    · rw [hpoint] at hnone
      cases hnone
    · rw [hpoint] at hreaches
      by_cases heq : th = runner
      · rw [heq, entry_runner] at hentry
        split at hentry
        · rename_i op hcall
          obtain rfl := Option.some.inj hentry
          cases op with
          | start => exact hnot hcall
          | stop => cases hreaches
        · cases hentry
      · rw [entry_other heq] at hentry
        split at hentry
        · obtain rfl := Option.some.inj hentry
          cases hreaches
        · cases hentry
  cases hm with
  | callThread _ ht | callMsleep _ ht => exact hkept ht
  | @thread a t _ ht =>
    obtain ⟨run, result, hfollow⟩ := follow_fields s { s with mThread := t } a
    rw [hfollow]
    exact hkept ht
  | @«return» op m =>
    obtain ⟨c, started, hleave, -⟩ := leave_fields s op m
    rw [hleave]
    exact hu
  | @loop a l =>
    obtain ⟨posted, hhandle⟩ := handle_fields { s with mLoop := l } a
    rw [hhandle]
    exact hu
  | start | stop | callTimer | callService | shouldRun | slept | callRequest | requested | post
  | service => exact hu

/-- mService is left alone, or takes a step of its own. -/
inductive ServiceMoves (runner : Th) (s s' : State Th) : Prop
  | same (hservice : s'.mService = s.mService)
  | enter {op : Operation} (hcall : s.call = .call op .mService)
      (hv : SampleService.step s.mService (inService runner op) = some s'.mService)
  | request {n : ℕ} {th : Th} (hrun : s.run th = .callRequest n)
      (hv : SampleService.step s.mService (.request th n) = some s'.mService)
  | step {a : SampleService.Action Th} (ha : a.enters = false) (hcall : s'.call = s.call)
      (hv : SampleService.step s.mService a = some s'.mService)

/-- Seen from mService, a step of the program is a step of mService or none. -/
theorem Moves.service_moves (hm : Moves runner capacity s s') : ServiceMoves runner s s' := by
  cases hm with
  | callService hcall hv => exact .enter hcall hv
  | callRequest hrun hv => exact .request hrun hv
  | @service a v hadmits hv =>
    refine .step ?_ rfl hv
    cases a <;> first | rfl | cases hadmits
  | @thread a t =>
    obtain ⟨run, result, hfollow⟩ := follow_fields s { s with mThread := t } a
    exact .same (by rw [hfollow])
  | @«return» op m =>
    obtain ⟨c, started, hleave, -⟩ := leave_fields s op m
    exact .same (by rw [hleave])
  | @loop a l =>
    obtain ⟨posted, hhandle⟩ := handle_fields { s with mLoop := l } a
    exact .same (by rw [hhandle])
  | start | stop | callTimer | callThread | shouldRun | callMsleep | slept | requested | post =>
    exact .same rfl

/-- A thread comes to be in taskEntry of mService in start() of mService, which main() has
called. -/
theorem ServiceMoves.kept (hm : ServiceMoves runner s s') (h : Consistent runner s)
    (hs : (SampleService.machine Th).Reachable Machine.anyStep s.mService)
    (hu : s.serviceTask u = .none) :
    s'.serviceTask u = .none ∨ s.call = .inside .start .mService ∧ s'.call = s.call ∧
      ∃ callback, s'.mService.call runner = .thread .start ∧
        s'.mService.mThread.call runner = .starting callback false := by
  by_cases hu' : s'.serviceTask u = .none
  · exact Or.inl hu'
  refine Or.inr ?_
  cases hm with
  | same hservice =>
    rw [State.serviceTask, hservice] at hu'
    exact absurd hu hu'
  | @enter op _ hv =>
    obtain ⟨th, callback, ha, -⟩ := (SampleService.step_moves hv).created hs hu hu'
    cases op <;> cases ha
  | request _ hv =>
    obtain ⟨th, callback, ha, -⟩ := (SampleService.step_moves hv).created hs hu hu'
    cases ha
  | step ha hcall hv =>
    obtain ⟨th, callback, rfl, hstart, hsame, hcreated⟩ :=
      (SampleService.step_moves hv).created hs hu hu'
    have hinside := h.service th
    rw [hstart] at hinside
    cases hinside with
    | thread hmain hinside =>
      exact ⟨hinside, hcall, callback, by rw [← hmain, hsame, hstart], hmain ▸ hcreated⟩

end Tasks

section Calls

theorem admits_joinSucceeds
    (hs : (WorkerThread.machine Unit Th).Reachable Machine.anyStep s.mThread)
    {a : WorkerThread.Action Unit Th} (hadmits : s.admitsThread runner a = true) :
    s.mThread.joinSucceeds a = true := by
  cases a with
  | call | lock | wakeup | expire => rfl
  | resume th answer =>
    cases answer with
    | yes | thread => rfl
    | no =>
      simp only [WorkerThread.State.joinSucceeds]
      split
      · rename_i op id hcall
        simp only [State.admitsThread, hcall, Bool.or_eq_true, decide_eq_true_eq] at hadmits
        exact WorkerThread.joins_other hs hcall hadmits
      · rfl

/-- main() goes on in stop() of mThread until nobody is in taskEntry. -/
theorem inStop_kept (h : Consistent runner s) (hm : Moves runner capacity s s')
    (hs : (WorkerThread.machine Unit Th).Reachable Machine.anyStep s.mThread)
    (hcall : s.call = .inside .stop .mThread)
    (hstop : WorkerThread.InStop (s.mThread.call runner)) :
    WorkerThread.InStop (s'.mThread.call runner) ∨ s.mThread.nobody := by
  cases hm with
  | callThread hcall' =>
    rw [hcall] at hcall'
    cases hcall'
  | callMsleep _ ht => exact WorkerThread.inStop_step hs rfl ht hstop h.main.1
  | @thread a t hadmits ht =>
    obtain ⟨run, result, hfollow⟩ := follow_fields s { s with mThread := t } a
    rw [hfollow]
    exact WorkerThread.inStop_step hs (admits_joinSucceeds hs hadmits) ht hstop h.main.1
  | @«return» op m =>
    obtain ⟨c, started, hleave, -⟩ := leave_fields s op m
    rw [hleave]
    exact Or.inl hstop
  | @loop a l =>
    obtain ⟨posted, hhandle⟩ := handle_fields { s with mLoop := l } a
    rw [hhandle]
    exact Or.inl hstop
  | start | stop | callTimer | callService | shouldRun | slept | callRequest | requested | post
  | service => exact Or.inl hstop

theorem ServiceMoves.part (hm : ServiceMoves runner s s') :
    s'.mService = s.mService ∨ ∃ a, SampleService.step s.mService a = some s'.mService := by
  cases hm with
  | same hservice => exact Or.inl hservice
  | enter _ hv | request _ hv | step _ _ hv => exact Or.inr ⟨_, hv⟩

/-- Nobody comes to be in taskEntry of mService but in start() of mService. -/
theorem ServiceMoves.noService (hm : ServiceMoves runner s s') (h : Consistent runner s)
    (hs : (SampleService.machine Th).Reachable Machine.anyStep s.mService)
    (hcall : s.call ≠ .inside .start .mService) (hno : s.noService) : s'.noService := by
  intro u
  obtain hnone | ⟨hinside, -⟩ := hm.kept h hs (hno u)
  · exact hnone
  · exact absurd hinside hcall

/-- main() goes on in mService. -/
theorem ServiceMoves.call (hm : ServiceMoves runner s s') (h : Consistent runner s)
    {op : Operation} (hcall : s.call = .inside op .mService) :
    s'.mService.call runner = s.mService.call runner ∨
      s'.mService.call runner = .none ∧ (∃ op, s.mService.call runner = .thread op) ∧
        s.mService.mThread.call runner = .none ∨
      ∃ op, s.mService.call runner = .setEOS op ∧ s'.mService.call runner = .thread op ∧
        s.mService.mMsgQ.thread runner = .idle ∧
        (op = .stop → (s'.mService.mThread.call runner).isStop = true) := by
  cases hm with
  | same hservice => exact Or.inl (by rw [hservice])
  | enter hcall' =>
    rw [hcall] at hcall'
    cases hcall'
  | @request n th hrun hv =>
    have hne : th ≠ runner := h.not_runner (by simp [hrun])
    obtain ⟨-, hv⟩ := Option.ite_none_right_eq_some.mp hv
    obtain ⟨q, -, hq⟩ := queueStep_eq hv
    exact Or.inl (by rw [hq]; exact Function.update_of_ne hne.symm ..)
  | step ha _ hv =>
    obtain hsame | ⟨hnone, hrequest | hthread⟩ | hstored :=
      (SampleService.step_moves hv).call ha runner
    · exact Or.inl hsame
    · have hinside := h.service runner
      rw [hrequest] at hinside
      cases hinside with
      | request hrun =>
        rw [h.run_runner] at hrun
        cases hrun
    · exact Or.inr (Or.inl ⟨hnone, hthread⟩)
    · exact Or.inr (Or.inr hstored)

/-- main() alone stores mEOS, in start() and stop() of mService. -/
theorem ServiceMoves.eos (hm : ServiceMoves runner s s') (h : Consistent runner s)
    (hs : (SampleService.machine Th).Reachable Machine.anyStep s.mService) :
    KeepsEOS s.mService.mMsgQ s'.mService.mMsgQ ∨
      ∃ op, s.call = .inside op .mService ∧ s'.mService.mMsgQ.mEOS = op.eos := by
  obtain hservice | ⟨a, hv⟩ := hm.part
  · exact Or.inl (by rw [hservice]; exact ⟨rfl, fun _ _ hu => hu⟩)
  obtain hkeeps | ⟨th, op, hcall, heos⟩ :=
    (SampleService.consistent_reachable hs).eos (SampleService.step_moves hv)
  · exact Or.inl hkeeps
  · have hinside := h.service th
    rw [hcall] at hinside
    cases hinside with
    | setEOS _ hcall => exact Or.inr ⟨op, hcall, heos⟩

theorem ServiceMoves.isLate (hm : ServiceMoves runner s s') (h : Consistent runner s)
    (hs : (SampleService.machine Th).Reachable Machine.anyStep s.mService) {op : Operation}
    (hcall : s.call = .inside op .mService) (hlate : s.isLate runner) : s'.isLate runner := by
  have hcalls := hm.call h hcall
  obtain hnone | ⟨hthread, hlate⟩ := hlate
  · rw [hnone] at hcalls
    obtain hsame | ⟨-, ⟨op', heq⟩, -⟩ | ⟨op', heq, -⟩ := hcalls
    · exact Or.inl hsame
    · cases heq
    · cases heq
  obtain hsame | ⟨hnone, -⟩ | ⟨op', heq, -⟩ := hcalls
  · refine Or.inr ⟨hsame.trans hthread, ?_⟩
    obtain hservice | ⟨a, hv⟩ := hm.part
    · rw [hservice]
      exact hlate
    obtain halong | hnone | ⟨op', heq⟩ := (SampleService.step_moves hv).inThread hs runner
    · obtain hlate | hnone := hlate
      · exact Or.inl (halong.isLate hlate)
      · exact Or.inr (halong.none_iff.mpr hnone)
    · exact Or.inr hnone
    · rw [hthread] at heq
      cases heq
  · exact Or.inl hnone
  · rw [hthread] at heq
    cases heq

/-- main() goes on in stop() of mService until nobody is in taskEntry. -/
theorem ServiceMoves.isStopping (hm : ServiceMoves runner s s') (h : Consistent runner s)
    (hs : (SampleService.machine Th).Reachable Machine.anyStep s.mService) {op : Operation}
    (hcall : s.call = .inside op .mService) (hstopping : s.isStopping runner) :
    s'.noService ∨ s'.isStopping runner := by
  have hcalls := hm.call h hcall
  obtain hstoring | ⟨hthread, hstop⟩ := hstopping
  · rw [hstoring] at hcalls
    obtain hsame | ⟨-, ⟨op', heq⟩, -⟩ | ⟨op', heq, hthread, -, hstop⟩ := hcalls
    · exact Or.inr (Or.inl hsame)
    · cases heq
    · cases heq
      exact Or.inr (Or.inr ⟨hthread, hstop rfl⟩)
  obtain hsame | ⟨-, -, hnone⟩ | ⟨op', heq, -⟩ := hcalls
  · obtain hservice | ⟨a, hv⟩ := hm.part
    · refine Or.inr (Or.inr ⟨hsame.trans hthread, ?_⟩)
      rw [hservice]
      exact hstop
    obtain hstop | hnobody := (SampleService.step_moves hv).stops hs hstop
    · exact Or.inr (Or.inr ⟨hsame.trans hthread, hstop⟩)
    · exact Or.inl hnobody
  · rw [hnone] at hstop
    cases hstop
  · rw [hthread] at heq
    cases heq

end Calls

end CWrapper.App
