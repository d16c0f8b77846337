import CWrapper.App
import CWrapper.WorkerEntries

/-!
What a step of the program is. Each of the three members moves as it does when it is used by itself.
-/
namespace CWrapper.App

open Transition SampleService

variable {Th : Type} {s s' : State Th}

section Fields

theorem handle_fields (s : State Th) (a : LoopCalls.Action Unit Th Unit) :
    ∃ posted, s.handle a = { s with posted := posted } := by
  unfold State.handle
  split <;> exact ⟨_, rfl⟩

/-- After the call in a member, main() is in none. -/
theorem leave_fields (s : State Th) (op : Operation) (m : Member) :
    ∃ c started, s.leave op m = { s with call := c, started := started } ∧
      ∀ op' m', c ≠ .inside op' m' := by
  unfold State.leave
  split
  · exact ⟨_, _, rfl, by simp⟩
  · exact ⟨_, _, rfl, by simp⟩
  · exact ⟨.none, _, rfl, by simp⟩

/-- What a step of mThread means for the worker thread and for the result of start(). -/
theorem follow_fields (s s' : State Th) [DecidableEq Th] (a : WorkerThread.Action Unit Th) :
    ∃ run result, s.follow s' a = { s' with run := run, result := result } := by
  unfold State.follow
  split
  · split
    · exact ⟨_, _, rfl⟩
    · exact ⟨_, _, rfl⟩
    · split <;> exact ⟨_, _, rfl⟩
  · exact ⟨_, _, rfl⟩

end Fields

variable [DecidableEq Th] {runner : Th} {capacity : ℕ+} {th : Th}

section Parts

theorem threadStep_eq {a : WorkerThread.Action Unit Th} (hstep : s.threadStep a = some s') :
    ∃ t, WorkerThread.step s.mThread a = some t ∧ s' = { s with mThread := t } := by
  obtain ⟨t, ht, heq⟩ := Option.map_eq_some_iff.mp hstep
  exact ⟨t, ht, heq.symm⟩

theorem serviceStep_eq {a : SampleService.Action Th} (hstep : s.serviceStep a = some s') :
    ∃ v, SampleService.step s.mService a = some v ∧ s' = { s with mService := v } := by
  obtain ⟨v, hv, heq⟩ := Option.map_eq_some_iff.mp hstep
  exact ⟨v, hv, heq.symm⟩

theorem loopStep_eq {a : LoopCalls.Action Unit Th Unit}
    (hstep : s.loopStep runner capacity a = some s') :
    ∃ l, LoopCalls.step runner capacity s.mLoop a = some l ∧ s' = { s with mLoop := l } := by
  obtain ⟨l, hl, heq⟩ := Option.map_eq_some_iff.mp hstep
  exact ⟨l, hl, heq.symm⟩

end Parts

inductive Moves (runner : Th) (capacity : ℕ+) (s : State Th) : State Th → Prop
  | start (hmay : s.mayCall = true) (hnot : s.started = false) :
      Moves runner capacity s
        { s.goto (.call .start (first .start)) with started := true, result := false }
  | stop (hmay : s.mayCall = true) : Moves runner capacity s (s.goto (.call .stop (first .stop)))
  | callTimer {op : Operation} {l : LoopCalls.State Unit Th Unit}
      (hcall : s.call = .call op .mTimer)
      (hl : LoopCalls.step runner capacity s.mLoop (.call runner (inTimer op)) = some l) :
      Moves runner capacity s { s.goto (.inside op .mTimer) with mLoop := l }
  | callService {op : Operation} {v : SampleService.State Th} (hcall : s.call = .call op .mService)
      (hv : SampleService.step s.mService (inService runner op) = some v) :
      Moves runner capacity s { s.goto (.inside op .mService) with mService := v }
  | callThread {op : Operation} {t : WorkerThread.State Unit Th}
      (hcall : s.call = .call op .mThread)
      (ht : WorkerThread.step s.mThread (.call runner (inThread op)) = some t) :
      Moves runner capacity s { s.goto (.inside op .mThread) with mThread := t }
  | return {op : Operation} {m : Member} (hcall : s.call = .inside op m)
      (hreturned : s.returned runner m = true) : Moves runner capacity s (s.leave op m)
  | shouldRun {th : Th} {n : ℕ} (hrun : s.run th = .shouldRun n) :
      Moves runner capacity s
        (s.gotoRun th (if s.mThread.shouldRun then .callMsleep n else .leave))
  | callMsleep {th : Th} {n : ℕ} {t : WorkerThread.State Unit Th} (hrun : s.run th = .callMsleep n)
      (ht : WorkerThread.step s.mThread (.call th .msleep) = some t) :
      Moves runner capacity s { s.gotoRun th (.msleep n) with mThread := t }
  | slept {th : Th} {n : ℕ} (hrun : s.run th = .msleep n)
      (hnone : s.mThread.call th = .none) : Moves runner capacity s (s.gotoRun th (.callRequest n))
  | callRequest {th : Th} {n : ℕ} {v : SampleService.State Th} (hrun : s.run th = .callRequest n)
      (hv : SampleService.step s.mService (.request th n) = some v) :
      Moves runner capacity s { s.gotoRun th (.request n) with mService := v }
  | requested {th : Th} {n : ℕ} (hrun : s.run th = .request n)
      (hnone : s.mService.call th = .none) :
      Moves runner capacity s (s.gotoRun th (.shouldRun (n + 1)))
  | post {l : LoopCalls.State Unit Th Unit}
      (hhandled : LoopCalls.handled s.mLoop.mLoop.loop = some ()) (hnot : s.posted = false)
      (hl : LoopCalls.step runner capacity s.mLoop (.call runner (.post ())) = some l) :
      Moves runner capacity s { s with posted := true, mLoop := l }
  | thread {a : WorkerThread.Action Unit Th} {t : WorkerThread.State Unit Th}
      (hadmits : s.admitsThread runner a = true) (ht : WorkerThread.step s.mThread a = some t) :
      Moves runner capacity s (s.follow { s with mThread := t } a)
  | service {a : SampleService.Action Th} {v : SampleService.State Th}
      (hadmits : s.admitsService runner a = true) (hv : SampleService.step s.mService a = some v) :
      Moves runner capacity s { s with mService := v }
  | loop {a : LoopCalls.Action Unit Th Unit} {l : LoopCalls.State Unit Th Unit}
      (hadmits : s.admitsLoop runner a = true)
      (hl : LoopCalls.step runner capacity s.mLoop a = some l) :
      Moves runner capacity s (State.handle { s with mLoop := l } a)

section Inversion

/-- A step of main() is one of those of `Moves`. -/
theorem callStep_moves {c : Call} (hcall : s.call = c)
    (hstep : callStep runner capacity s c = some s') : Moves runner capacity s s' := by
  cases c with
  | none => cases hstep
  | call op m =>
    cases m with
    | mTimer =>
      obtain ⟨l, hl, rfl⟩ := loopStep_eq hstep
      exact .callTimer hcall hl
    | mService =>
      obtain ⟨v, hv, rfl⟩ := serviceStep_eq hstep
      exact .callService hcall hv
    | mThread =>
      obtain ⟨t, ht, rfl⟩ := threadStep_eq hstep
      exact .callThread hcall ht
  | inside op m =>
    obtain ⟨hreturned, hstep⟩ := Option.ite_none_right_eq_some.mp hstep
    obtain rfl := Option.some.inj hstep
    exact .return hcall hreturned

/-- A step of run() is one of those of `Moves`. -/
theorem runStep_moves {pt : RunPoint} (hrun : s.run th = pt) (hstep : runStep s th pt = some s') :
    Moves runner capacity s s' := by
  cases pt with
  | outside | leave => cases hstep
  | shouldRun n =>
    obtain rfl := Option.some.inj hstep
    exact .shouldRun hrun
  | callMsleep n =>
    obtain ⟨t, ht, rfl⟩ := threadStep_eq hstep
    exact .callMsleep hrun ht
  | msleep n =>
    obtain ⟨hnone, hstep⟩ := Option.ite_none_right_eq_some.mp hstep
    obtain rfl := Option.some.inj hstep
    exact .slept hrun (WorkerThread.isNone_iff.mp hnone)
  | callRequest n =>
    obtain ⟨v, hv, rfl⟩ := serviceStep_eq hstep
    exact .callRequest hrun hv
  | request n =>
    obtain ⟨hnone, hstep⟩ := Option.ite_none_right_eq_some.mp hstep
    obtain rfl := Option.some.inj hstep
    exact .requested hrun hnone

/-- The case analysis of the program's steps, done once; the invariants take it up from here. -/
theorem step_moves {a : Action Th} (hstep : step runner capacity s a = some s') :
    Moves runner capacity s s' := by
  cases a with
  | start =>
    obtain ⟨hmay, hstep⟩ := Option.ite_none_right_eq_some.mp hstep
    obtain rfl := Option.some.inj hstep
    simp only [Bool.and_eq_true, Bool.not_eq_true'] at hmay
    exact .start hmay.1 hmay.2
  | stop =>
    obtain ⟨hmay, hstep⟩ := Option.ite_none_right_eq_some.mp hstep
    obtain rfl := Option.some.inj hstep
    exact .stop hmay
  | next => exact callStep_moves rfl hstep
  | run th => exact runStep_moves rfl hstep
  | post =>
    obtain ⟨hmay, hstep⟩ := Option.ite_none_right_eq_some.mp hstep
    simp only [Bool.and_eq_true, Bool.not_eq_true', decide_eq_true_eq] at hmay
    obtain ⟨l, hl, rfl⟩ := loopStep_eq hstep
    exact .post hmay.1 hmay.2 hl
  | thread a =>
    obtain ⟨hadmits, hstep⟩ := Option.ite_none_right_eq_some.mp hstep
    obtain ⟨s₁, hs₁, rfl⟩ := Option.map_eq_some_iff.mp hstep
    obtain ⟨t, ht, rfl⟩ := threadStep_eq hs₁
    exact .thread hadmits ht
  | service a =>
    obtain ⟨hadmits, hstep⟩ := Option.ite_none_right_eq_some.mp hstep
    obtain ⟨v, hv, rfl⟩ := serviceStep_eq hstep
    exact .service hadmits hv
  | loop a =>
    obtain ⟨hadmits, hstep⟩ := Option.ite_none_right_eq_some.mp hstep
    obtain ⟨s₁, hs₁, rfl⟩ := Option.map_eq_some_iff.mp hstep
    obtain ⟨l, hl, rfl⟩ := loopStep_eq hs₁
    exact .loop hadmits hl

end Inversion

section Members

/-- The steps of mThread are those of a WorkerThread. -/
theorem thread_part : Machine.Part (machine runner capacity) (WorkerThread.machine Unit Th)
    Machine.anyStep Machine.anyStep (fun s => s.mThread) where
  init s hinit := by
    obtain ⟨now, -, rfl⟩ := hinit
    rfl
  step s a s' _ _ hstep := by
    have hstep : step runner capacity s a = some s' := hstep
    cases step_moves hstep with
    | callThread _ ht => exact Or.inr ⟨.call _ _, trivial, ht⟩
    | callMsleep _ ht => exact Or.inr ⟨.call _ _, trivial, ht⟩
    | @thread a t _ ht =>
      obtain ⟨run, result, hfollow⟩ := follow_fields s { s with mThread := t } a
      rw [hfollow]
      exact Or.inr ⟨a, trivial, ht⟩
    | @«return» op m =>
      obtain ⟨c, started, hleave, -⟩ := leave_fields s op m
      rw [hleave]
      exact Or.inl rfl
    | @loop a l =>
      obtain ⟨posted, hhandle⟩ := handle_fields { s with mLoop := l } a
      rw [hhandle]
      exact Or.inl rfl
    | start | stop | callTimer | callService | shouldRun | slept | callRequest | requested | post
    | service => exact Or.inl rfl

/-- The steps of mService are those of a SampleService. -/
theorem service_part : Machine.Part (machine runner capacity) (SampleService.machine Th)
    Machine.anyStep Machine.anyStep (fun s => s.mService) where
  init s hinit := by
    obtain ⟨now, -, rfl⟩ := hinit
    exact ⟨now, rfl⟩
  step s a s' _ _ hstep := by
    have hstep : step runner capacity s a = some s' := hstep
    cases step_moves hstep with
    | @callService op v _ hv => exact Or.inr ⟨inService runner op, trivial, hv⟩
    | callRequest _ hv => exact Or.inr ⟨.request _ _, trivial, hv⟩
    | @service a v _ hv => exact Or.inr ⟨a, trivial, hv⟩
    | @thread a t =>
      obtain ⟨run, result, hfollow⟩ := follow_fields s { s with mThread := t } a
      rw [hfollow]
      exact Or.inl rfl
    | @«return» op m =>
      obtain ⟨c, started, hleave, -⟩ := leave_fields s op m
      rw [hleave]
      exact Or.inl rfl
    | @loop a l =>
      obtain ⟨posted, hhandle⟩ := handle_fields { s with mLoop := l } a
      rw [hhandle]
      exact Or.inl rfl
    | start | stop | callTimer | callThread | shouldRun | callMsleep | slept | requested | post =>
      exact Or.inl rfl

end Members

end CWrapper.App
