import CWrapper.WorkerEntries
import CWrapper.WorkerProgress

/-!
The one deadlock of a WorkerThread whose run() may call all functions. start() on the worker thread
waits for mLifecycleLock, which the thread has that waits in pthread_join for run() to return. Any
other thread that is blocked waits for one that is not.
-/
namespace CWrapper.WorkerThread

open Transition

variable {W Th : Type}

def Call.inRun : Call W Th → Bool
  | .lockLifecycle (.start _) | .load (.start _) | .start _ .claim | .unlock => true
  | c => c.byRun

/-- A thread in taskEntry is in no other function, but for what run() calls. -/
def State.RunCalls (s : State W Th) : Prop :=
  ∀ th, s.call th = .none ∨ s.task th = .none ∨
    (∃ w, s.task th = .run w) ∧ (s.call th).inRun = true

/-- run() is in start() while another thread joins the worker thread. -/
structure Deadlock (s : State W Th) (t h : Th) : Prop where
  run : ∃ w, s.task t = .run w
  start : ∃ w, s.call t = .lockLifecycle (.start w)
  lifecycle : s.mLifecycleLock = some h
  join : ∃ op, s.call h = .joinLocked op (.pthreadJoin (some t))

/-- pthread_join of a thread that has not been joined does not fail. -/
def State.joinSucceeds (s : State W Th) : Action W Th → Bool
  | .resume th .no =>
      match s.call th with
      | .joinLocked _ (.pthreadJoin (some id)) => (s.task id).isNone
      | _ => true
  | _ => true

variable [DecidableEq Th] {s s' : State W Th} {th t h : Th} {w : W} {answer : Answer Th}

section Calls

variable [DecidableEq W] {p : Phase W Th}

theorem Fits.run_state (h : Fits s p) (hth : s.task th = .run w) :
    s.mState = .running ∨ s.mState = .stopping := by
  have hcurrent := h.isCurrentThread hth
  rw [State.isCurrentThread, Bool.and_eq_true, Bool.or_eq_true, decide_eq_true_eq,
    decide_eq_true_eq] at hcurrent
  exact hcurrent.1

/-- What run() has called leads to its own points, or back to run(). -/
theorem Fits.inRun_next (h : Fits s p) (hth : s.task th = .run w) {c : Call W Th}
    (hc : c.inRun = true) (hstep : WorkerThread.callStep s th answer c = some s') :
    s'.call th = .none ∨ (s'.call th).inRun = true := by
  have hgoes {d : Call W Th} (hgoes : Goes s s' th d) (hd : d = .none ∨ d.inRun = true) :
      s'.call th = .none ∨ (s'.call th).inRun = true := by
    rwa [hgoes.call, Function.update_self]
  have hstate := h.run_state hth
  cases c with
  | none => cases hstep
  | isCurrentThread op =>
    obtain rfl := Option.some.inj hstep
    refine hgoes (d := op.decided true) ⟨?_, rfl⟩ ?_
    · rw [h.isCurrentThread hth]
      rfl
    · cases op with
      | start w => cases hc
      | stop => exact Or.inr rfl
      | join => exact Or.inl rfl
  | lockLifecycle op =>
    obtain ⟨-, hstep⟩ := Option.ite_none_right_eq_some.mp hstep
    obtain rfl := Option.some.inj hstep
    cases op with
    | start w => exact Or.inr (by simp [State.goto, Call.inRun])
    | stop | join => cases hc
  | load op =>
    obtain rfl := Option.some.inj hstep
    cases op with
    | start w =>
      refine hgoes (d := .start w .claim) ⟨?_, rfl⟩ (Or.inr rfl)
      obtain hrunning | hstopping := hstate
      · simp [State.goto, Operation.proceed, hrunning]
      · simp [State.goto, Operation.proceed, hstopping]
    | stop | join => cases hc
  | start w pt =>
    cases pt with
    | claim =>
      have hidle : s.mState ≠ .idle := by
        obtain hrunning | hstopping := hstate
        · simp [hrunning]
        · simp [hstopping]
      simp only [WorkerThread.callStep, WorkerThread.startStep, if_neg hidle] at hstep
      obtain rfl := Option.some.inj hstep
      exact hgoes (d := .unlock) ⟨rfl, rfl⟩ (Or.inr rfl)
    | prepare | handshake | cleanup => cases hc
  | requestStop k =>
    cases k with
    | user =>
      obtain ⟨c', hgo, rfl | ⟨w, rfl⟩⟩ := (callStep_does hstep).requestStop
      · exact hgoes hgo (Or.inl rfl)
      · exact hgoes hgo (Or.inr rfl)
    | stop => cases hc
  | onStopRequested k w pt =>
    obtain ⟨c', hgo, hc'⟩ := (callStep_does hstep).onStopRequested
    cases k with
    | start => cases hc
    | requestStop k =>
      cases k with
      | stop => cases hc
      | user =>
        obtain ⟨-, rfl⟩ | ⟨pt', rfl⟩ := hc'
        · exact hgoes hgo (Or.inl rfl)
        · exact hgoes hgo (Or.inr rfl)
  | joinLocked op pt => cases hc
  | unlock =>
    obtain rfl := Option.some.inj hstep
    exact Or.inl (Function.update_self ..)
  | msleep pt =>
    obtain ⟨c', hgo, rfl | ⟨pt', rfl⟩⟩ := (callStep_does hstep).msleep
    · exact hgoes hgo (Or.inl rfl)
    · exact hgoes hgo (Or.inr rfl)

theorem State.RunCalls.resume (hcalls : s.RunCalls) (hfits : Fits s p)
    (hstep : WorkerThread.step s (.resume th answer) = some s') : s'.RunCalls := by
  intro u
  obtain ⟨hnone, hcall, hne, t', htask⟩ | ⟨hne, hlocal⟩ := resume_cases hstep
  · rw [hcall]
    by_cases hu : u = th
    · exact Or.inl (hu ▸ hnone)
    · rw [htask, Function.update_of_ne hu]
      exact hcalls u
  · by_cases hu : u = th
    · subst hu
      obtain hsame | hnone | ⟨hnone, -⟩ := hlocal.task u
      · rw [hsame]
        obtain hcall | htask | ⟨⟨w, htask⟩, hrun⟩ := hcalls u
        · exact absurd hcall hne
        · exact Or.inr (Or.inl htask)
        · have hisNone : (s.call u).isNone = false := by
            rw [← Bool.not_eq_true, isNone_iff]
            exact hne
          obtain ⟨lock, hcallStep⟩ := callStep_of_resume hstep hisNone
          have hlocked : Fits { s with mStateLock := lock } p :=
            hfits.waits lock s.mStateCv s.mSleepCv s.mStopRequested s.mWakeupRequested
          have htask' : State.task { s with mStateLock := lock } u = .run w := htask
          obtain hcall | hcall := hlocked.inRun_next htask' hrun hcallStep
          · exact Or.inl hcall
          · exact Or.inr (Or.inr ⟨⟨w, htask⟩, hcall⟩)
      · exact Or.inr (Or.inl hnone)
      · exact absurd hnone hne
    · rw [hlocal.call u hu]
      obtain hsame | hnone | ⟨hnone, -⟩ := hlocal.task u
      · rw [hsame]
        exact hcalls u
      · exact Or.inr (Or.inl hnone)
      · exact Or.inl hnone

/-- A thread in taskEntry comes to be in a function by a call from run() only. -/
theorem State.RunCalls.step (hcalls : s.RunCalls) (hfits : Fits s p) (hwaits : Waits s)
    {a : Action W Th} (hstep : WorkerThread.step s a = some s') : s'.RunCalls := by
  have hmoves := step_moves hstep
  cases a with
  | resume th answer => exact hcalls.resume hfits hstep
  | lock th | wakeup th =>
    cases hmoves
    exact hcalls
  | call th e =>
    cases hmoves with
    | call _ hmay =>
    intro u
    by_cases hu : u = th
    · subst hu
      simp only [State.goto, Function.update_self]
      cases htask : s.task u with
      | none => exact Or.inr (Or.inl rfl)
      | run w => exact Or.inr (Or.inr ⟨⟨w, rfl⟩, by cases e <;> rfl⟩)
      | entry | await | released | exit | exited =>
        rw [htask] at hmay
        cases hmay
    · simp only [State.goto, Function.update_of_ne hu]
      exact hcalls u
  | expire th =>
    cases hmoves with
    | expire hasleep =>
    intro u
    by_cases hu : u = th
    · subst hu
      simp only [State.goto, Function.update_self]
      obtain hcall | htask | ⟨htask, -⟩ := hcalls u
      · rw [(hwaits.sleep u hasleep).1] at hcall
        cases hcall
      · exact Or.inr (Or.inl htask)
      · exact Or.inr (Or.inr ⟨htask, rfl⟩)
    · simp only [State.goto, Function.update_of_ne hu]
      exact hcalls u

/-- What a thread in taskEntry is in, run() has called. -/
theorem calls_reachable (hs : (machine W Th).Reachable Machine.anyStep s) : s.RunCalls := by
  refine Machine.Invariant.reachable (J := fun s => (∃ p, Fits s p) ∧ Waits s)
    (I := State.RunCalls) ⟨?_, ?_⟩ (fun s => fits_and_waits) hs
  · intro s hinit th
    obtain rfl : s = WorkerThread.start := hinit
    exact Or.inl rfl
  · intro s a s' _ hJ hstep hcalls
    obtain ⟨⟨p, hfits⟩, hwaits⟩ := hJ
    exact hcalls.step hfits hwaits hstep

end Calls

section Waiting

omit [DecidableEq Th] in
/-- The worker thread is blocked in start() only, once start() has released it. -/
theorem worker_blocked (hwaits : Waits s) (hcalls : s.RunCalls) (hlock : s.mStateLock = none)
    (htask : (s.task th).ended = false) (hreleased : s.task th = .await → s.mStartReleased = true)
    (hblocked : Blocked s th) :
    (∃ w, s.task th = .run w) ∧ ∃ w, s.call th = .lockLifecycle (.start w) := by
  have hrun {c : Call W Th} (hcall : s.call th = c) (hc : c.isNone = false) :
      (∃ w, s.task th = .run w) ∧ c.inRun = true := by
    obtain hnone | hnone | hrun := hcalls th
    · rw [← hcall, hnone] at hc
      cases hc
    · rw [hnone] at htask
      cases htask
    · rwa [hcall] at hrun
  obtain hawaits | ⟨op, holder, hcall, -⟩ | ⟨op, threadId, hcall, -⟩ :=
    hblocked.waits_for hwaits hlock
  · cases hawaits with
    | ready hcall _ | callbacks hcall _ => cases (hrun hcall rfl).2
    | released _ hth hfalse =>
      rw [hreleased hth] at hfalse
      cases hfalse
  · obtain ⟨htask, hop⟩ := hrun hcall rfl
    cases op with
    | start w => exact ⟨htask, w, hcall⟩
    | stop | join => cases hop
  · cases (hrun hcall rfl).2

variable [DecidableEq W] {p : Phase W Th}

/-- When the holder of mLifecycleLock is blocked, the thread it waits for is not, or is in
start(). -/
theorem Fits.holder_waits (h : Fits s p) (hwaits : Waits s) (hcalls : s.RunCalls)
    (hlock : s.mStateLock = none) (hlifecycle : s.mLifecycleLock = some th)
    (hblocked : Blocked s th) :
    (∃ th', s.inside th' = true ∧ ¬ Blocked s th') ∨ ∃ t, Deadlock s t th := by
  obtain ⟨n, k, w, pt, hcall⟩ | ⟨t, hended, hreleased, hjoined⟩ :=
    h.holder_waits_for hwaits hlock ((h.agrees.lifecycle th).mpr hlifecycle) hblocked
  · exact Or.inl ⟨n, deliverer_goes_on hwaits hlock hcall⟩
  · by_cases ht : Blocked s t
    · obtain ⟨hrun, hstart⟩ := worker_blocked hwaits hcalls hlock hended hreleased ht
      obtain hentry | hjoin := hjoined
      · obtain ⟨w, hrun⟩ := hrun
        rw [hentry] at hrun
        cases hrun
      · exact Or.inr ⟨t, hrun, hstart, hlifecycle, hjoin⟩
    · exact Or.inl ⟨t, inside_of_task hended, ht⟩

/-- A thread that is not blocked, or the deadlock. -/
theorem free_or_deadlock (hs : (machine W Th).Reachable Machine.anyStep s)
    (hin : s.inside th = true) :
    (∃ th', s.inside th' = true ∧ ¬ Blocked s th') ∨ ∃ t h, Deadlock s t h := by
  obtain ⟨⟨p, hfits⟩, hwaits⟩ := fits_and_waits hs
  obtain hfree | ⟨hlock, holder, hlifecycle, hblocked⟩ := hfits.free_or_holder hwaits hin
  · exact Or.inl hfree
  · obtain hfree | ⟨t, hdead⟩ :=
      hfits.holder_waits hwaits (calls_reachable hs) hlock hlifecycle hblocked
    · exact Or.inl hfree
    · exact Or.inr ⟨t, holder, hdead⟩

end Waiting

section Deadlock

omit [DecidableEq Th] in
/-- start() waits for mLifecycleLock, and its holder waits for the thread that is in start(). -/
theorem Deadlock.blocked (hdead : Deadlock s t h) : Blocked s t ∧ Blocked s h := by
  obtain ⟨⟨w, hrun⟩, ⟨w', hstart⟩, hlifecycle, op, hjoin⟩ := hdead
  refine ⟨.lifecycleLock hstart hlifecycle, .pthreadJoin hjoin fun id hid hexited => ?_⟩
  obtain rfl := Option.some.inj hid
  rw [hrun] at hexited
  cases hexited

/-- Neither of the two threads can take a step. -/
theorem Deadlock.no_resume (hdead : Deadlock s t h) (hstep : step s (.resume th answer) = some s')
    (hok : s.joinSucceeds (.resume th answer) = true) : th ≠ t ∧ th ≠ h := by
  obtain ⟨⟨w, hrun⟩, ⟨w', hstart⟩, hlifecycle, op, hjoin⟩ := hdead
  refine ⟨fun heq => ?_, fun heq => ?_⟩
  · obtain ⟨lock, hcall⟩ := callStep_of_resume hstep (by rw [heq, hstart]; rfl)
    rw [heq, hstart] at hcall
    obtain ⟨hnone, -⟩ := Option.ite_none_right_eq_some.mp hcall
    have hheld : s.mLifecycleLock.isNone = true := hnone
    rw [hlifecycle] at hheld
    cases hheld
  · obtain ⟨lock, hcall⟩ := callStep_of_resume hstep (by rw [heq, hjoin]; rfl)
    rw [heq, hjoin] at hcall
    cases answer with
    | yes =>
      simp only [callStep, joinLockedStep, hrun] at hcall
      cases hcall
    | no =>
      simp only [State.joinSucceeds, heq, hjoin, hrun, Task.isNone] at hok
      cases hok
    | thread id => cases hcall

variable [DecidableEq W] {p p' : Phase W Th}

/-- The two wait for one another, so that no step but a failing pthread_join ends it. -/
theorem Deadlock.step (hdead : Deadlock s t h) (hwaits : Waits s) (hfits : Fits s' p')
    {a : Action W Th} (hok : s.joinSucceeds a = true) (hstep : step s a = some s') :
    Deadlock s' t h := by
  have hdead' := hdead
  obtain ⟨⟨w, hrun⟩, ⟨w', hstart⟩, hlifecycle, op, hjoin⟩ := hdead
  have hkept (hcallt : s'.call t = s.call t) (hcallh : s'.call h = s.call h)
      (htask : s'.task t = s.task t ∨ s'.task t = .none) : Deadlock s' t h := by
    rw [hjoin] at hcallh
    have hlock' := (hfits.agrees.lifecycle h).mp (by rw [hcallh]; rfl)
    refine ⟨?_, ⟨w', hcallt.trans hstart⟩, hlock', op, hcallh⟩
    obtain hsame | hnone := htask
    · exact ⟨w, hsame.trans hrun⟩
    · -- pthread_join is for the thread of a session
      have hjoins := hfits.agrees.joining h (some t) (by rw [hcallh]; rfl)
      obtain rfl | ⟨w', t', r, stop, rfl⟩ :=
        hfits.idle_or_live h (by rw [hcallh]; rfl) (by rw [hcallh]; rfl)
      · cases hjoins
      · obtain rfl : t' = t := Option.some.inj (Option.some.inj hjoins)
        have hr : r = .none := by
          rw [hfits.task] at hnone
          simpa [Phase.task] using hnone
        obtain ⟨-, -, hr' | hr' | hr' | hr' | hr'⟩ := hfits.handshake <;> rw [hr] at hr' <;>
          cases hr'
  have hstay {u : Th} (hnone : s.call u ≠ s.call t ∧ s.call u ≠ s.call h) : t ≠ u ∧ h ≠ u := by
    refine ⟨fun heq => hnone.1 (by rw [heq]), fun heq => hnone.2 (by rw [heq])⟩
  have hmoves := step_moves hstep
  cases a with
  | call u e =>
    cases hmoves with
    | call hnone _ =>
    obtain ⟨ht, hh⟩ := hstay (u := u) (by rw [hnone, hstart, hjoin]; simp)
    exact hkept (Function.update_of_ne ht ..) (Function.update_of_ne hh ..) (Or.inl rfl)
  | lock u | wakeup u =>
    cases hmoves
    exact hkept rfl rfl (Or.inl rfl)
  | resume u answer =>
    obtain ⟨ht, hh⟩ := hdead'.no_resume hstep hok
    obtain ⟨-, hcall, -, t', htask⟩ | ⟨-, hlocal⟩ := resume_cases hstep
    · exact hkept (by rw [hcall]) (by rw [hcall])
        (Or.inl (by rw [htask, Function.update_of_ne ht.symm]))
    · refine hkept (hlocal.call t ht.symm) (hlocal.call h hh.symm) ?_
      obtain hsame | hnone | ⟨hnone, -⟩ := hlocal.task t
      · exact Or.inl hsame
      · exact Or.inr hnone
      · rw [hstart] at hnone
        cases hnone
  | expire u =>
    cases hmoves with
    | expire hasleep =>
    obtain ⟨ht, hh⟩ := hstay (u := u) (by
      rw [(hwaits.sleep u hasleep).1, hstart, hjoin]
      simp)
    exact hkept (Function.update_of_ne ht ..) (Function.update_of_ne hh ..) (Or.inl rfl)

/-- The two threads stay where they are. -/
theorem Deadlock.path (hdead : Deadlock s t h) (hs : (machine W Th).Reachable Machine.anyStep s)
    {as : List (Action W Th)}
    (hpath : (machine W Th).Path (fun s a => s.joinSucceeds a = true) s as s') :
    Deadlock s' t h := by
  induction hpath with
  | nil s => exact hdead
  | cons hok hstep _ ih =>
    have hs' := hs.step trivial hstep
    obtain ⟨⟨p', hfits⟩, -⟩ := fits_and_waits hs'
    exact ih (hdead.step (fits_and_waits hs).2 hfits hok hstep) hs'

/-- While a thread is in a WorkerThread, one of them is not blocked and can take a step, or run() is
in start() while another thread joins the worker thread; and then the two are blocked for ever. -/
theorem only_deadlock (hs : (machine W Th).Reachable Machine.anyStep s) :
    (∀ th, s.inside th = true →
      (∃ th', s.inside th' = true ∧ ¬ Blocked s th' ∧ s.canStep th') ∨ ∃ t h, Deadlock s t h) ∧
    ∀ t h, Deadlock s t h → Blocked s t ∧ Blocked s h ∧
      ∀ as s', (machine W Th).Path (fun s a => s.joinSucceeds a = true) s as s' →
        Deadlock s' t h := by
  refine ⟨fun th hin => ?_, fun t h hdead => ⟨hdead.blocked.1, hdead.blocked.2, ?_⟩⟩
  · obtain ⟨th', hin', hfree⟩ | hdead := free_or_deadlock hs hin
    · exact Or.inl ⟨th', hin', hfree, canStep_of_not_blocked hin' hfree⟩
    · exact Or.inr hdead
  · intro as s' hpath
    exact hdead.path hs hpath

/-- run() calls start() on the worker thread `true`, while `false` stops it. -/
def restarting : State Bool Bool :=
  (machine Bool Bool).after Machine.anyStep start
    (started ++ inLock true ++ [.resume true .yes, .call true (.start true), .call false .stop] ++
      inLock false ++ [.resume false .yes] ++ inLock false ++
      [.resume false .yes, .resume false .yes] ++ inLock false ++ [.resume false .yes] ++
      inLock false)

theorem only_deadlock_restarting : Deadlock restarting true false ∧
    Blocked restarting true ∧ Blocked restarting false ∧
    ∀ as s', (machine Bool Bool).Path (fun s a => s.joinSucceeds a = true) restarting as s' →
      Deadlock s' true false := by
  have hs : (machine Bool Bool).Reachable Machine.anyStep restarting :=
    Machine.reachable_after rfl (by decide +kernel)
  have hdead : Deadlock restarting true false :=
    ⟨⟨true, rfl⟩, ⟨true, rfl⟩, by decide +kernel, .stop, rfl⟩
  exact ⟨hdead, (only_deadlock hs).2 true false hdead⟩

end Deadlock

end CWrapper.WorkerThread
