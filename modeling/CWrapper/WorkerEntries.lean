import CWrapper.WorkerCalls

/-!
What a step of one thread does to the others: it leaves their calls alone, and their tasks unless it
makes a thread in pthread_create or joins one. A thread that is in a function of WorkerThread stays
in it until it returns, and it comes and goes in run() by its own steps in taskEntry only.
-/
namespace CWrapper.WorkerThread

open Transition

variable {W Th : Type}

def Entry.reaches : Entry W → Call W Th → Bool
  | .start _, c =>
      match c with
      | .lockLifecycle (.start _) | .load (.start _) | .start _ _ | .onStopRequested .start _ _ |
        .joinLocked (.start _) _ | .unlock => true
      | _ => false
  | .stop, c =>
      match c with
      | .isCurrentThread .stop | .lockLifecycle .stop | .load .stop | .requestStop _ |
        .onStopRequested (.requestStop _) _ _ | .joinLocked .stop _ | .unlock => true
      | _ => false
  | .requestStop, c =>
      match c with
      | .requestStop .user | .onStopRequested (.requestStop .user) _ _ => true
      | _ => false
  | .join, c =>
      match c with
      | .isCurrentThread .join | .lockLifecycle .join | .load .join | .joinLocked .join _ |
        .unlock => true
      | _ => false
  | .msleep, c =>
      match c with
      | .msleep _ => true
      | _ => false

inductive TaskFrame [DecidableEq Th] (s s' : State W Th) (th : Th) (answer : Answer Th) : Prop
  | same (htask : s'.task = s.task)
  | joined {id : Th} (hexited : s.task id = .exited)
      (htask : s'.task = Function.update s.task id .none)
  | created {id : Th} (hcreates : (s.call th).creates answer = some id)
      (hnone : s.call id = .none ∧ s.task id = .none)
      (htask : s'.task = Function.update s.task id .entry)

variable [DecidableEq Th] {s s' : State W Th} {th u : Th} {answer : Answer Th}

section Frames

structure Local (s s' : State W Th) (th : Th) (answer : Answer Th) : Prop where
  call : ∀ u, u ≠ th → s'.call u = s.call u
  task : ∀ u, s'.task u = s.task u ∨ s'.task u = .none ∨ s.call u = .none ∧ answer = .thread u

theorem Goes.isLocal {c : Call W Th} (h : Goes s s' th c) : Local s s' th answer where
  call u hu := by rw [h.call, Function.update_of_ne hu]
  task u := Or.inl (by rw [h.task])

/-- A step in a call moves its own thread, and of taskEntry the thread that it creates or joins. -/
theorem CallDoes.isLocal {c : Call W Th} (h : CallDoes s th answer c s') :
    Local s s' th answer := by
  cases h with
  | create w id hanswer hid _ =>
    refine ⟨fun u hu => Function.update_of_ne hu .., fun u => ?_⟩
    by_cases heq : u = id
    · rw [heq]
      exact Or.inr (Or.inr ⟨hid, hanswer⟩)
    · exact Or.inl (Function.update_of_ne heq ..)
  | join op id _ _ =>
    refine ⟨fun u hu => Function.update_of_ne hu .., fun u => ?_⟩
    by_cases heq : u = id
    · rw [heq]
      exact Or.inr (Or.inl (Function.update_self ..))
    · exact Or.inl (Function.update_of_ne heq ..)
  | handshakeStop | stop =>
    obtain ⟨c, hgoes, -⟩ := notify_goes _ th _
    exact Goes.isLocal (c := c) ⟨hgoes.call, hgoes.task⟩
  | goes | logs | resets | acquire | release | claim | handshakeBlock | handshakeRun | request
  | delivered | joinBlock | take | sleepBlock | sleepEnd =>
    exact Goes.isLocal ⟨rfl, rfl⟩

/-- The worker thread goes on in taskEntry, or leaves run(). -/
theorem TaskDoes.next {t : Task W} (ht : s.task th = t) (h : TaskDoes s th t s') :
    s'.call = s.call ∧ s.task th ≠ .none ∧ ∃ t', s'.task = Function.update s.task th t' := by
  cases h with
  | entry | await =>
    refine ⟨?_, by rw [ht]; simp, ?_⟩
    · unfold awaitRelease
      split <;> rfl
    · unfold awaitRelease
      split <;> exact ⟨_, rfl⟩
  | skip | exit => exact ⟨rfl, by rw [ht]; simp, _, rfl⟩
  | run hlogs => exact ⟨rfl, by rw [ht]; exact hlogs.inTask.1, _, rfl⟩

/-- A thread goes on in taskEntry, or in the call that it is in. -/
theorem resume_cases (hstep : step s (.resume th answer) = some s') :
    s.call th = .none ∧ s'.call = s.call ∧ s.task th ≠ .none ∧
        (∃ t', s'.task = Function.update s.task th t') ∨
      s.call th ≠ .none ∧ Local s s' th answer := by
  by_cases hcall : s.call th = .none
  · obtain ⟨lock, hdoes⟩ := taskDoes_of_resume hstep hcall
    exact Or.inl ⟨hcall, TaskDoes.next (s := { s with mStateLock := lock }) rfl hdoes⟩
  · have hisNone : (s.call th).isNone = false := by
      rw [← Bool.not_eq_true, isNone_iff]
      exact hcall
    obtain ⟨lock, hdoes⟩ := callDoes_of_resume hstep hisNone
    exact Or.inr ⟨hcall, hdoes.isLocal.call, hdoes.isLocal.task⟩

/-- A thread comes to be in taskEntry when pthread_create has made it. -/
theorem step_task {a : Action W Th} (hstep : step s a = some s') (hu : s.task u = .none) :
    s'.task u = .none ∨ ∃ th, a = .resume th (.thread u) := by
  have hmoves := step_moves hstep
  cases a with
  | call | lock | wakeup | expire =>
    cases hmoves
    exact Or.inl hu
  | resume th answer =>
    obtain ⟨-, -, hne, t', htask⟩ | ⟨-, hlocal⟩ := resume_cases hstep
    · have hother : u ≠ th := by
        intro heq
        exact hne (heq ▸ hu)
      exact Or.inl (by rw [htask, Function.update_of_ne hother, hu])
    · obtain hsame | hnone | ⟨-, rfl⟩ := hlocal.task u
      · exact Or.inl (hsame.trans hu)
      · exact Or.inl hnone
      · exact Or.inr ⟨th, rfl⟩

end Frames

section Points

variable {e : Entry W} {c c' : Call W Th}

theorem goto_call_self (s : State W Th) (th : Th) (c : Call W Th) : (s.goto th c).call th = c :=
  Function.update_self ..

theorem Leads.reaches (h : Leads s th answer c c') (he : e.reaches c = true) :
    c' = .none ∨ e.reaches c' = true := by
  cases h with
  | isCurrentThread op =>
    cases s.isCurrentThread th <;> cases op <;> cases e <;> simp_all [Operation.decided,
      Entry.reaches]
  | load op =>
    refine Or.inr ?_
    cases op <;> cases e <;> cases he <;>
    · simp only [Operation.proceed]
      split <;> rfl
  | request k _ =>
    cases k <;> cases e <;> first | exact Or.inl rfl | exact Or.inr rfl | cases he
  | readNone op _ | joinFails op _ _ =>
    cases op <;> cases e <;> first | exact Or.inr rfl | cases he
  | read op _ _ | noWorker op _ _ => exact Or.inr (by cases op <;> cases e <;> exact he)
  | claim | attrInit => exact Or.inr (by cases e <;> first | rfl | cases he)
  | msleep _ => exact Or.inl rfl

omit [DecidableEq Th] in
theorem Logs.reaches {ev : Event W Th} (h : Logs answer c ev c') (he : e.reaches c = true) :
    e.reaches c' = true := by
  cases h with
  | stopBegin k w | stopEnd k w =>
    cases k with
    | start => cases e <;> exact he
    | requestStop k => cases k <;> cases e <;> exact he
  | cleanupBegin op w | cleanupEnd op w => cases op <;> cases e <;> exact he
  | attrInitFailed | prepareBegin | prepared | prepareFailed | createFailed | failedBegin
  | failedEnd => cases e <;> first | rfl | cases he

omit [DecidableEq Th] in
theorem Resets.reaches (h : Resets c c') (he : e.reaches c = true) : e.reaches c' = true := by
  cases h with
  | failed w | refused w => cases e <;> first | rfl | cases he
  | join op => cases op <;> cases e <;> first | rfl | cases he

/-- A call stays in its function until it returns. -/
theorem CallDoes.next (hcall : s.call th = c) (he : e.reaches c = true)
    (h : CallDoes s th answer c s') :
    (s'.call th = .none ∨ e.reaches (s'.call th) = true) ∧ TaskFrame s s' th answer := by
  have hgoes {d : Call W Th} (hgoes : Goes s s' th d) (hd : d = .none ∨ e.reaches d = true) :
      (s'.call th = .none ∨ e.reaches (s'.call th) = true) ∧ TaskFrame s s' th answer := by
    refine ⟨?_, .same hgoes.task⟩
    rw [hgoes.call, Function.update_self]
    exact hd
  cases h with
  | goes hleads => exact hgoes ⟨rfl, rfl⟩ (hleads.reaches he)
  | logs hlogs => exact hgoes ⟨rfl, rfl⟩ (Or.inr (hlogs.reaches he))
  | resets hresets => exact hgoes ⟨rfl, rfl⟩ (Or.inr (hresets.reaches he))
  | acquire op _ =>
    exact hgoes ⟨rfl, rfl⟩ (Or.inr (by cases op <;> cases e <;> first | rfl | cases he))
  | create w id hanswer hid htask =>
    refine ⟨Or.inr ?_, .created (by rw [hcall, hanswer]; rfl) ⟨hid, htask⟩ rfl⟩
    rw [goto_call_self]
    cases e <;> first | rfl | cases he
  | join op id _ hexited =>
    refine ⟨Or.inr ?_, .joined hexited rfl⟩
    rw [goto_call_self]
    cases op <;> cases e <;> exact he
  | handshakeStop w createdId =>
    obtain ⟨d, hgo, hd⟩ := notify_goes (({ s.stored createdId with
      mState := .stopping
      mStartReleased := true
      mWakeupRequested := true }.emit .stopping).broadcastSleep.broadcastState) th .start
    refine hgoes ⟨hgo.call, hgo.task⟩ (Or.inr ?_)
    obtain rfl | ⟨w', rfl⟩ := hd
    · cases e <;> first | rfl | cases he
    · cases e <;> first | rfl | cases he
  | request k _ =>
    refine hgoes ⟨rfl, rfl⟩ ?_
    cases k <;> cases e <;> first | exact Or.inl rfl | exact Or.inr rfl | cases he
  | stop k _ =>
    obtain ⟨d, hgo, hd⟩ := notify_goes ((({ s with
      mStopRequested := true
      mWakeupRequested := true
      mState := .stopping }.emit .stopping).broadcastState.broadcastSleep)) th (.requestStop k)
    refine hgoes ⟨hgo.call, hgo.task⟩ ?_
    obtain rfl | ⟨w, rfl⟩ := hd
    · cases k <;> cases e <;> first | exact Or.inl rfl | exact Or.inr rfl | cases he
    · cases k <;> cases e <;> first | exact Or.inr rfl | cases he
  | delivered k w =>
    refine hgoes ⟨rfl, rfl⟩ ?_
    cases k with
    | start => cases e <;> first | exact Or.inr rfl | cases he
    | requestStop k =>
      cases k <;> cases e <;> first | exact Or.inl rfl | exact Or.inr rfl | cases he
  | joinBlock op _ | take op w _ _ =>
    exact hgoes ⟨rfl, rfl⟩ (Or.inr (by cases op <;> cases e <;> exact he))
  | release | sleepEnd => exact hgoes ⟨rfl, rfl⟩ (Or.inl rfl)
  | claim | handshakeBlock | handshakeRun =>
    exact hgoes ⟨rfl, rfl⟩ (Or.inr (by cases e <;> first | rfl | cases he))
  | sleepBlock => exact hgoes ⟨rfl, rfl⟩ (Or.inr (by cases e <;> exact he))

end Points

/-- The worker thread enters run() when it has been released with a worker. -/
theorem TaskDoes.enters {t : Task W} (h : TaskDoes s th t s') :
    (∃ w, s'.task th = .run w) ↔ ∃ w, t = .released (some w) := by
  cases h with
  | entry | await =>
    unfold awaitRelease
    split <;> simp [State.gotoTask]
  | skip | exit => simp [State.gotoTask]
  | run hlogs => cases hlogs <;> simp [State.gotoTask]

end CWrapper.WorkerThread
