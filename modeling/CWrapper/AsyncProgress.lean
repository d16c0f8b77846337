import CWrapper.AsyncTask
import CWrapper.Transition
import CWrapper.WorkerAnswers

/-!
The threads in AsyncThread and in its mThreadEngine never all block each other. mThreadEngine has a
thread that is not blocked while anybody is in it; where nobody is, the holder of mLifecycleLock
goes on.
-/
namespace CWrapper.AsyncThread

open Transition WorkerThread

variable {K Th : Type}

def State.inside (s : State K Th) (th : Th) : Bool :=
  !(s.call th).isNone || s.mThreadEngine.inside th

/-- The thread cannot go on before another one has. -/
inductive Blocked (s : State K Th) (th : Th) : Prop
  | lifecycleLock {op : Operation K} {holder : Th} : s.call th = .lockLifecycle op →
      s.mLifecycleLock = some holder → Blocked s th
  | engine : WorkerThread.Blocked s.mThreadEngine th → Blocked s th

/-- The next step of this thread, in a call that it has made or in run(). -/
def Action.isBy [DecidableEq Th] (th : Th) : Action K Th → Bool
  | .resume u | .run u | .engine (.lock u) | .engine (.resume u _) | .engine (.expire u) => u = th
  | _ => false

variable [DecidableEq Th] {s : State K Th} {th : Th}

def State.canStep (s : State K Th) (th : Th) : Prop :=
  ∃ a : Action K Th, a.isBy th = true ∧ (step s a).isSome = true

section Engine

/-- The steps of mThreadEngine obey what its user has promised: run() does not call start(). -/
theorem engine_part : Machine.Part (machine K Th) (WorkerThread.machine Unit Th) Machine.anyStep
    (fun e a => e.runObeys a = true) (fun s => s.mThreadEngine) where
  init s hinit := by
    obtain rfl : s = start := hinit
    rfl
  step s a s' hs _ hstep := by
    have horderly := orderly_reachable hs
    have hstep : step s a = some s' := hstep
    cases step_moves hstep with
    | start | stop => exact Or.inl rfl
    | run hstep =>
      obtain ⟨run, new, rfl, -⟩ := runStep_fields hstep
      exact Or.inl rfl
    | @resume _ th hstep =>
      obtain hsame | ⟨entry, he⟩ := (callStep_moves hstep).engine
      · exact Or.inl hsame
      · refine Or.inr ⟨.call th entry, ?_, he⟩
        have hne : s.call th ≠ .none := by
          intro hnone
          rw [hnone] at hstep
          cases hstep
        cases entry with
        | start w => exact task_isNone_iff.mpr (horderly.outside th hne)
        | stop | requestStop | join | msleep => rfl
    | @engine a e hadmits he =>
      obtain ⟨call, run, session, new, hobserve⟩ :=
        observe_fields s { s with mThreadEngine := e } a
      rw [hobserve]
      refine Or.inr ⟨a, ?_, he⟩
      cases a with
      | call th entry =>
        cases entry with
        | start w => cases hadmits
        | stop | requestStop | join | msleep => rfl
      | lock | resume | wakeup | expire => rfl

end Engine

section Steps

/-- The answer that can always be given may be given here. -/
theorem admits_answerAt (hcall : (s.mThreadEngine.call th).isNone = false) :
    s.admits (.resume th (answerAt (s.mThreadEngine.call th))) = true := by
  simp only [State.admits]
  split
  · rename_i hec
    rw [hec] at hcall
    cases hcall
  · rename_i hanswer
    exact absurd hanswer (answerAt_ne_thread _ _)
  · rename_i hec hanswer
    rw [hec] at hanswer
    cases hanswer
  · rename_i hec hanswer
    rw [hec] at hanswer
    cases hanswer
  · rfl

/-- A thread that mThreadEngine lets go on can take that step here too. -/
theorem engine_isSome {a : WorkerThread.Action Unit Th} (hadmits : s.admits a = true)
    (hsome : (WorkerThread.step s.mThreadEngine a).isSome = true) :
    (step s (.engine a)).isSome = true := by
  obtain ⟨e, he⟩ := Option.isSome_iff_exists.mp hsome
  simp [step, hadmits, State.engineStep, he]

/-- A step of the thread itself, other than a pthread_create that makes a thread. -/
def State.advances (s : State K Th) (th : Th) (a : Action K Th) : Prop :=
  a.isBy th = true ∧ (∀ u id, a ≠ .engine (.resume u (.thread id))) ∧ (step s a).isSome = true

/-- A thread that is not blocked in mThreadEngine goes on there. In taskEntry it does so outside
run(), or when it leaves run(). -/
theorem advances_of_engine (hin : s.mThreadEngine.inside th = true)
    (hfree : ¬ WorkerThread.Blocked s.mThreadEngine th)
    (hleave : s.mThreadEngine.call th = .none → s.run th = .outside ∨ s.run th = .leave) :
    ∃ a, s.advances th a := by
  obtain hlock | hresume | hexpire := goes_on_answerAt hin hfree
  · exact ⟨.engine (.lock th), by simp [Action.isBy], by simp, engine_isSome rfl hlock⟩
  · refine ⟨.engine (.resume th (answerAt (s.mThreadEngine.call th))), by simp [Action.isBy],
      fun u id heq => ?_, engine_isSome ?_ hresume⟩
    · injection heq with heq
      injection heq with _ heq
      exact answerAt_ne_thread _ id heq
    · cases hcall : (s.mThreadEngine.call th).isNone with
      | false => exact admits_answerAt hcall
      | true =>
        have hec := isNone_iff.mp hcall
        simpa [State.admits, hec] using hleave hec
  · exact ⟨.engine (.expire th), by simp [Action.isBy], by simp, engine_isSome rfl hexpire⟩

end Steps

section Progress

/-- A thread in start() or stop() that is in no function of mThreadEngine. -/
theorem callStep_isSome_of_free (hs : (machine K Th).Reachable Machine.anyStep s)
    (hcall : (s.call th).isNone = false) (hec : s.mThreadEngine.call th = .none)
    (hfree : ¬ Blocked s th) : (callStep s th (s.call th)).isSome = true := by
  have hout : s.mThreadEngine.task th = .none := by
    refine (orderly_reachable hs).outside th fun hnone => ?_
    rw [hnone] at hcall
    cases hcall
  have hmay : ((s.mThreadEngine.call th).isNone && (s.mThreadEngine.task th).mayCall) = true := by
    rw [hec, hout]
    rfl
  cases hc : s.call th with
  | none =>
    rw [hc] at hcall
    cases hcall
  | isCurrentThread op =>
    simp [AsyncThread.callStep, assert_if_holds hs hc]
  | lockLifecycle op =>
    have hlock : s.mLifecycleLock = none := by
      by_contra hheld
      obtain ⟨holder, hholder⟩ := Option.ne_none_iff_exists'.mp hheld
      exact hfree (.lifecycleLock hc hholder)
    simp [AsyncThread.callStep, hlock]
  | shouldRun callback =>
    simp only [AsyncThread.callStep]
    split <;> rfl
  | callStop op | callStart callback =>
    simp only [AsyncThread.callStep, State.engineStep, Option.isSome_map, WorkerThread.step]
    exact Option.isSome_of_eq_some (if_pos hmay)
  | stopping op | starting callback result =>
    simp [AsyncThread.callStep, hec, WorkerThread.Call.isNone]
  | assign callback | unlock op result => rfl

/-- A thread that is not blocked can go on. -/
theorem goes_on (hs : (machine K Th).Reachable Machine.anyStep s) (hin : s.inside th = true)
    (hfree : ¬ Blocked s th) : ∃ a, s.advances th a := by
  have hengine : ¬ WorkerThread.Blocked s.mThreadEngine th := fun hblocked =>
    hfree (.engine hblocked)
  have hsessions := sessions_reachable hs
  cases hec : (s.mThreadEngine.call th).isNone with
  | false =>
    have hne : s.mThreadEngine.call th ≠ .none := by
      intro hnone
      rw [hnone] at hec
      cases hec
    exact advances_of_engine (inside_of_call hec) hengine fun hnone => absurd hnone hne
  | true =>
    have hnone := isNone_iff.mp hec
    cases hcall : (s.call th).isNone with
    | false =>
      exact ⟨.resume th, by simp [Action.isBy], by simp,
        callStep_isSome_of_free hs hcall hnone hfree⟩
    | true =>
      have hinside : s.mThreadEngine.inside th = true := by simpa [State.inside, hcall] using hin
      have htask : s.mThreadEngine.task th ≠ .none := by
        intro htask
        simp [WorkerThread.State.inside, hec, htask, Task.ended] at hinside
      have hrun (hpt : s.run th ≠ .outside ∧ s.run th ≠ .leave) : ∃ a, s.advances th a := by
        refine ⟨.run th, by simp [Action.isBy], by simp, ?_⟩
        simp only [step]
        cases hpoint : s.run th with
        | outside => exact absurd hpoint hpt.1
        | leave => exact absurd hpoint hpt.2
        | test | invoke => rfl
        | inside => simp [runStep, hec]
      by_cases hleave : s.run th = .outside ∨ s.run th = .leave
      · exact advances_of_engine hinside hengine fun _ => hleave
      · rw [not_or] at hleave
        exact hrun hleave

theorem not_blocked_of_engine (hs : (machine K Th).Reachable Machine.anyStep s)
    (hin : s.mThreadEngine.inside th = true) (hfree : ¬ WorkerThread.Blocked s.mThreadEngine th) :
    ¬ Blocked s th := by
  intro hblocked
  cases hblocked with
  | engine hengine => exact hfree hengine
  | lifecycleLock hcall _ =>
    have horderly := orderly_reachable hs
    have htask := horderly.outside th (by rw [hcall]; simp)
    obtain ⟨ec, vacant, events, hec, hst, -⟩ := horderly.standing hcall
    cases hst
    simp [WorkerThread.State.inside, hec, htask, WorkerThread.Call.isNone, Task.ended] at hin

/-- While a thread is in an AsyncThread, one of them is not blocked. -/
theorem free_thread (hs : (machine K Th).Reachable Machine.anyStep s) (hin : s.inside th = true) :
    ∃ th', s.inside th' = true ∧ ¬ Blocked s th' := by
  by_cases hengine : ∃ u, s.mThreadEngine.inside u = true
  · obtain ⟨u, hu⟩ := hengine
    obtain ⟨th', hin', hfree⟩ := free_of_inside (engine_part.reachable hs) hu
    refine ⟨th', ?_, not_blocked_of_engine hs hin' hfree⟩
    rw [State.inside, hin', Bool.or_true]
  · have hout (u : Th) : s.mThreadEngine.inside u = false := by
      rw [← Bool.not_eq_true]
      exact fun hu => hengine ⟨u, hu⟩
    have hengineFree (u : Th) : ¬ WorkerThread.Blocked s.mThreadEngine u := by
      intro hblocked
      have hu := inside_of_blocked (fits_and_waits_engine hs).2 hblocked
      rw [hout u] at hu
      cases hu
    cases hlock : s.mLifecycleLock with
    | none =>
      refine ⟨th, hin, fun hblocked => ?_⟩
      cases hblocked with
      | engine hblocked => exact hengineFree th hblocked
      | lifecycleLock _ hheld =>
        rw [hlock] at hheld
        cases hheld
    | some holder =>
      have hholds := ((orderly_reachable hs).lifecycle holder).mpr hlock
      have hcall : (s.call holder).isNone = false := by
        cases hc : s.call holder <;> first | rfl | (rw [hc] at hholds; cases hholds)
      refine ⟨holder, by rw [State.inside, hcall]; rfl, fun hblocked => ?_⟩
      cases hblocked with
      | engine hblocked => exact hengineFree holder hblocked
      | lifecycleLock hc _ =>
        rw [hc] at hholds
        cases hholds

/-- While a thread is in an AsyncThread, one of them is not blocked, and it can take a step. -/
theorem threads_go_on (hs : (machine K Th).Reachable Machine.anyStep s)
    (hin : s.inside th = true) :
    ∃ th', s.inside th' = true ∧ ¬ Blocked s th' ∧ s.canStep th' := by
  obtain ⟨th', hin', hfree⟩ := free_thread hs hin
  obtain ⟨a, hby, -, hsome⟩ := goes_on hs hin' hfree
  exact ⟨th', hin', hfree, a, hby, hsome⟩

/-- The thread `true` is in the callback, and `false` waits in pthread_join for its end. -/
def stopping : State Unit Bool :=
  (machine Unit Bool).after Machine.anyStep calling
    ([.stop false, .resume false, .resume false, .resume false] ++ inEngineLock false ++
      [.engine (.resume false .yes)] ++ inEngineLock false ++
      [.engine (.resume false .yes), .engine (.resume false .yes)] ++ inEngineLock false ++
      [.engine (.resume false .yes)] ++ inEngineLock false)

theorem threads_go_on_stopping :
    WorkerThread.Blocked stopping.mThreadEngine false ∧ stopping.run true = .inside ∧
      ∃ th, stopping.inside th = true ∧ ¬ Blocked stopping th ∧ stopping.canStep th := by
  have hs : (machine Unit Bool).Reachable Machine.anyStep stopping :=
    (Machine.reachable_after rfl (by decide +kernel)).path (Machine.path_after (by decide +kernel))
  have hin : stopping.inside false = true := by decide +kernel
  refine ⟨.pthreadJoin rfl ?_, by decide +kernel, threads_go_on hs hin⟩
  intro id hid hexited
  obtain rfl := Option.some.inj hid
  cases hexited

end Progress

end CWrapper.AsyncThread
