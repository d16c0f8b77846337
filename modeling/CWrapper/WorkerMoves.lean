import CWrapper.WorkerCalls
import CWrapper.WorkerIdentity

/-!
What the phases add to the steps of a call. stop() releases mLifecycleLock when no thread is left in
taskEntry, unless pthread_join has failed; start() joins nobody where nobody is in taskEntry; and
the worker thread goes through run() once.
-/
namespace CWrapper.WorkerThread

open Transition

variable {W Th : Type} [DecidableEq Th] {s s' : State W Th} {th : Th} {w : W} {answer : Answer Th}

inductive TaskMoves : Task W → Task W → Prop
  | await {t : Task W} (ht : t = .entry ∨ t = .await) : TaskMoves t .await
  | release {t : Task W} (ht : t = .entry ∨ t = .await) (w : W) : TaskMoves t (.released (some w))
  | enter (w : W) : TaskMoves (.released (some w)) (.run w)
  | leave (w : W) : TaskMoves (.run w) .exit
  | exit : TaskMoves .exit .exited

theorem TaskMoves.ne_none {t t' : Task W} (h : TaskMoves t t') : t ≠ .none := by
  cases h with
  | await ht | release ht =>
    obtain rfl | rfl := ht
    · simp
    · simp
  | enter | leave | exit => simp

variable [DecidableEq W] {p : Phase W Th}

/-- The thread that holds mLifecycleLock and finds the state Idle finds nobody in taskEntry. -/
theorem Fits.nobody_of_idle (h : Fits s p) (hidle : s.mState = .idle)
    (hholds : (s.call th).holds = true) (hfree : (s.call th).isFree = true) : s.nobody := by
  obtain rfl := h.idle hidle th hholds hfree
  intro t
  rw [h.task]
  rfl

/-- Where nobody is in taskEntry, the thread that holds mLifecycleLock finds the state Idle. -/
theorem Fits.idle_of_nobody (h : Fits s p) (hnobody : s.nobody)
    (hholds : (s.call th).holds = true) (hfree : (s.call th).isFree = true) :
    s.mState = .idle := by
  obtain rfl | ⟨w, t, r, stop, rfl⟩ := h.idle_or_live th hholds hfree
  · exact h.state
  · have hr : r = .none := by
      have htask := hnobody t
      rw [h.task] at htask
      simpa [Phase.task] using htask
    obtain ⟨-, -, hr' | hr' | hr' | hr' | hr'⟩ := h.handshake <;> rw [hr] at hr' <;> cases hr'

/-- The thread that holds mLifecycleLock does not find the state Starting. -/
theorem Fits.not_starting (h : Fits s p) (hholds : (s.call th).holds = true)
    (hfree : (s.call th).isFree = true) : s.mState ≠ .starting := by
  rw [h.state]
  obtain rfl | ⟨w, t, r, stop, rfl⟩ := h.idle_or_live th hholds hfree
  · simp [Phase.state]
  · cases r <;> cases stop <;> simp [Phase.state]

/-- Only one thread is in taskEntry. -/
theorem Fits.one_task (h : Fits s p) {t t' : Th} (ht : s.task t ≠ .none) (ht' : s.task t' ≠ .none) :
    t = t' := by
  have hone {u v : Th} {r : Task W} (htask : s.task = Function.update (fun _ => .none) u r)
      (hv : s.task v ≠ .none) : v = u := by
    by_contra hne
    rw [htask, Function.update_of_ne hne] at hv
    exact hv rfl
  rw [h.task] at hone ht ht'
  cases p with
  | opening w h' u stored r => exact (hone rfl ht).trans (hone rfl ht').symm
  | live w u r stop => exact (hone rfl ht).trans (hone rfl ht').symm
  | idle | preparing | failed | joined | cleaning | closing => exact absurd rfl ht

section Stop

theorem Fits.joinLocked_moves (h : Fits s p) {pt : JoinPoint W Th}
    (hcall : s.call th = .joinLocked .stop pt)
    (hjoin : ∀ threadId, pt = .pthreadJoin threadId → answer ≠ .no)
    (hdoes : CallDoes s th answer (.joinLocked .stop pt) s') : StopMoves s s' th := by
  cases hdoes with
  | goes hleads =>
    cases hleads with
    | readNone _ hstate =>
      have hholds : (s.call th).holds = true := by rw [hcall]; rfl
      have hfree : (s.call th).isFree = true := by rw [hcall]; rfl
      have hidle := hstate.resolve_right (h.not_starting hholds hfree)
      exact .finish ⟨rfl, rfl⟩ (h.nobody_of_idle hidle hholds hfree)
    | read => exact .goOn ⟨rfl, rfl⟩ (.joinLocked _)
    | joinFails _ threadId hanswer => exact absurd hanswer (hjoin threadId rfl)
    | noWorker => exact .goOn ⟨rfl, rfl⟩ (.joinLocked .reset)
  | logs hlogs =>
    cases hlogs with
    | cleanupBegin _ w => exact .goOn ⟨rfl, rfl⟩ (.joinLocked (.cleanup w true))
    | cleanupEnd => exact .goOn ⟨rfl, rfl⟩ (.joinLocked .reset)
  | resets hresets =>
    cases hresets
    cases h.agrees.pinned hcall rfl
    refine .finish ⟨rfl, rfl⟩ fun t => ?_
    rw [h.task]
    rfl
  | join _ id _ hexited => exact .joined (.joinLocked .await) hexited rfl rfl
  | joinBlock => exact .goOn ⟨rfl, rfl⟩ (.joinLocked .await)
  | take => exact .goOn ⟨rfl, rfl⟩ (.joinLocked _)

/-- stop() of a thread that is not the worker goes through its points in order, the join among them.
-/
theorem Fits.stop_moves (h : Fits s p) (hcall : InStop (s.call th)) (hout : s.task th = .none)
    (hjoin : ∀ threadId, s.call th = .joinLocked .stop (.pthreadJoin threadId) → answer ≠ .no)
    (hstep : WorkerThread.step s (.resume th answer) = some s') : StopMoves s s' th := by
  obtain ⟨lock, hstep⟩ := callStep_of_resume hstep hcall.isNone
  have hlocked : Fits { s with mStateLock := lock } p :=
    h.waits lock s.mStateCv s.mSleepCv s.mStopRequested s.mWakeupRequested
  obtain ⟨c, hc⟩ : ∃ c, s.call th = c := ⟨_, rfl⟩
  rw [hc] at hcall hjoin hstep
  cases hcall with
  | isCurrentThread =>
    obtain rfl := Option.some.inj hstep
    refine .goOn (c := .lockLifecycle .stop) ⟨?_, rfl⟩ .lockLifecycle
    have hfalse : State.isCurrentThread { s with mStateLock := lock } th = false :=
      hlocked.isCurrentThread_outside hout
    rw [hfalse]
    rfl
  | lockLifecycle =>
    simp only [WorkerThread.callStep] at hstep
    split at hstep
    · obtain rfl := Option.some.inj hstep
      exact .goOn ⟨rfl, rfl⟩ .requestStop
    · cases hstep
  | requestStop =>
    obtain ⟨c, hgoes, hc⟩ := (callStep_does hstep).requestStop
    refine .goOn ⟨hgoes.call, hgoes.task⟩ ?_
    obtain rfl | ⟨w, rfl⟩ := hc
    · exact .load
    · exact .onStopRequested w .enter
  | onStopRequested w pt =>
    obtain ⟨c, hgoes, hc⟩ := (callStep_does hstep).onStopRequested
    refine .goOn ⟨hgoes.call, hgoes.task⟩ ?_
    obtain ⟨-, rfl⟩ | ⟨pt', rfl⟩ := hc
    · exact .load
    · exact .onStopRequested w pt'
  | load =>
    obtain rfl := Option.some.inj hstep
    by_cases hidle : s.mState = .idle
    · refine .finish ⟨?_, rfl⟩ (h.nobody_of_idle hidle (by rw [hc]; rfl) (by rw [hc]; rfl))
      simp only [State.goto, Operation.proceed, if_pos hidle]
    · refine .goOn (c := .joinLocked .stop .read) ⟨?_, rfl⟩ (.joinLocked .read)
      simp only [State.goto, Operation.proceed, if_neg hidle]
  | joinLocked pt =>
    have hmoves := hlocked.joinLocked_moves hc
      (fun threadId hpt => hjoin threadId (by rw [hpt])) (callStep_does hstep)
    cases hmoves with
    | goOn hgoes hc => exact .goOn ⟨hgoes.call, hgoes.task⟩ hc
    | joined hc hexited hcall htask => exact .joined hc hexited hcall htask
    | finish hgoes hnobody => exact .finish ⟨hgoes.call, hgoes.task⟩ hnobody

end Stop

section Start

/-- Where nobody is in taskEntry, start() joins nobody. -/
theorem Fits.start_moves (h : Fits s p) (hcall : BeforeCreate (s.call th)) (hnobody : s.nobody)
    (hstep : WorkerThread.step s (.resume th answer) = some s') : StartMoves s s' th answer := by
  obtain ⟨lock, hstep⟩ := callStep_of_resume hstep hcall.isNone
  obtain ⟨c, hc⟩ : ∃ c, s.call th = c := ⟨_, rfl⟩
  rw [hc] at hcall hstep
  cases hcall with
  | lockLifecycle w =>
    simp only [WorkerThread.callStep] at hstep
    split at hstep
    · obtain rfl := Option.some.inj hstep
      exact .goOn (by rw [hc]; rfl) ⟨rfl, rfl⟩ (Or.inl (.load w))
    · cases hstep
  | load w =>
    have hholds : (s.call th).holds = true := by rw [hc]; rfl
    have hidle := h.idle_of_nobody hnobody hholds (by rw [hc]; rfl)
    obtain rfl := Option.some.inj hstep
    refine .goOn (c := .start w .claim) (by rw [hc]; rfl) ⟨?_, rfl⟩ (Or.inl (.claim w))
    simp [State.goto, Operation.proceed, hidle]
  | claim w =>
    have hcreates : (s.call th).creates answer = none := by rw [hc]; rfl
    simp only [WorkerThread.callStep, WorkerThread.startStep] at hstep
    split at hstep
    · obtain rfl := Option.some.inj hstep
      exact .goOn hcreates ⟨rfl, rfl⟩ (Or.inl (.prepare w .attrInit))
    · obtain rfl := Option.some.inj hstep
      exact .goOn hcreates ⟨rfl, rfl⟩ (Or.inr (Or.inl rfl))
  | prepare w pt =>
    have hmoves := CallDoes.prepare (s := { s with mStateLock := lock }) hc (callStep_does hstep)
    cases hmoves with
    | goOn hcreates hgoes hc => exact .goOn hcreates ⟨hgoes.call, hgoes.task⟩ hc
    | created hcreates hid hcall htask => exact .created hcreates hid hcall htask

end Start

section Task

/-- mWorker is set when the worker thread reads it. -/
theorem Fits.awaitRelease_moves (h : Fits s p) (ht : s.task th = .entry ∨ s.task th = .await)
    {s₁ : State W Th} (hcall : s₁.call = s.call) (htask : s₁.task = s.task)
    (hworker : s₁.mWorker = s.mWorker) :
    ∃ t, (WorkerThread.awaitRelease s₁ th).call = s.call ∧
      (WorkerThread.awaitRelease s₁ th).task = Function.update s.task th t ∧
      TaskMoves (s.task th) t := by
  rw [WorkerThread.awaitRelease, ← hcall, ← htask]
  split
  · rename_i hset
    obtain ⟨w, hw⟩ : ∃ w, s.mWorker = some w := by
      have hne : s.task th ≠ .none := by
        obtain ht | ht := ht <;> rw [ht] <;> simp
      obtain ⟨w, h', stored, rfl⟩ | ⟨w, stop, rfl⟩ := h.inTask rfl hne
      · exact ⟨w, h.worker⟩
      · exact ⟨w, h.worker⟩
    refine ⟨.released (some w), rfl, ?_, htask ▸ .release ht w⟩
    rw [hworker, hw]
    rfl
  · exact ⟨.await, rfl, rfl, htask ▸ .await ht⟩

/-- The worker thread goes through taskEntry in order. -/
theorem Fits.task_moves (h : Fits s p) (hcall : s.call th = .none)
    (hstep : WorkerThread.step s (.resume th answer) = some s') :
    ∃ t, s'.call = s.call ∧ s'.task = Function.update s.task th t ∧ TaskMoves (s.task th) t := by
  obtain ⟨lock, hdoes⟩ := taskDoes_of_resume hstep hcall
  obtain ⟨t, ht⟩ : ∃ t, s.task th = t := ⟨_, rfl⟩
  rw [ht] at hdoes
  cases hdoes with
  | entry => exact h.awaitRelease_moves (Or.inl ht) rfl rfl rfl
  | await => exact h.awaitRelease_moves (Or.inr ht) rfl rfl rfl
  | skip =>
    obtain ⟨w, stop, rfl, hr⟩ := h.inLive ht (by simp) (by simp) (by simp)
    simp at hr
  | run hlogs =>
    cases hlogs with
    | runBegin w => exact ⟨.run w, rfl, rfl, ht ▸ .enter w⟩
    | runEnd w => exact ⟨.exit, rfl, rfl, ht ▸ .leave w⟩
  | exit => exact ⟨.exited, rfl, rfl, ht ▸ .exit⟩

end Task

end CWrapper.WorkerThread
