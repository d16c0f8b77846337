import CWrapper.AsyncRuns

/-!
What run() does in a session. The worker thread is in run() with the callback of the call of start()
that has created it, and mWorkerTask holds this callback until the thread has been joined.
-/
namespace CWrapper.AsyncThread

open Transition WorkerThread

variable {K Th : Type}

abbrev sessionLog (n : ℕ) (log : List (Event K)) : List (Event K) := about Event.session n log

def ran (callback : Callable K) : List (Event K) :=
  [.created callback, .invoked callback.id callback, .left callback.id]

/-- How far the worker thread is, where it is in run(), and the log of its session. -/
inductive Running (callback : Callable K) :
    WorkerThread.Task Unit → RunPoint → List (Event K) → Prop
  | entry : Running callback .entry .outside [.created callback]
  | await : Running callback .await .outside [.created callback]
  | released (w : Unit) : Running callback (.released (some w)) .outside [.created callback]
  | test (w : Unit) : Running callback (.run w) .test [.created callback]
  | invoke (w : Unit) : Running callback (.run w) .invoke [.created callback]
  | inside (w : Unit) : Running callback (.run w) .inside
      [.created callback, .invoked callback.id callback]
  | leave (w : Unit) : Running callback (.run w) .leave
      [.created callback, .invoked callback.id callback]
  | exit : Running callback .exit .outside (ran callback)
  | exited : Running callback .exited .outside (ran callback)

variable {callback : Callable K} {r : WorkerThread.Task Unit} {pt : RunPoint}
  {events : List (Event K)}

theorem Running.ne_none (h : Running callback r pt events) : r ≠ .none := by
  cases h <;> simp

theorem Running.created_mem (h : Running callback r pt events) :
    ∀ callback', .created callback' ∈ events → callback' = callback := by
  cases h <;> simp [ran]

structure Serves (s : State K Th) (t : Th) (callback : Callable K) : Prop where
  session : s.session t = callback.id
  stored : s.mWorkerTask.mStorage = some callback
  running : Running callback (s.mThreadEngine.task t) (s.run t) (sessionLog callback.id s.log)

/-- A session with this number has not been created, has ended, or is served. -/
inductive Session (s : State K Th) : ℕ → Prop
  | unused {n : ℕ} (hlog : sessionLog n s.log = []) : Session s n
  | ended {callback : Callable K} (hlog : sessionLog callback.id s.log = ran callback)
      (hno : ∀ t, s.mThreadEngine.task t ≠ .none → s.session t ≠ callback.id) :
      Session s callback.id
  | served {t : Th} (ht : s.mThreadEngine.task t ≠ .none) : Session s (s.session t)

structure Sessions (s : State K Th) : Prop where
  serves : ∀ t, s.mThreadEngine.task t ≠ .none → ∃ callback, Serves s t callback
  session : ∀ n, Session s n
  outside : ∀ t, s.mThreadEngine.task t = .none → s.run t = .outside
  /-- While a call is in mThreadEngine.start(), the worker thread is the one that it has created. -/
  own : ∀ th callback result t, s.call th = .starting callback result →
    s.mThreadEngine.task t ≠ .none → s.session t = callback.id

theorem sessions_start [DecidableEq Th] : Sessions (start : State K Th) where
  serves _ ht := absurd rfl ht
  session _ := .unused rfl
  outside _ _ := rfl
  own _ _ _ _ hcall := by cases hcall

variable {s s' : State K Th} {t : Th} {new : List (Event K)}

/-- The steps that no session depends on; mWorkerTask is assigned where no worker thread is. -/
theorem Sessions.other (h : Sessions s)
    (hstarting : ∀ th callback result, s'.call th = .starting callback result →
      (∃ result', s.call th = .starting callback result') ∨ s.mThreadEngine.nobody)
    (htask : s'.mThreadEngine.task = s.mThreadEngine.task)
    (hrun : s'.run = s.run) (hsession : s'.session = s.session)
    (hstore : s'.mWorkerTask = s.mWorkerTask ∨ s.mThreadEngine.nobody)
    (hlog : s'.log = s.log ++ new) (hnew : ∀ e ∈ new, e.session = none) : Sessions s' := by
  have hsame (n : ℕ) : sessionLog n s'.log = sessionLog n s.log := by
    rw [hlog]
    exact about_of_ne _ _ fun e he => by rw [hnew e he]; simp
  exact
    { serves := fun t ht => by
        rw [htask] at ht
        obtain ⟨callback, hserves⟩ := h.serves t ht
        have hkept : s'.mWorkerTask = s.mWorkerTask := by
          obtain hkept | hnobody := hstore
          · exact hkept
          · exact absurd (hnobody t) ht
        exact ⟨callback, by rw [hsession, hserves.session], by rw [hkept, hserves.stored],
          by rw [htask, hrun, hsame]; exact hserves.running⟩
      session := fun n => by
        cases h.session n with
        | unused hnil => exact .unused (by rw [hsame, hnil])
        | ended hran hno =>
          refine .ended (by rw [hsame, hran]) fun t ht => ?_
          rw [htask] at ht
          rw [hsession]
          exact hno t ht
        | served ht =>
          rw [← hsession]
          exact .served (by rw [htask]; exact ht)
      outside := fun t ht => by
        rw [htask] at ht
        rw [hrun]
        exact h.outside t ht
      own := fun th callback result t hcall ht => by
        rw [htask] at ht
        rw [hsession]
        obtain ⟨result', hcall'⟩ | hnobody := hstarting th callback result hcall
        · exact h.own th callback result' t hcall' ht
        · exact absurd (hnobody t) ht }

/-- Where nobody is in taskEntry, a number without a thread has no session. -/
theorem Sessions.unused_of (h : Sessions s) (hnobody : s.mThreadEngine.nobody) {n : ℕ}
    (hn : ∀ callback, .created callback ∈ s.log → callback.id ≠ n) : sessionLog n s.log = [] := by
  cases h.session n with
  | unused hnil => exact hnil
  | @ended callback hran _ =>
    have hmem : .created callback ∈ sessionLog callback.id s.log := by
      rw [hran]
      exact List.mem_cons_self
    exact absurd rfl (hn callback ((mem_about _ _).mp hmem).1)
  | served ht => exact absurd (hnobody _) ht

variable [DecidableEq Th]

/-- The worker thread goes on. -/
theorem Sessions.move (h : Sessions s) (hserves : Serves s t callback)
    (hone : ∀ u, s.mThreadEngine.task u ≠ .none → u = t)
    (hstarting : ∀ th callback result, s'.call th = .starting callback result →
      ∃ result', s.call th = .starting callback result')
    (htask : s'.mThreadEngine.task = Function.update s.mThreadEngine.task t r)
    (hrun : s'.run = Function.update s.run t pt) (hsession : s'.session = s.session)
    (hstore : s'.mWorkerTask = s.mWorkerTask) (hlog : s'.log = s.log ++ new)
    (hnew : ∀ e ∈ new, e.session = some callback.id)
    (hrunning : Running callback r pt (sessionLog callback.id s.log ++ new)) : Sessions s' := by
  have hself : s'.mThreadEngine.task t = r := by rw [htask, Function.update_self]
  have hone' {u : Th} (hu : s'.mThreadEngine.task u ≠ .none) : u = t := by
    by_contra hne
    rw [htask, Function.update_of_ne hne] at hu
    exact hne (hone u hu)
  have hown : sessionLog callback.id s'.log = sessionLog callback.id s.log ++ new := by
    rw [hlog]
    exact about_of_eq _ _ hnew
  exact
    { serves := fun u hu => by
        rw [hone' hu]
        exact ⟨callback, by rw [hsession, hserves.session], by rw [hstore, hserves.stored],
          by rw [hself, hrun, Function.update_self, hown]; exact hrunning⟩
      session := fun n => by
        by_cases hn : n = callback.id
        · rw [hn, ← hserves.session, ← hsession]
          exact .served (by rw [hself]; exact hrunning.ne_none)
        · have hsame : sessionLog n s'.log = sessionLog n s.log := by
            rw [hlog]
            refine about_of_ne _ _ fun e he heq => hn ?_
            rw [hnew e he] at heq
            exact (Option.some.inj heq).symm
          cases h.session n with
          | unused hnil => exact .unused (by rw [hsame, hnil])
          | ended hran hno =>
            refine .ended (by rw [hsame, hran]) fun u hu => ?_
            rw [hone' hu, hsession, hserves.session]
            exact Ne.symm hn
          | served hu =>
            rw [hone _ hu, hserves.session] at hn
            exact absurd rfl hn
      outside := fun u hu => by
        have hne : u ≠ t := by
          intro heq
          rw [heq, hself] at hu
          exact hrunning.ne_none hu
        rw [htask, Function.update_of_ne hne] at hu
        rw [hrun, Function.update_of_ne hne]
        exact h.outside u hu
      own := fun th callback' result u hcall hu => by
        obtain ⟨result', hcall'⟩ := hstarting th callback' result hcall
        rw [hone' hu, hsession]
        refine h.own th callback' result' t hcall' fun hnone => ?_
        have hrunning' := hserves.running.ne_none
        exact hrunning' hnone }

/-- A session is created. -/
theorem Sessions.create (h : Sessions s) (hnobody : s.mThreadEngine.nobody)
    (hstored : s.mWorkerTask.mStorage = some callback)
    (hnil : sessionLog callback.id s.log = [])
    (hstarting : ∀ th callback' result, s'.call th = .starting callback' result →
      callback' = callback)
    (htask : s'.mThreadEngine.task = Function.update s.mThreadEngine.task t .entry)
    (hrun : s'.run = s.run) (hsession : s'.session = Function.update s.session t callback.id)
    (hstore : s'.mWorkerTask = s.mWorkerTask) (hlog : s'.log = s.log ++ [.created callback]) :
    Sessions s' := by
  have hself : s'.mThreadEngine.task t = .entry := by rw [htask, Function.update_self]
  have hone {u : Th} (hu : s'.mThreadEngine.task u ≠ .none) : u = t := by
    by_contra hne
    rw [htask, Function.update_of_ne hne] at hu
    exact hu (hnobody u)
  have hat : s'.session t = callback.id := by rw [hsession, Function.update_self]
  have hown : sessionLog callback.id (s.log ++ [.created callback]) =
      sessionLog callback.id s.log ++ [.created callback] :=
    about_of_eq _ _ (by simp [Event.session])
  exact
    { serves := fun u hu => by
        rw [hone hu]
        refine ⟨callback, hat, by rw [hstore, hstored], ?_⟩
        rw [hself, hrun, h.outside t (hnobody t), hlog, hown, hnil]
        exact .entry
      session := fun n => by
        by_cases hn : n = callback.id
        · rw [hn, ← hat]
          exact .served (by rw [hself]; simp)
        · have hsame : sessionLog n s'.log = sessionLog n s.log := by
            rw [hlog]
            refine about_of_ne _ _ fun e he heq => hn ?_
            rw [List.mem_singleton.mp he] at heq
            exact (Option.some.inj heq).symm
          cases h.session n with
          | unused hnil => exact .unused (by rw [hsame, hnil])
          | ended hran hno =>
            refine .ended (by rw [hsame, hran]) fun u hu => ?_
            rw [hone hu, hat]
            exact Ne.symm hn
          | served hu => exact absurd (hnobody _) hu
      outside := fun u hu => by
        rw [hrun]
        exact h.outside u (hnobody u)
      own := fun th callback' result u hcall hu => by
        rw [hone hu, hat, hstarting th callback' result hcall] }

/-- The worker thread is joined, and its session ends. -/
theorem Sessions.join (h : Sessions s) (hexited : s.mThreadEngine.task t = .exited)
    (hone : ∀ u, s.mThreadEngine.task u ≠ .none → u = t)
    (htask : s'.mThreadEngine.task = Function.update s.mThreadEngine.task t .none)
    (hrun : s'.run = s.run) (hlog : s'.log = s.log) : Sessions s' := by
  obtain ⟨callback, hserves⟩ := h.serves t (by rw [hexited]; simp)
  have hnobody (u : Th) : s'.mThreadEngine.task u = .none := by
    rw [htask]
    by_cases hu : u = t
    · rw [hu, Function.update_self]
    · rw [Function.update_of_ne hu]
      by_contra hne
      exact hu (hone u hne)
  have hrunning := hserves.running
  rw [hexited] at hrunning
  obtain ⟨hrunT, hran⟩ : s.run t = .outside ∧ sessionLog callback.id s.log = ran callback := by
    generalize s.run t = pt at hrunning
    generalize sessionLog callback.id s.log = events at hrunning
    cases hrunning
    exact ⟨rfl, rfl⟩
  exact
    { serves := fun u hu => absurd (hnobody u) hu
      session := fun n => by
        cases h.session n with
        | unused hnil => exact .unused (by rw [hlog, hnil])
        | ended hran _ => exact .ended (by rw [hlog, hran]) fun u hu => absurd (hnobody u) hu
        | served hu =>
          rw [hone _ hu, hserves.session]
          exact .ended (by rw [hlog, hran]) fun u hu => absurd (hnobody u) hu
      outside := fun u _ => by
        rw [hrun]
        by_cases hu : s.mThreadEngine.task u = .none
        · exact h.outside u hu
        · rw [hone u hu, hrunT]
      own := fun th callback' result u hcall hu => absurd (hnobody u) hu }

end CWrapper.AsyncThread
