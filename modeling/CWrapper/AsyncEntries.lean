import CWrapper.AsyncFrames

/-!
A thread that is in start() or stop() of AsyncThread stays in it until it returns, and it is in
mThreadEngine only then, where no callback calls msleep().
-/
namespace CWrapper.AsyncThread

open Transition WorkerThread

variable {K Th : Type}

def Call.isStart : Call K → Bool
  | .isCurrentThread (.start _) | .lockLifecycle (.start _) | .shouldRun _ | .callStop (.start _)
  | .stopping (.start _) | .assign _ | .callStart _ | .starting _ _ | .unlock (.start _) _ => true
  | _ => false

def Call.isStop : Call K → Bool
  | .isCurrentThread .stop | .lockLifecycle .stop | .callStop .stop | .stopping .stop
  | .unlock .stop _ => true
  | _ => false

theorem Call.not_isStop {c : Call K} (h : c.isStart = true) : c.isStop = false := by
  unfold Call.isStart at h
  split at h <;> first | rfl | cases h

/-- A point of start() from the call of mThreadEngine.start() on. -/
def Call.isLate : Call K → Bool
  | .starting _ _ | .unlock (.start _) _ => true
  | _ => false

theorem Call.isStart_of_isLate {c : Call K} (h : c.isLate = true) : c.isStart = true := by
  unfold Call.isLate at h
  split at h <;> first | rfl | cases h

/-- Two points of one function, the second one not before the first. -/
inductive Call.Along : Call K → Call K → Prop
  | same (c : Call K) : Along c c
  | start {c c' : Call K} (hc : c.isStart = true) (hc' : c'.isStart = true)
      (hlate : c.isLate = true → c'.isLate = true) : Along c c'
  | stop {c c' : Call K} (hc : c.isStop = true) (hc' : c'.isStop = true) : Along c c'

theorem Call.GoesOn.along {c c' : Call K} (h : c.GoesOn c') : c.Along c' := by
  cases h with
  | stay => exact .same c
  | ended => exact .start rfl rfl fun _ => rfl

theorem Call.Along.none_iff {c c' : Call K} (h : c.Along c') : c' = .none ↔ c = .none := by
  cases h with
  | same => exact Iff.rfl
  | start hc hc' | stop hc hc' =>
    constructor
    · intro hnone
      rw [hnone] at hc'
      cases hc'
    · intro hnone
      rw [hnone] at hc
      cases hc

theorem Call.Along.isLate {c c' : Call K} (h : c.Along c') (hlate : c.isLate = true) :
    c'.isLate = true := by
  cases h with
  | same => exact hlate
  | start _ _ hkeeps => exact hkeeps hlate
  | stop hc =>
    rw [Call.not_isStop (Call.isStart_of_isLate hlate)] at hc
    cases hc

variable [DecidableEq Th] {s s' : State K Th} {th u : Th} {c : Call K}

theorem callStep_next (hstep : callStep s th c = some s') :
    ∃ c', s'.call = Function.update s.call th c' ∧
      (c.Along c' ∨ (∃ op result, c = .unlock op result) ∧ c' = .none) := by
  have hop {c₁ c₂ : Operation K → Call K}
      (hstart : ∀ callback, (c₁ (.start callback)).isStart = true ∧
        (c₂ (.start callback)).isStart = true ∧ (c₁ (.start callback)).isLate = false)
      (hstop : (c₁ .stop).isStop = true ∧ (c₂ .stop).isStop = true) (op : Operation K) :
      (c₁ op).Along (c₂ op) := by
    cases op with
    | start callback =>
      obtain ⟨hc, hc', hnot⟩ := hstart callback
      exact .start hc hc' (by simp [hnot])
    | stop => exact .stop hstop.1 hstop.2
  cases callStep_does hstep with
  | decided op | acquire op | stop op | stopped op =>
    exact ⟨_, rfl, Or.inl (hop (fun _ => ⟨rfl, rfl, rfl⟩) ⟨rfl, rfl⟩ op)⟩
  | refuse | notRunning | assign | start | started =>
    exact ⟨_, rfl, Or.inl (.start rfl rfl (by simp [Call.isLate]))⟩
  | leave op result =>
    obtain ⟨log, hreturned⟩ := returned_fields { s with mLifecycleLock := none } op result
    rw [hreturned]
    exact ⟨.none, rfl, Or.inr ⟨⟨op, result, rfl⟩, rfl⟩⟩

/-- Where the calls of the threads go with a step. -/
theorem step_call (hs : (machine K Th).Reachable Machine.anyStep s) {a : Action K Th}
    (hstep : step s a = some s') (u : Th) :
    (s.call u).Along (s'.call u) ∨ a = .resume u ∧ s'.call u = .none ∨
      (∃ type, a = .start u type) ∧ (s'.call u).isStart = true ∨
        a = .stop u ∧ (s'.call u).isStop = true := by
  have hother {th : Th} {c : Call K} (hcall : s'.call = Function.update s.call th c)
      (hu : u ≠ th) : (s.call u).Along (s'.call u) := by
    rw [hcall, Function.update_of_ne hu]
    exact .same _
  cases step_moves hstep with
  | @start th _ type =>
    by_cases hu : u = th
    · exact Or.inr (Or.inr (Or.inl ⟨⟨type, by rw [hu]⟩, by simp [State.goto, hu, Call.isStart]⟩))
    · exact Or.inl (hother rfl hu)
  | @stop th _ =>
    by_cases hu : u = th
    · exact Or.inr (Or.inr (Or.inr ⟨by rw [hu], by simp [State.goto, hu, Call.isStop]⟩))
    · exact Or.inl (hother rfl hu)
  | @resume _ th hcall =>
    obtain ⟨c, hcall, hnext⟩ := callStep_next hcall
    by_cases hu : u = th
    · subst hu
      rw [hcall, Function.update_self]
      obtain halong | ⟨-, hnone⟩ := hnext
      · exact Or.inl halong
      · exact Or.inr (Or.inl ⟨rfl, hnone⟩)
    · exact Or.inl (hother hcall hu)
  | run hrun =>
    obtain ⟨run, new, rfl, -⟩ := runStep_fields hrun
    exact Or.inl (.same _)
  | @engine b e hadmits he =>
    refine Or.inl ?_
    cases b with
    | call | lock | wakeup | expire => exact .same _
    | resume th answer =>
      obtain ⟨⟨p, hfits⟩, -⟩ := fits_and_waits_engine hs
      have hmoves := (orderly_reachable hs).resume_moves hfits hadmits he
      generalize s.observe { s with mThreadEngine := e } (.resume th answer) = s' at hmoves ⊢
      cases hmoves with
      | task =>
        unfold State.turn
        split <;> exact .same _
      | @goes c ec _ hon =>
        by_cases hu : u = th
        · simp only [State.goto, hu, Function.update_self]
          exact hon.along
        · simp only [State.goto, Function.update_of_ne hu]
          exact .same _
      | joined | created => exact .same _

/-- A thread that is in no function of AsyncThread is in none of mThreadEngine, but for msleep(). -/
theorem engine_none (hs : (machine K Th).Reachable Machine.anyStep s)
    (hcall : s.call u = .none ∨ ∃ op result, s.call u = .unlock op result)
    (h : ∀ pt, s.mThreadEngine.call u ≠ .msleep pt) : s.mThreadEngine.call u = .none := by
  obtain ⟨vacant, events, hst, -⟩ := (orderly_reachable hs).stands u
  generalize s.mThreadEngine.call u = ec at hst h ⊢
  obtain hcall | ⟨op, result, hcall⟩ := hcall
  · rw [hcall] at hst
    cases hst with
    | outside => rfl
    | sleeping pt => exact absurd rfl (h pt)
  · rw [hcall] at hst
    cases hst <;> rfl

/-- Where no callback calls msleep(), no thread is in it. -/
theorem step_not_sleeping (hs : (machine K Th).Reachable Machine.anyStep s) {a : Action K Th}
    (ha : ∀ th, a ≠ .engine (.call th .msleep)) (hstep : step s a = some s')
    (h : ∀ u pt, s.mThreadEngine.call u ≠ .msleep pt) (u : Th) (pt : SleepPoint) :
    s'.mThreadEngine.call u ≠ .msleep pt := by
  intro hu
  have hs' : (machine K Th).Reachable Machine.anyStep s' := hs.step (a := a) trivial hstep
  obtain ⟨vacant, events, hst, -⟩ := (orderly_reachable hs').stands u
  rw [hu] at hst
  have hnone := hst.of_msleep
  have hsame (heq : s'.mThreadEngine.call u = s.mThreadEngine.call u) : False :=
    h u pt (heq.symm.trans hu)
  have hmove := step_call hs hstep u
  cases step_moves hstep with
  | start | stop => exact hsame rfl
  | run hrun =>
    obtain ⟨run, new, rfl, -⟩ := runStep_fields hrun
    exact hsame rfl
  | @resume _ th hstep =>
    obtain heq | ⟨entry, he⟩ := (callStep_moves hstep).engine
    · exact hsame (congrArg (fun e => e.call u) heq)
    · by_cases hth : u = th
      · -- the thread has returned, or is in a function of AsyncThread
        subst hth
        obtain ⟨c, hcall, hnext⟩ := callStep_next hstep
        rw [hcall, Function.update_self] at hnone
        obtain halong | ⟨⟨op, result, hunlock⟩, -⟩ := hnext
        · rw [(halong.none_iff).mp hnone] at hstep
          cases hstep
        · rw [hunlock] at hstep
          obtain rfl := Option.some.inj hstep
          obtain ⟨log, hreturned⟩ := returned_fields { s with mLifecycleLock := none } op result
          rw [hreturned] at hsame
          exact hsame rfl
      · refine hsame ?_
        generalize s'.mThreadEngine = e at he ⊢
        cases WorkerThread.step_moves he
        exact Function.update_of_ne hth ..
  | @engine b e hadmits he =>
    have hout : s.call u = .none := by
      obtain halong | ⟨heq, -⟩ | ⟨⟨type, heq⟩, -⟩ | ⟨heq, -⟩ := hmove
      · exact halong.none_iff.mp hnone
      · cases heq
      · cases heq
      · cases heq
    obtain ⟨call, run, session, new, hobserve⟩ := observe_fields s { s with mThreadEngine := e } b
    rw [hobserve] at hsame hu
    have hsame (heq : e.call u = s.mThreadEngine.call u) : False := hsame heq
    have hmoves := WorkerThread.step_moves he
    cases b with
    | call th entry => cases entry <;> first | cases hadmits | exact ha th rfl
    | lock th | wakeup th =>
      cases hmoves
      exact hsame rfl
    | expire th =>
      cases hmoves with
      | expire hasleep => exact h th _ ((fits_and_waits_engine hs).2.sleep th hasleep).1
    | resume th answer =>
      obtain ⟨-, hcalls, -⟩ | ⟨hne, hlocal⟩ := resume_cases he
      · exact hsame (by rw [hcalls])
      · by_cases hth : u = th
        · subst hth
          exact hne (engine_none hs (Or.inl hout) (h u))
        · exact hsame (hlocal.call u hth)

/-- A thread in stop() stays there, or nobody is in taskEntry. -/
theorem stop_ends (hs : (machine K Th).Reachable Machine.anyStep s) {a : Action K Th}
    (hstep : step s a = some s') (hstop : (s.call th).isStop = true) :
    (s'.call th).isStop = true ∨ s.mThreadEngine.nobody ∧ s'.mThreadEngine = s.mThreadEngine := by
  have hne : s.call th ≠ .none := by
    intro hnone
    rw [hnone] at hstop
    cases hstop
  have hbusy (hfree : s.isFree th = true) : False := hne (isFree_iff.mp hfree).1
  obtain halong | ⟨rfl, hnone⟩ | ⟨⟨type, rfl⟩, -⟩ | ⟨rfl, -⟩ := step_call hs hstep th
  · refine Or.inl ?_
    generalize s.call th = c at hstop halong
    generalize s'.call th = c' at halong ⊢
    cases halong with
    | same => exact hstop
    | stop _ hc' => exact hc'
    | start hc =>
      rw [Call.not_isStop hc] at hstop
      cases hstop
  · have hstep : callStep s th (s.call th) = some s' := hstep
    obtain ⟨c, hcall, hnext⟩ := callStep_next hstep
    rw [hcall, Function.update_self] at hnone
    obtain halong | ⟨⟨op, result, hunlock⟩, -⟩ := hnext
    · exact absurd (halong.none_iff.mp hnone) hne
    · obtain ⟨ec, vacant, events, -, hst, hvacant, -⟩ := (orderly_reachable hs).standing hunlock
      rw [hunlock] at hstop hstep
      obtain rfl := Option.some.inj hstep
      cases hst with
      | refused | unlock => cases hstop
      | unlockStop => exact Or.inr ⟨hvacant rfl, rfl⟩
  · obtain ⟨hfree, -⟩ := Option.ite_none_right_eq_some.mp hstep
    exact (hbusy hfree).elim
  · obtain ⟨hfree, -⟩ := Option.ite_none_right_eq_some.mp hstep
    exact (hbusy hfree).elim

/-- A thread that comes to be in taskEntry has been created in a call of start(). -/
theorem step_created (hs : (machine K Th).Reachable Machine.anyStep s) {a : Action K Th}
    (hstep : step s a = some s') (hu : s.mThreadEngine.task u = .none)
    (hu' : s'.mThreadEngine.task u ≠ .none) :
    ∃ th callback, a = .engine (.resume th (.thread u)) ∧ s.call th = .starting callback false ∧
      s'.call = s.call := by
  obtain hnone | ⟨th, rfl⟩ := step_tasks hstep hu
  · exact absurd hnone hu'
  · obtain ⟨hadmits, hstep⟩ := Option.ite_none_right_eq_some.mp hstep
    obtain ⟨s₁, hs₁, rfl⟩ := Option.map_eq_some_iff.mp hstep
    obtain ⟨e, he, rfl⟩ := Option.map_eq_some_iff.mp hs₁
    obtain ⟨⟨p, hfits⟩, -⟩ := fits_and_waits_engine hs
    have hmoves := (orderly_reachable hs).resume_moves hfits hadmits he
    obtain ⟨call, run, session, new, hobserve⟩ :=
      observe_fields s { s with mThreadEngine := e } (.resume th (.thread u))
    have hu' : e.task u ≠ .none := by
      rw [hobserve] at hu'
      exact hu'
    generalize s.observe { s with mThreadEngine := e } (.resume th (.thread u)) = s' at hmoves
    cases hmoves with
    | task hcall hec =>
      obtain ⟨-, -, hne, t, htask⟩ | ⟨hne, -⟩ := resume_cases he
      · have hother : u ≠ th := by
          intro heq
          exact hne (heq ▸ hu)
        rw [htask, Function.update_of_ne hother] at hu'
        exact absurd hu hu'
      · exact absurd hec hne
    | goes hgoes =>
      rw [hgoes.task] at hu'
      exact absurd hu hu'
    | @joined op id ec hcall hexited hcalls htasks =>
      rw [htasks] at hu'
      by_cases heq : u = id
      · rw [heq, Function.update_self] at hu'
        exact absurd rfl hu'
      · rw [Function.update_of_ne heq] at hu'
        exact absurd hu hu'
    | @created callback id hcall hnobody hhistory hid hcalls htasks =>
      exact ⟨th, callback, rfl, hcall, rfl⟩

end CWrapper.AsyncThread
