import CWrapper.AsyncSessionRuns

/-!
AsyncThread runs the right task. Whoever assigns mWorkerTask finds no worker thread; the session of
a call of start() that returns true calls the callback of this call, and calls it once; a call that
finds a task running assigns nothing and returns false; and stop() returns when the worker thread
has been joined.
-/
namespace CWrapper.AsyncThread

open Transition WorkerThread

variable {K Th : Type} {s s' : State K Th} {th t : Th} {callback callback' : Callable K}
  {c : Call K} {ec : WorkerThread.Call Unit Th} {vacant : Bool} {events : List (Event K)}

section Histories

theorem Stands.not_returned (h : Stands c ec vacant events) (callback : Callable K)
    (result : Bool) : .returned callback result ∉ events := by
  cases h with
  | startEnd _ result | started _ result | unlock _ result => cases result <;> simp [startHistory]
  | _ => simp

theorem Stands.of_refused (h : Stands c ec vacant events) (hmem : .refused callback ∈ events) :
    events = [.refused callback] := by
  cases h with
  | startEnd _ result | started _ result | unlock _ result =>
    cases result <;> simp [startHistory] at hmem
  | refused =>
    rw [List.mem_singleton] at hmem
    rw [hmem]
  | _ => simp at hmem

theorem Finished.of_returned {result : Bool} (h : Finished callback' events)
    (hmem : .returned callback result ∈ events) : callback = callback' := by
  cases h <;>
  · simp at hmem
    exact hmem.1

theorem Finished.of_true (h : Finished callback events)
    (hmem : .returned callback true ∈ events) :
    events = [.assigned callback, .created callback, .returned callback true] := by
  cases h with
  | refused | failed => simp at hmem
  | started => rfl

theorem Finished.of_refused (h : Finished callback' events) (hmem : .refused callback ∈ events) :
    events = [.refused callback, .returned callback false] := by
  cases h with
  | refused =>
    simp at hmem
    rw [hmem]
  | failed | started => simp at hmem

/-- What a call has logged that has returned. -/
theorem Orderly.of_returned (h : Orderly s) {result : Bool}
    (hmem : .returned callback result ∈ s.log) : Finished callback (history callback.id s.log) := by
  have hown : .returned callback result ∈ history callback.id s.log :=
    (mem_about _ _).mpr ⟨hmem, rfl⟩
  obtain ⟨u, callback', hcb, hid⟩ | hclosed := h.closed callback.id
  · obtain ⟨vacant, events, hst, -, hevents⟩ := h.stands u
    rw [← hid, hevents callback' hcb] at hown
    exact absurd hown (hst.not_returned callback result)
  · generalize callback.id = n at hclosed hown
    generalize history n s.log = events at hclosed hown
    cases hclosed with
    | unused => simp at hown
    | finished hlt hevents =>
      rw [hevents.of_returned hown]
      exact hevents

/-- What a call has logged that has found a task running. -/
theorem Orderly.of_refused (h : Orderly s) (hmem : .refused callback ∈ s.log) :
    history callback.id s.log = [.refused callback] ∨
      history callback.id s.log = [.refused callback, .returned callback false] := by
  have hown : .refused callback ∈ history callback.id s.log := (mem_about _ _).mpr ⟨hmem, rfl⟩
  obtain ⟨u, callback', hcb, hid⟩ | hclosed := h.closed callback.id
  · obtain ⟨vacant, events, hst, -, hevents⟩ := h.stands u
    rw [← hid, hevents callback' hcb] at hown ⊢
    exact Or.inl (hst.of_refused hown)
  · generalize callback.id = n at hclosed hown
    generalize history n s.log = events at hclosed hown
    cases hclosed with
    | unused => simp at hown
    | finished hlt hevents => exact Or.inr (hevents.of_refused hown)

end Histories

section Release

/-- No thread is between entering and leaving run(). -/
def State.quiet (s : State K Th) : Prop :=
  ∀ t, (∀ w, s.mThreadEngine.task t ≠ .run w) ∧ s.run t = .outside

theorem quiet_of_nobody (hsessions : Sessions s) (hnobody : s.mThreadEngine.nobody) : s.quiet := by
  intro t
  refine ⟨fun w hrun => ?_, hsessions.outside t (hnobody t)⟩
  rw [hnobody t] at hrun
  cases hrun

/-- A thread at the handshake is in a call of start() that has created a session. -/
theorem Stands.of_handshake {w : Unit} {createdId : Option Th}
    (h : Stands c (.start w (.handshake createdId)) vacant events) :
    ∃ callback, c = .starting callback false ∧
      events = [.assigned callback, .created callback] := by
  cases h with
  | stopping _ hc => cases hc
  | before _ hc => cases hc
  | after callback hc => exact ⟨callback, rfl, rfl⟩

variable [DecidableEq Th] {p : Phase Unit Th}

/-- When start() has returned, the worker thread of its session has been released. -/
theorem live_of_returned (horderly : Orderly s) (hsessions : Sessions s)
    (hfits : Fits s.mThreadEngine p) (hmem : .returned callback true ∈ s.log)
    (hsession : s.session t = callback.id) (ht : s.mThreadEngine.task t ≠ .none) :
    ∃ w stop, p = .live w t (s.mThreadEngine.task t) stop := by
  obtain ⟨w, h', stored, rfl⟩ | hlive := hfits.inTask rfl ht
  · have hallows := hfits.agrees.allows h'
    simp only [Phase.Allows, Phase.point, if_pos] at hallows
    obtain ⟨vacant, events, hst, -, hevents⟩ := horderly.stands h'
    rw [hallows] at hst
    obtain ⟨callback', hcall, rfl⟩ := hst.of_handshake
    have hid := hsessions.own h' callback' false t hcall ht
    have hcreated := hevents callback' (by rw [hcall]; rfl)
    have hreturned : .returned callback true ∈ history callback'.id s.log :=
      (mem_about _ _).mpr ⟨hmem, congrArg some (hsession.symm.trans hid)⟩
    rw [hcreated] at hreturned
    simp at hreturned
  · exact hlive

/-- Points of the worker thread at which it has not called the callback. -/
inductive BeforeCall : WorkerThread.Task Unit → RunPoint → Prop
  | await : BeforeCall .await .outside
  | released (w : Unit) : BeforeCall (.released (some w)) .outside
  | test (w : Unit) : BeforeCall (.run w) .test
  | invoke (w : Unit) : BeforeCall (.run w) .invoke

/-- The worker thread of the session is about to call the callback; it does not wait in mStateCv. -/
def Pending (s : State K Th) (callback : Callable K) : Prop :=
  ∃ t, s.session t = callback.id ∧ BeforeCall (s.mThreadEngine.task t) (s.run t) ∧
    s.mThreadEngine.mStateCv t = false

theorem not_waiting (horderly : Orderly s) (hsessions : Sessions s) (hfits : Fits s.mThreadEngine p)
    (hwaits : Waits s.mThreadEngine) (hmem : .returned callback true ∈ s.log)
    (hsession : s.session t = callback.id) (ht : s.mThreadEngine.task t ≠ .none) :
    s.mThreadEngine.mStateCv t = false := by
  obtain ⟨w, stop, rfl⟩ := live_of_returned horderly hsessions hfits hmem hsession ht
  have hnone : s.call t = .none := by
    by_contra hne
    exact ht (horderly.outside t hne)
  obtain ⟨vacant, events, hst, -⟩ := horderly.stands t
  rw [hnone] at hst
  by_contra hwait
  cases hwaits.state t (by simpa using hwait) with
  | ready hcall => rw [hcall] at hst; cases hst
  | callbacks hcall => rw [hcall] at hst; cases hst
  | released _ _ hfalse =>
    have htrue : s.mThreadEngine.mStartReleased = true := hfits.handshake.1
    rw [hfalse] at htrue
    cases htrue

/-- The session of a call that has returned true: the callback has been called, or will be. -/
theorem session_of_returned (horderly : Orderly s) (hsessions : Sessions s)
    (hfits : Fits s.mThreadEngine p) (hwaits : Waits s.mThreadEngine)
    (hmem : .returned callback true ∈ s.log) (hcreated : .created callback ∈ s.log) :
    sessionLog callback.id s.log = [.created callback] ∧ Pending s callback ∨
      sessionLog callback.id s.log = [.created callback, .invoked callback.id callback] ∨
      sessionLog callback.id s.log = ran callback := by
  have hown : .created callback ∈ sessionLog callback.id s.log :=
    (mem_about _ _).mpr ⟨hcreated, rfl⟩
  obtain ⟨n, hn⟩ : ∃ n, callback.id = n := ⟨_, rfl⟩
  rw [hn] at hown ⊢
  cases hsessions.session n with
  | unused hnil =>
    rw [hnil] at hown
    cases hown
  | ended hran =>
    rw [hran] at hown ⊢
    have hsame := (Running.exited).created_mem callback hown
    rw [hsame]
    exact Or.inr (Or.inr rfl)
  | @served t ht =>
    obtain ⟨callback', hserves⟩ := hsessions.serves t ht
    obtain ⟨hsession, -, hrunning⟩ := hserves
    rw [hsession] at hown
    obtain rfl := hrunning.created_mem callback hown
    have hcv := not_waiting horderly hsessions hfits hwaits hmem hsession ht
    have hpending (hbefore : BeforeCall (s.mThreadEngine.task t) (s.run t)) : Pending s callback :=
      ⟨t, hsession, hbefore, hcv⟩
    obtain ⟨w, stop, rfl⟩ := live_of_returned horderly hsessions hfits hmem hsession ht
    obtain ⟨-, -, hr⟩ := hfits.handshake
    rw [hsession]
    generalize hlog : sessionLog callback.id s.log = events at hrunning
    generalize hpt : s.run t = pt at hrunning hpending
    generalize hrt : s.mThreadEngine.task t = r at hrunning hpending hr
    cases hrunning with
    | entry => simp at hr
    | await => exact Or.inl ⟨rfl, hpending .await⟩
    | released w => exact Or.inl ⟨rfl, hpending (.released w)⟩
    | test w => exact Or.inl ⟨rfl, hpending (.test w)⟩
    | invoke w => exact Or.inl ⟨rfl, hpending (.invoke w)⟩
    | inside | leave => exact Or.inr (Or.inl rfl)
    | exit | exited => exact Or.inr (Or.inr rfl)

end Release

section Task

variable [DecidableEq Th]

theorem step_log {a : Action K Th} (hstep : step s a = some s') :
    ∃ new, s'.log = s.log ++ new := by
  cases step_moves hstep with
  | start | stop => exact ⟨[], (List.append_nil _).symm⟩
  | resume hstep =>
    obtain ⟨new, hlog, -⟩ := (callStep_moves hstep).log
    exact ⟨new, hlog⟩
  | run hstep =>
    obtain ⟨run, new, rfl, -⟩ := runStep_fields hstep
    exact ⟨new, rfl⟩
  | @engine a e hadmits he =>
    obtain ⟨call, run, session, new, hobserve⟩ :=
      observe_fields s { s with mThreadEngine := e } a
    rw [hobserve]
    exact ⟨new, rfl⟩

theorem mem_log_along {e : Event K} {as : List (Action K Th)}
    (hpath : (machine K Th).Path Machine.anyStep s as s') (hmem : e ∈ s.log) : e ∈ s'.log := by
  refine hpath.keeps (I := fun s => e ∈ s.log) ?_ hmem
  intro s a s' _ hstep hmem
  obtain ⟨new, hlog⟩ := step_log hstep
  rw [hlog]
  exact List.mem_append_left _ hmem

/-- Only start() assigns mWorkerTask. -/
theorem step_store {a : Action K Th} (hstep : step s a = some s') :
    s'.mWorkerTask = s.mWorkerTask ∨ ∃ th callback, s.call th = .assign callback := by
  cases step_moves hstep with
  | start | stop => exact Or.inl rfl
  | @resume _ th hstep =>
    obtain hsame | ⟨callback, hcall⟩ := (callStep_moves hstep).store
    · exact Or.inl hsame
    · exact Or.inr ⟨th, callback, hcall⟩
  | run hstep =>
    obtain ⟨run, new, rfl, -⟩ := runStep_fields hstep
    exact Or.inl rfl
  | @engine a e hadmits he =>
    obtain ⟨call, run, session, new, hobserve⟩ :=
      observe_fields s { s with mThreadEngine := e } a
    rw [hobserve]
    exact Or.inl rfl

/-- The test of ASSERT_IF is false. -/
theorem assert_if_holds (hs : (machine K Th).Reachable Machine.anyStep s) {op : Operation K}
    (hcall : s.call th = .isCurrentThread op) : s.mThreadEngine.isCurrentThread th = false := by
  obtain ⟨⟨p, hfits⟩, -⟩ := fits_and_waits_engine hs
  exact hfits.isCurrentThread_outside ((orderly_reachable hs).outside th (by rw [hcall]; simp))

/-- mWorkerTask is assigned in states only in which no thread is in run(); a call of start() that
has returned true has created one session, and in this the callback of the call has been called once
or is about to be called; a call that finds shouldRun() true leaves the running task alone and
returns false; and no thread is in run() when stop() releases mLifecycleLock. -/
theorem runs_right_task (hs : (machine K Th).Reachable Machine.anyStep s) :
    (∀ th callback, s.call th = .assign callback → s.quiet) ∧
    (∀ a s', step s a = some s' → s'.mWorkerTask ≠ s.mWorkerTask → s.quiet) ∧
    (∀ callback, .returned callback true ∈ s.log →
      history callback.id s.log =
        [.assigned callback, .created callback, .returned callback true] ∧
      (sessionLog callback.id s.log = [.created callback] ∧ Pending s callback ∨
        sessionLog callback.id s.log = [.created callback, .invoked callback.id callback] ∨
        sessionLog callback.id s.log =
          [.created callback, .invoked callback.id callback, .left callback.id])) ∧
    (∀ th callback s₁ as s₂, s.call th = .shouldRun callback → s.mThreadEngine.shouldRun = true →
      step s (.resume th) = some s₁ → (machine K Th).Path Machine.anyStep s₁ as s₂ →
      s₁.call th = .unlock (.start callback) (some false) ∧ s₁.mThreadEngine = s.mThreadEngine ∧
      s₁.mWorkerTask = s.mWorkerTask ∧ s₁.run = s.run ∧ .assigned callback ∉ s₂.log ∧
      ∀ result, .returned callback result ∈ s₂.log → result = false) ∧
    ∀ th result, s.call th = .unlock .stop result → s.quiet := by
  obtain ⟨⟨p, hfits⟩, hwaits⟩ := fits_and_waits_engine hs
  have horderly := orderly_reachable hs
  have hsessions := sessions_reachable hs
  have hassign (th : Th) (callback : Callable K) (hcall : s.call th = .assign callback) :
      s.quiet := by
    obtain ⟨ec, vacant, events, -, hst, hvacant, -⟩ := horderly.standing hcall
    cases hst
    exact quiet_of_nobody hsessions (hvacant rfl)
  refine ⟨hassign, ?_, ?_, ?_, ?_⟩
  · intro a s' hstep hne
    obtain hsame | ⟨th, callback, hcall⟩ := step_store hstep
    · exact absurd hsame hne
    · exact hassign th callback hcall
  · intro callback hmem
    have hown : .returned callback true ∈ history callback.id s.log :=
      (mem_about _ _).mpr ⟨hmem, rfl⟩
    have hhistory := (horderly.of_returned hmem).of_true hown
    have hcreated : .created callback ∈ history callback.id s.log := by
      rw [hhistory]
      simp
    exact ⟨hhistory, session_of_returned horderly hsessions hfits hwaits hmem
      ((mem_about _ _).mp hcreated).1⟩
  · intro th callback s₁ as s₂ hcall hrun hstep hpath
    have hmachine : (machine K Th).step s (.resume th) = some s₁ := hstep
    have hs₂ := (hs.step trivial hmachine).path hpath
    simp only [step, hcall, callStep, hrun, if_true] at hstep
    obtain rfl := Option.some.inj hstep
    have hrefused : .refused callback ∈ s₂.log :=
      mem_log_along hpath (List.mem_append_right _ (List.mem_singleton_self _))
    have hnot (e : Event K) (he : e ∈ s₂.log) (hid : e.call = some callback.id) :
        e = .refused callback ∨ e = .returned callback false := by
      have hown : e ∈ history callback.id s₂.log := (mem_about _ _).mpr ⟨he, hid⟩
      obtain hhistory | hhistory := (orderly_reachable hs₂).of_refused hrefused
      · rw [hhistory] at hown
        exact Or.inl (List.mem_singleton.mp hown)
      · rw [hhistory] at hown
        simpa using hown
    refine ⟨Function.update_self .., rfl, rfl, rfl, fun hassigned => ?_, fun result hmem => ?_⟩
    · obtain heq | heq := hnot _ hassigned rfl <;> cases heq
    · obtain heq | heq := hnot _ hmem rfl <;> cases heq
      rfl
  · intro th result hcall
    obtain ⟨ec, vacant, events, -, hst, hvacant, -⟩ := horderly.standing hcall
    cases hst
    exact quiet_of_nobody hsessions (hvacant rfl)

def inEngineLock (th : Bool) : List (Action Unit Bool) :=
  [.engine (.lock th), .engine (.resume th .yes)]

/-- The thread `false` calls start(), which returns true; the thread `true` calls the callback. -/
def calling : State Unit Bool :=
  (machine Unit Bool).after Machine.anyStep start
    ([.start false (), .resume false, .resume false, .resume false, .resume false] ++
      inEngineLock false ++ [.engine (.resume false .yes)] ++ inEngineLock false ++
      [.engine (.resume false .yes), .engine (.resume false .yes), .resume false, .resume false,
        .resume false, .engine (.resume false .yes), .engine (.resume false .yes)] ++
      inEngineLock false ++
      [.engine (.resume false .yes), .engine (.resume false .yes), .engine (.resume false .yes),
        .engine (.resume false (.thread true))] ++ inEngineLock true ++ inEngineLock false ++
      [.engine (.resume false .yes), .resume false, .resume false] ++ inEngineLock true ++
      [.engine (.resume true .yes), .run true, .run true])

theorem runs_right_task_calling :
    .returned ⟨(), 0⟩ true ∈ calling.log ∧
    history 0 calling.log = [.assigned ⟨(), 0⟩, .created ⟨(), 0⟩, .returned ⟨(), 0⟩ true] ∧
    (sessionLog 0 calling.log = [.created ⟨(), 0⟩] ∧ Pending calling ⟨(), 0⟩ ∨
      sessionLog 0 calling.log = [.created ⟨(), 0⟩, .invoked 0 ⟨(), 0⟩] ∨
      sessionLog 0 calling.log = [.created ⟨(), 0⟩, .invoked 0 ⟨(), 0⟩, .left 0]) ∧
    sessionLog 0 calling.log = [.created ⟨(), 0⟩, .invoked 0 ⟨(), 0⟩] :=
  have hs : (machine Unit Bool).Reachable Machine.anyStep calling :=
    Machine.reachable_after rfl (by decide +kernel)
  have hmem : .returned ⟨(), 0⟩ true ∈ calling.log := by decide +kernel
  have hreturned := (runs_right_task hs).2.2.1 ⟨(), 0⟩ hmem
  ⟨hmem, hreturned.1, hreturned.2, by decide +kernel⟩

end Task

end CWrapper.AsyncThread
