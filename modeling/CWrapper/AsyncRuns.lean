import CWrapper.AsyncEngine
import CWrapper.WorkerCallbacks

/-!
In every reachable state the threads are in order. mThreadEngine runs as a WorkerThread does that is
used by itself, so that what holds of those holds of it.
-/
namespace CWrapper.AsyncThread

open Transition WorkerThread

variable {K Th : Type} [DecidableEq Th] {s s' : State K Th} {th : Th}
  {e : WorkerThread.State Unit Th}

inductive Moves (s : State K Th) : Action K Th → State K Th → Prop
  | start {th : Th} (hfree : s.isFree th = true) (type : K) :
      Moves s (.start th type) ({ s with starts := s.starts + 1 }.goto th
        (.isCurrentThread (.start ⟨type, s.starts⟩)))
  | stop {th : Th} (hfree : s.isFree th = true) :
      Moves s (.stop th) (s.goto th (.isCurrentThread .stop))
  | resume {s' : State K Th} {th : Th} (hstep : callStep s th (s.call th) = some s') :
      Moves s (.resume th) s'
  | run {s' : State K Th} {th : Th} (hstep : runStep s th (s.run th) = some s') :
      Moves s (.run th) s'
  | engine {a : WorkerThread.Action Unit Th} {e : WorkerThread.State Unit Th}
      (hadmits : s.admits a = true) (he : WorkerThread.step s.mThreadEngine a = some e) :
      Moves s (.engine a) (s.observe { s with mThreadEngine := e } a)

/-- A step is one of mThreadEngine, of start() or stop(), or of run(). -/
theorem step_moves {a : Action K Th} (hstep : step s a = some s') : Moves s a s' := by
  cases a with
  | start th type =>
    simp only [step] at hstep
    split at hstep
    · rename_i hfree
      obtain rfl := Option.some.inj hstep
      exact .start hfree type
    · cases hstep
  | stop th =>
    simp only [step] at hstep
    split at hstep
    · rename_i hfree
      obtain rfl := Option.some.inj hstep
      exact .stop hfree
    · cases hstep
  | resume th => exact .resume hstep
  | run th => exact .run hstep
  | engine a =>
    simp only [step] at hstep
    split at hstep
    · rename_i hadmits
      obtain ⟨s₁, hengine, rfl⟩ := Option.map_eq_some_iff.mp hstep
      obtain ⟨e, he, rfl⟩ := Option.map_eq_some_iff.mp hengine
      exact .engine hadmits he
    · cases hstep

section Step

variable {p : Phase Unit Th}

/-- The calls keep their order under every step of mThreadEngine that is admitted. -/
theorem Orderly.engine (h : Orderly s) (hfits : Fits s.mThreadEngine p)
    (hwaits : Waits s.mThreadEngine) {a : WorkerThread.Action Unit Th} (hadmits : s.admits a = true)
    (he : WorkerThread.step s.mThreadEngine a = some e) :
    Orderly (s.observe { s with mThreadEngine := e } a) := by
  have hsleeping {th : Th} {ec : WorkerThread.Call Unit Th} (hcall : s.call th = .none)
      (hgoes : Goes s.mThreadEngine e th ec) {pt : SleepPoint} (hec : ec = .msleep pt) :
      Orderly { s with mThreadEngine := e } :=
    h.engineStay hgoes hcall ⟨false, [], hec ▸ .sleeping pt, by simp, by simp [Call.callback]⟩
  have hmoves := WorkerThread.step_moves he
  cases a with
  | call th entry =>
    cases entry with
    | msleep =>
      simp only [State.admits, Bool.and_eq_true] at hadmits
      cases hmoves
      exact hsleeping (call_isNone_iff.mp hadmits.1) ⟨rfl, rfl⟩ rfl
    | start | stop | requestStop | join => cases hadmits
  | resume th answer => exact h.resume hfits hadmits he
  | lock th | wakeup th =>
    cases hmoves
    exact h.same rfl rfl
  | expire th =>
    cases hmoves with
    | expire hasleep =>
    have hmsleep := (hwaits.sleep th hasleep).1
    have hcall : s.call th = .none := by
      obtain ⟨vacant, events, hst, -⟩ := h.stands th
      rw [hmsleep] at hst
      exact hst.of_msleep
    exact hsleeping hcall ⟨rfl, rfl⟩ rfl

theorem runStep_fields {pt : RunPoint} (hstep : runStep s th pt = some s') :
    ∃ run new, s' = { s with run := run, log := s.log ++ new } ∧
      ∀ e ∈ new, ∀ n, e.call ≠ some n := by
  cases pt with
  | outside | leave => cases hstep
  | test =>
    obtain rfl := Option.some.inj hstep
    exact ⟨_, [], by rw [List.append_nil]; rfl, by simp⟩
  | invoke =>
    obtain rfl := Option.some.inj hstep
    exact ⟨_, _, rfl, by simp [Event.call]⟩
  | inside =>
    simp only [runStep] at hstep
    split at hstep
    · obtain rfl := Option.some.inj hstep
      exact ⟨_, [], by rw [List.append_nil]; rfl, by simp⟩
    · cases hstep

/-- run() logs for its session only. -/
theorem Orderly.runStep (h : Orderly s) {pt : RunPoint}
    (hstep : runStep s th pt = some s') : Orderly s' := by
  obtain ⟨run, new, rfl, hnew⟩ := runStep_fields hstep
  have hhistory (n : ℕ) : history n (s.log ++ new) = history n s.log :=
    about_of_ne _ s.log fun e he => hnew e he n
  exact
    { lifecycle := h.lifecycle
      outside := h.outside
      stands := fun u => by
        obtain ⟨vacant, events, hst, hvacant, hevents⟩ := h.stands u
        exact ⟨vacant, events, hst, hvacant, fun callback hcb => by
          rw [← hevents callback hcb, ← hhistory]⟩
      assigned := h.assigned
      number := h.number
      distinct := h.distinct
      closed := fun n => by
        rw [hhistory n]
        exact h.closed n }

/-- One step keeps the events of each call in the order of its code. -/
theorem Orderly.step (h : Orderly s) (hfits : Fits s.mThreadEngine p)
    (hwaits : Waits s.mThreadEngine) {a : Action K Th} (hstep : step s a = some s') :
    Orderly s' := by
  cases step_moves hstep with
  | start hfree type => exact h.start hfree type
  | stop hfree => exact h.stop hfree
  | resume hstep => exact h.callStep rfl hstep
  | run hstep => exact h.runStep hstep
  | engine hadmits he => exact h.engine hfits hwaits hadmits he

end Step

section Runs

/-- What a step of mThreadEngine means beyond mThreadEngine. -/
theorem observe_fields (s s₁ : State K Th) (a : WorkerThread.Action Unit Th) :
    ∃ call run session new, s.observe s₁ a =
      { s₁ with call := call, run := run, session := session, log := s₁.log ++ new } := by
  have hsame : ∃ call run session new,
      s₁ = { s₁ with call := call, run := run, session := session, log := s₁.log ++ new } :=
    ⟨_, _, _, [], by rw [List.append_nil]⟩
  cases a with
  | call | lock | wakeup | expire => exact hsame
  | resume th answer =>
    simp only [State.observe]
    split
    · unfold State.create
      split
      · exact ⟨_, _, _, _, rfl⟩
      · exact hsame
    · split
      · unfold State.turn
        split
        · exact ⟨_, _, _, [], by rw [List.append_nil]; rfl⟩
        · exact ⟨_, _, _, _, rfl⟩
        · exact hsame
      · unfold State.finish
        split
        · exact ⟨_, _, _, [], by rw [List.append_nil]; rfl⟩
        · exact hsame

/-- Who is in mThreadEngine.start() when one thread has gone on. -/
theorem starting_of_update {c : Call K} (P : Callable K → Prop)
    (hcall : s'.call = Function.update s.call th c)
    (hc : ∀ callback result, c = .starting callback result → P callback) (u : Th)
    (callback : Callable K) (result : Bool) (hu : s'.call u = .starting callback result) :
    (∃ result', s.call u = .starting callback result') ∨ P callback := by
  by_cases heq : u = th
  · rw [heq, hcall, Function.update_self] at hu
    exact Or.inr (hc callback result hu)
  · rw [hcall, Function.update_of_ne heq] at hu
    exact Or.inl ⟨result, hu⟩

/-- What no step of start() or stop() changes, and what only some do. -/
structure CallMoves (s s' : State K Th) (th : Th) (c : Call K) : Prop where
  run : s'.run = s.run
  session : s'.session = s.session
  engine : s'.mThreadEngine = s.mThreadEngine ∨
    ∃ entry, WorkerThread.step s.mThreadEngine (.call th entry) = some s'.mThreadEngine
  store : s'.mWorkerTask = s.mWorkerTask ∨ ∃ callback, c = .assign callback
  log : ∃ new, s'.log = s.log ++ new ∧ ∀ e ∈ new, e.session = none
  starting : ∀ u callback result, s'.call u = .starting callback result →
    (∃ result', s.call u = .starting callback result') ∨ c = .callStart callback

/-- Every step of start() and stop() is of this kind. -/
theorem callStep_moves {c : Call K} (hstep : callStep s th c = some s') : CallMoves s s' th c := by
  have hstarting {s₁ : State K Th} {c' : Call K} (hcall : s₁.call = Function.update s.call th c')
      (hc' : ∀ callback result, c' = .starting callback result → c = .callStart callback) :=
    starting_of_update (fun callback => c = .callStart callback) hcall hc'
  have hgoto (c' : Call K) (lock : Option Th)
      (hc' : ∀ callback result, c' ≠ .starting callback result) :
      CallMoves s ({ s with mLifecycleLock := lock }.goto th c') th c :=
    ⟨rfl, rfl, Or.inl rfl, Or.inl rfl, ⟨[], (List.append_nil _).symm, by simp⟩,
      hstarting rfl fun callback result heq => absurd heq (hc' callback result)⟩
  have henter {c' : Call K} {e : WorkerThread.State Unit Th} {entry : Entry Unit}
      (hc' : ∀ callback result, c' = .starting callback result → c = .callStart callback)
      (he : WorkerThread.step s.mThreadEngine (.call th entry) = some e) :
      CallMoves s ({ s with mThreadEngine := e }.goto th c') th c :=
    ⟨rfl, rfl, Or.inr ⟨entry, he⟩, Or.inl rfl, ⟨[], (List.append_nil _).symm, by simp⟩,
      hstarting rfl hc'⟩
  cases callStep_does hstep with
  | decided op | notRunning callback | started callback result _ =>
    exact hgoto _ s.mLifecycleLock (by simp)
  | acquire op => exact hgoto _ (some th) (by cases op <;> simp [Operation.locked])
  | stopped op => exact hgoto _ s.mLifecycleLock (by cases op <;> simp [Operation.stopped])
  | refuse callback =>
    exact ⟨rfl, rfl, Or.inl rfl, Or.inl rfl, ⟨[.refused callback], rfl, by simp [Event.session]⟩,
      hstarting rfl (by simp)⟩
  | stop op he => exact henter (by simp) he
  | start callback he => exact henter (by simp) he
  | assign callback =>
    exact ⟨rfl, rfl, Or.inl rfl, Or.inr ⟨callback, rfl⟩,
      ⟨[.assigned callback], rfl, by simp [Event.session]⟩, hstarting rfl (by simp)⟩
  | leave op result =>
    unfold returned
    split
    · exact ⟨rfl, rfl, Or.inl rfl, Or.inl rfl, ⟨[.returned _ _], rfl, by simp [Event.session]⟩,
        hstarting rfl (by simp)⟩
    · exact hgoto _ none (by simp)

/-- A step of the AsyncThread is none of mThreadEngine, or one. -/
theorem step_engine {a : Action K Th} (hstep : step s a = some s') :
    s'.mThreadEngine = s.mThreadEngine ∨
      ∃ a', WorkerThread.step s.mThreadEngine a' = some s'.mThreadEngine := by
  cases step_moves hstep with
  | start | stop => exact Or.inl rfl
  | resume hstep =>
    obtain hsame | ⟨entry, he⟩ := (callStep_moves hstep).engine
    · exact Or.inl hsame
    · exact Or.inr ⟨_, he⟩
  | run hstep =>
    obtain ⟨run, new, rfl, -⟩ := runStep_fields hstep
    exact Or.inl rfl
  | @engine a e hadmits he =>
    obtain ⟨call, run, session, new, hobserve⟩ :=
      observe_fields s { s with mThreadEngine := e } a
    rw [hobserve]
    exact Or.inr ⟨a, he⟩

/-- mThreadEngine runs as a WorkerThread does. -/
theorem engine_reachable (hs : (machine K Th).Reachable Machine.anyStep s) :
    (WorkerThread.machine Unit Th).Reachable Machine.anyStep s.mThreadEngine := by
  refine Machine.Invariant.always (I := fun s : State K Th =>
    (WorkerThread.machine Unit Th).Reachable Machine.anyStep s.mThreadEngine) ⟨?_, ?_⟩ hs
  · intro s hinit
    obtain rfl : s = start := hinit
    exact ⟨WorkerThread.start, [], rfl, .nil _⟩
  · intro s a s' _ _ hstep hreach
    obtain hsame | ⟨a', he⟩ := step_engine hstep
    · rw [hsame]
      exact hreach
    · exact hreach.step trivial he

theorem fits_and_waits_engine (hs : (machine K Th).Reachable Machine.anyStep s) :
    (∃ p, Fits s.mThreadEngine p) ∧ Waits s.mThreadEngine :=
  fits_and_waits (engine_reachable hs)

/-- In every reachable state, what a call has logged is what it logs up to the point where it
stands. -/
theorem orderly_reachable (hs : (machine K Th).Reachable Machine.anyStep s) : Orderly s := by
  refine Machine.Invariant.reachable (I := Orderly) ⟨?_, ?_⟩ (fun s => fits_and_waits_engine) hs
  · intro s hinit
    obtain rfl : s = start := hinit
    exact orderly_start
  · intro s a s' _ hengine hstep horderly
    obtain ⟨⟨p, hfits⟩, hwaits⟩ := hengine
    exact horderly.step hfits hwaits hstep

end Runs

end CWrapper.AsyncThread
