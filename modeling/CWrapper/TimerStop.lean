import CWrapper.TimerRefinement

/-!
What a stop request is worth. stop() on a running timer only stores mStopRequested, so
the request lives in that flag until the loop thread tests it. It is kept as long as one
such test is still to come, and it is lost when the store falls between the last test and
mState.store(Queued), after that store, or before tryBeginExecuteFromLoop clears the flag.
-/
set_option linter.unusedSectionVars false

namespace CWrapper.TimerLife

open Timer (Object Call Control Exec State Msec)

/-- A test of mStopRequested is still ahead in this execution, and no clearing of it. -/
def willTest : Exec → Bool
  | .popFront true | .readHandler | .call | .callback | .readConfig _ | .testStop ..
  | .readTick _ | .storeExpiry _ | .storePending | .broadcastPending | .requeueLoad
  | .requeueTest | .requeueLock | .requeueScan _ | .requeueWake | .requeueTestAgain => true
  | _ => false

/-- The loop thread is on its way to mState.store(Stopped). -/
def stopping : Exec → Bool
  | .storeStopped | .requeueRemove | .requeueRemoveWake => true
  | _ => false

/-- A store of mStopRequested that finds the timer like this is seen. -/
def InTime (st : State) (exec : Option Exec) : Prop :=
  st = .stopped ∨ exec.any willTest = true ∨ exec.any stopping = true

instance (st : State) (exec : Option Exec) : Decidable (InTime st exec) :=
  inferInstanceAs (Decidable (_ ∨ _ ∨ _))

def Quiet (v : Life) : Prop := v.o.mState = .stopped ∧ ¬ v.listed

/-- The request is carried out, or is going to be. -/
def StopKept (v : Life) : Prop :=
  Quiet v ∨ v.o.mStopRequested = true ∧ v.exec.any willTest = true ∨
    v.exec.any stopping = true

def Call.isStart : Call → Bool
  | .start .. => true
  | _ => false

def startFree : Option Control → Bool
  | some (.load k) | some (.exchange k) | some (.requestQueued k) | some (.remove k)
  | some (.removeWake k) | some (.broadcast k) | some (.requestRunning k)
  | some (.lockWait k) | some (.test k) | some (.block k) | some (.blocked k)
  | some (.relock k) => !Call.isStart k
  | none | some .returnStop | some .returnDestroy => true
  | _ => false

theorem startFree_wake (c : Option Control) : startFree (c.map wake) = startFree c := by
  cases c with
  | none => rfl
  | some c => cases c <;> rfl

theorem startFree_afterStop {k : Call} (h : Call.isStart k = false) :
    startFree (some (Timer.afterStop k)) = true := by
  cases k with
  | start msec rep => cases h
  | _ => rfl

theorem startFree_controlStep {o o' : Object} {now : ℕ} {again : Bool} {c c' : Control}
    (h : Timer.controlStep o now again c = some (o', c')) (hc : startFree (some c) = true) :
    startFree (some c') = true := by
  cases c with
  | load k =>
    have hk : Call.isStart k = false := by simpa [startFree] using hc
    have hafter := startFree_afterStop hk
    simp only [Timer.controlStep] at h
    cases h
    split
    · exact hafter
    · exact hc
    · exact hc
    · exact hc
  | exchange k =>
    simp only [Timer.controlStep] at h
    split at h <;> cases h <;> exact hc
  | requestQueued k => cases h; exact hc
  | requestRunning k => cases k <;> cases h <;> exact hc
  | _ => simp_all [Timer.controlStep, startFree]

theorem startFree_advance {c c' : Control} (h : Advance c c') (hc : startFree (some c) = true) :
    startFree (some c') = true := by
  cases h with
  | broadcast k => exact startFree_afterStop (by simpa [startFree] using hc)
  | addScan i => exact hc
  | addWake => exact absurd hc (by simp [startFree])
  | _ => exact hc

/-- Whoever moves, only a call that begins can be a start. -/
theorem startFree_step {a : Actor} {v v' : Life} (hstep : LifeStep a v v')
    (ha : ∀ msec rep, a ≠ .begins (.start msec rep)) (h : startFree v.control = true) :
    startFree v'.control = true := by
  cases hstep with
  | begins k hc =>
    cases k with
    | start msec rep => exact absurd rfl (ha msec rep)
    | _ => rfl
  | object hc hstep => exact startFree_controlStep hstep (hc ▸ h)
  | advance hc hstep => exact startFree_advance hstep (hc ▸ h)
  | test hc =>
    rw [hc] at h
    simp only
    split <;> exact h
  | remove hc hfree => rw [hc] at h; exact h
  | addFound hc hl => rw [hc] at h; cases h
  | addLock hc hfree => rw [hc] at h; cases h
  | insert hc => rw [hc] at h; cases h
  | leave hc hret => rfl
  | broadcastPending | broadcastLast => exact (startFree_wake _).trans h
  | _ => exact h

theorem Quiet.away {v : Life} (h : Quiet v) (hcons : Consistent v) : phase v.exec = .away := by
  obtain ⟨hst, hl⟩ := h
  unfold Consistent at hcons
  generalize phase v.exec = p at hcons
  cases p <;> simp_all [Fits]

theorem controlStep_quiet {o o' : Object} {now : ℕ} {again : Bool} {c c' : Control}
    (h : Timer.controlStep o now again c = some (o', c')) (hc : startFree (some c) = true)
    (hst : o.mState = .stopped) : o'.mState = .stopped := by
  cases c with
  | exchange k =>
    simp only [Timer.controlStep, hst] at h
    cases h
    exact hst
  | _ => simp_all [Timer.controlStep, startFree] <;> simp_all [← h.1]

/-- A stopped timer that is out of the list stays so until it is started. -/
theorem quiet_step {a : Actor} {v v' : Life} (hstep : LifeStep a v v') (hcons : Consistent v)
    (hfree : startFree v.control = true) (h : Quiet v) : Quiet v' := by
  have haway := h.away hcons
  cases hstep with
  | config o' hstate hstop hexpiry => exact ⟨hstate.trans h.1, h.2⟩
  | object hc hstep => exact ⟨controlStep_quiet hstep (hc ▸ hfree) h.1, h.2⟩
  | remove hc hblock => exact ⟨h.1, id⟩
  | insert hc => rw [hc] at hfree; cases hfree
  | @execute _ e e' o' keep he hstep =>
    rw [he] at haway
    cases e with
    | broadcastStopped => simp [Timer.executeStep] at hstep
    | broadcastQueued => simp [Timer.executeStep] at hstep
    | popFront b => cases b <;> simp [phase] at haway
    | _ => simp [phase] at haway
  | popFront he => exact ⟨h.1, id⟩
  | requeueInsert he => rw [he] at haway; cases haway
  | requeueRemove he hblock => exact ⟨h.1, id⟩
  | _ => exact h

theorem controlStep_keeps {o o' : Object} {now : ℕ} {again : Bool} {c c' : Control}
    (h : Timer.controlStep o now again c = some (o', c')) (hc : startFree (some c) = true)
    (hflag : o.mStopRequested = true) : o'.mStopRequested = true := by
  cases c with
  | exchange k =>
    simp only [Timer.controlStep] at h
    split at h <;> cases h <;> exact hflag
  | _ => simp_all [Timer.controlStep, startFree] <;> simp_all [← h.1]

/-- The loop thread, with the flag stored and a test of it ahead, stays on that side of the
test or turns to mState.store(Stopped). -/
theorem executeStep_willTest {o o' : Object} {now : ℕ} {keep : Bool} {e e' : Exec}
    (h : Timer.executeStep o now keep e = some (o', e')) (hflag : o.mStopRequested = true)
    (he : willTest e = true) (hload : e = .requeueLoad → o.mState = .requeuePending) :
    o'.mStopRequested = true ∧ willTest e' = true ∨ stopping e' = true := by
  cases e with
  | readHandler =>
    cases h
    refine Or.inl ⟨hflag, ?_⟩
    split <;> rfl
  | testStop k i r hh =>
    simp only [Timer.executeStep, hflag] at h
    cases h
    exact Or.inr rfl
  | requeueLoad =>
    simp only [Timer.executeStep, hload rfl] at h
    cases h
    exact Or.inl ⟨hflag, rfl⟩
  | requeueTest =>
    simp only [Timer.executeStep, hflag] at h
    cases h
    exact Or.inr rfl
  | requeueTestAgain =>
    simp only [Timer.executeStep, hflag] at h
    cases h
    exact Or.inr rfl
  | call | callback | readConfig | readTick | storeExpiry | storePending =>
    cases h
    exact Or.inl ⟨hflag, rfl⟩
  | exchange | clearRequest | storeStopped | storeQueued => cases he
  | _ => simp [Timer.executeStep] at h

theorem kept_willTest {a : Actor} {v v' : Life} (hstep : LifeStep a v v') (hcons : Consistent v)
    (hfree : startFree v.control = true) (hflag : v.o.mStopRequested = true)
    (h : v.exec.any willTest = true) : StopKept v' := by
  cases hstep with
  | config o' hstate hstop hexpiry => exact Or.inr (Or.inl ⟨hstop.trans hflag, h⟩)
  | object hc hstep =>
    exact Or.inr (Or.inl ⟨controlStep_keeps hstep (hc ▸ hfree) hflag, h⟩)
  | take he hl hblock hexp => rw [he] at h; cases h
  | @execute _ e e' o' keep he hstep =>
    rw [he] at h
    have hload : e = .requeueLoad → v.o.mState = .requeuePending := by
      rintro rfl
      unfold Consistent at hcons
      rw [he] at hcons
      exact hcons.2.2
    rcases executeStep_willTest hstep hflag h hload with hkept | hkept
    · exact Or.inr (Or.inl hkept)
    · exact Or.inr (Or.inr hkept)
  | execAdvance he hstep =>
    rw [he] at h
    cases hstep with
    | requeueRemoveWake => cases h
    | _ => exact Or.inr (Or.inl ⟨hflag, rfl⟩)
  | @popFront _ b he =>
    rw [he] at h
    cases b with
    | true => exact Or.inr (Or.inl ⟨hflag, rfl⟩)
    | false => cases h
  | broadcastLast he hlast =>
    rw [he] at h
    cases hlast <;> cases h
  | broadcastPending | requeueFound | requeueLock | requeueInsert =>
    exact Or.inr (Or.inl ⟨hflag, rfl⟩)
  | requeueRemove he hblock => rw [he] at h; cases h
  | _ => exact Or.inr (Or.inl ⟨hflag, h⟩)

theorem kept_stopping {a : Actor} {v v' : Life} (hstep : LifeStep a v v')
    (hcons : Consistent v) (h : v.exec.any stopping = true) : StopKept v' := by
  cases hstep with
  | take he | popFront he | broadcastPending he | requeueFound he | requeueLock he
  | requeueInsert he =>
    rw [he] at h
    cases h
  | @execute _ e e' o' keep he hstep =>
    rw [he] at h
    cases e with
    | storeStopped =>
      cases hstep
      unfold Consistent at hcons
      rw [he] at hcons
      exact Or.inl ⟨rfl, hcons.2.1⟩
    | requeueRemove => cases hstep
    | requeueRemoveWake => cases hstep
    | _ => cases h
  | execAdvance he hstep =>
    rw [he] at h
    cases hstep with
    | requeueRemoveWake => exact Or.inr (Or.inr rfl)
    | _ => cases h
  | broadcastLast he hlast =>
    rw [he] at h
    cases hlast <;> cases h
  | requeueRemove he hblock => exact Or.inr (Or.inr rfl)
  | _ => exact Or.inr (Or.inr h)

/-- A request that is kept stays kept. -/
theorem stopKept_step {a : Actor} {v v' : Life} (hstep : LifeStep a v v')
    (hcons : Consistent v) (hfree : startFree v.control = true) (h : StopKept v) :
    StopKept v' := by
  rcases h with hquiet | ⟨hflag, htest⟩ | hstop
  · exact Or.inl (quiet_step hstep hcons hfree hquiet)
  · exact kept_willTest hstep hcons hfree hflag htest
  · exact kept_stopping hstep hcons hstop

theorem Fits.quiet {p : Phase} {c : Claim} {st : State} {listed : Prop}
    (h : Fits p c st listed) (hc : c = .nothing ∨ c = .cleared) (hst : st = .stopped) :
    ¬ listed := by
  rcases hc with rfl | rfl
  · subst hst
    exact h.found_stopped.1.2
  · exact h.1.2

/-- The store of stop() is kept when it is made in time. -/
theorem InTime.kept {v : Life} {k : Call} (h : InTime v.o.mState v.exec) (hcons : Consistent v)
    (hc : v.control = some (.requestRunning k)) (c : Control) :
    StopKept { v with o := { v.o with mStopRequested := true }, control := some c } := by
  rcases h with hst | htest | hstop
  · unfold Consistent at hcons
    rw [hc] at hcons
    exact Or.inl ⟨hst, Fits.quiet hcons (Or.inl rfl) hst⟩
  · exact Or.inr (Or.inl ⟨rfl, htest⟩)
  · exact Or.inr (Or.inr hstop)

/-- A stop() that returns now leaves its request kept. -/
def Answered (v : Life) : Prop := v.control = some .returnStop → StopKept v

theorem answered_controlStep {v : Life} {c c' : Control} {o' : Object} {now : ℕ} {again : Bool}
    (hcons : Consistent v) (hc : v.control = some c)
    (hin : c = .requestRunning .stop → InTime v.o.mState v.exec)
    (hstep : Timer.controlStep v.o now again c = some (o', c')) :
    Answered { v with o := o', control := some c' } := by
  intro hret
  cases hret
  cases c with
  | load k =>
    unfold Consistent at hcons
    rw [hc] at hcons
    have hst : v.o.mState = .stopped := by
      cases hs : v.o.mState <;> simp_all [Timer.controlStep]
    simp only [Timer.controlStep, Option.some.injEq, Prod.mk.injEq] at hstep
    rw [← hstep.1]
    exact Or.inl ⟨hst, Fits.quiet hcons (Or.inl rfl) hst⟩
  | requestRunning k =>
    cases k with
    | stop =>
      cases hstep
      exact (hin rfl).kept hcons hc _
    | _ => cases hstep
  | exchange k =>
    simp only [Timer.controlStep] at hstep
    split at hstep <;> cases hstep
  | _ => cases hstep

/-- A stop() whose request is stored in time returns with the request kept. -/
theorem answered_step {a : Actor} {v v' : Life} (hstep : LifeStep a v v') (hcons : Consistent v)
    (hin : a = .control → v.control = some (.requestRunning .stop) →
      InTime v.o.mState v.exec) (h : Answered v) : Answered v' := by
  have hstay : v.control = some .returnStop → StopKept v' := fun hc =>
    stopKept_step hstep hcons (by rw [hc]; rfl) (h hc)
  cases hstep with
  | begins k hc => intro hret; cases hret
  | @object _ c c' o' again hc hstep =>
    exact answered_controlStep hcons hc (fun he => hin rfl (he ▸ hc)) hstep
  | advance hc hstep =>
    intro hret
    cases hret
    generalize hk : Control.returnStop = c' at hstep
    cases hstep with
    | broadcast k =>
      unfold Consistent at hcons
      rw [hc] at hcons
      exact Or.inl hcons.1
    | _ => cases hk
  | test hc =>
    intro hret
    simp only at hret
    split at hret <;> cases hret
  | remove | addFound | addLock | insert | leave => intro hret; cases hret
  | broadcastPending | broadcastLast =>
    intro hret
    obtain ⟨c, hc, hw⟩ := Option.map_eq_some_iff.mp hret
    cases c <;> cases hw
    exact hstay hc
  | _ => exact hstay

end CWrapper.TimerLife

namespace CWrapper.MainLoop

open Timer (Control Exec Msec)
open TimerLife Transition

variable {T Th F : Type} [DecidableEq T] [DecidableEq Th]

def StopReturns (t : T) (s : State T Th F) (a : Action T Th F) : Prop :=
  ∃ th again, a = .thread th again ∧ s.thread th = .timer t .returnStop

/-- A start() of `t` begins, called by itself or by restart(). -/
def startBegins (t : T) (s : State T Th F) : Action T Th F → Bool
  | .start _ u _ _ => decide (u = t)
  | .thread th _ =>
      match s.thread th with
      | .restart u _ _ => decide (u = t)
      | _ => false
  | _ => false

/-- The loop thread has begun an execution of `t` and has not finished it. -/
def LoopPoint.executes (t : T) : LoopPoint T F → Bool
  | .exec u e => decide (u = t ∧ e ≠ .exchange ∧ e ≠ .popFront false)
  | _ => false

def NoStart (ok : State T Th F → Action T Th F → Prop) (t : T) (s : State T Th F)
    (a : Action T Th F) : Prop := ok s a ∧ startBegins t s a = false

instance (ok : State T Th F → Action T Th F → Prop) [∀ s a, Decidable (ok s a)] (t : T)
    (s : State T Th F) (a : Action T Th F) : Decidable (NoStart ok t s a) :=
  inferInstanceAs (Decidable (_ ∧ _))

/-- The states are those before and after the return of stop(), the first one after it in
which no execution of `t` is in progress, and any later one. -/
def StopNeverLost (capacity : ℕ+) (t : T) (ok : State T Th F → Action T Th F → Prop) : Prop :=
  ∀ (s₀ s₁ s₂ s₃ : State T Th F) (a : Action T Th F) (as bs : List (Action T Th F)),
    (system T Th F capacity).Reachable ok s₀ → ok s₀ a → StopReturns t s₀ a →
    (system T Th F capacity).step s₀ a = some s₁ →
    (system T Th F capacity).Path (NoStart ok t) s₁ as s₂ →
    s₂.loop.executes t = false →
    (system T Th F capacity).Path (NoStart ok t) s₂ bs s₃ →
    (s₃.timer t).mState = .stopped ∧ t ∉ s₃.mTimers ∧
      (s₃.history t).begun = (s₂.history t).begun

/-- stop() stores mStopRequested, having loaded Executing or RequeuePending. -/
def requests (t : T) (s : State T Th F) : Action T Th F → Bool
  | .thread th _ =>
      match s.thread th with
      | .timer u (.requestRunning .stop) => decide (u = t)
      | _ => false
  | _ => false

/-- The store of mStopRequested by stop() finds a test of the flag still to come. -/
def StopInTime (t : T) (s : State T Th F) (a : Action T Th F) : Prop :=
  requests t s a = true → InTime (s.timer t).mState (s.loop.on t)

instance (t : T) (s : State T Th F) (a : Action T Th F) : Decidable (StopInTime t s a) :=
  inferInstanceAs (Decidable (_ → _))

variable {capacity : ℕ+} {s s' : State T Th F} {a : Action T Th F} {t : T}

/-- A callback begins by the step that calls the handler only. -/
theorem begun_step (hm : Moves capacity s a s') (hloop : s.loop ≠ .exec t .call) :
    (s'.history t).begun = (s.history t).begun := by
  cases hm with
  | object th again u c c' o hth hstep =>
    by_cases hu : t = u
    · subst hu
      simp only [Function.update_self]
      cases c <;> rfl
    · simp [Function.update_of_ne hu]
  | execute keep u e e' o hpoint hstep =>
    by_cases hu : t = u
    · subst hu
      simp only [Function.update_self]
      cases e with
      | call => exact absurd hpoint hloop
      | _ => rfl
    · simp [Function.update_of_ne hu]
  | addInsert th again u i hth hpos => by_cases hu : t = u <;> simp [hu, Function.update_of_ne]
  | requeueInsert keep u i hpoint hpos =>
    by_cases hu : t = u <;> simp [hu, Function.update_of_ne]
  | _ => rfl

theorem actor_control (h : actor s a t = .control) :
    ∃ th again c, a = .thread th again ∧ s.thread th = .timer t c := by
  unfold actor at h
  split at h
  · rename_i th again
    split at h <;> rename_i hth <;> (try split at h) <;> try cases h
    rename_i hu
    exact ⟨th, again, _, rfl, hu ▸ hth⟩
  all_goals (try split at h) <;> cases h

theorem actor_start {msec : Msec} {rep : Bool} (h : actor s a t = .begins (.start msec rep)) :
    startBegins t s a = true := by
  unfold actor at h
  cases a with
  | thread th again =>
    simp only at h
    split at h <;> rename_i hth <;> (try split at h) <;> try cases h
    rename_i hu
    simp [startBegins, hth, hu]
  | start th u msec rep =>
    simp only at h
    split at h <;> cases h
    rename_i hu
    simp [startBegins, hu]
  | _ =>
    simp only at h
    (try split at h) <;> cases h

/-- A stop() that returns finds its request carried out, or going to be. -/
theorem answered_invariant (t : T) : (system T Th F capacity).Invariant (StopInTime t)
    Disciplined (fun s => Answered (s.life t)) where
  init := by
    rintro s ⟨now, _, rfl⟩
    simp [Answered, State.life, State.start, State.control]
  step s a s' hok hd hstep h := by
    have hlife := hd.life_step (moves_of_step hstep) t
    refine answered_step hlife (hd.consistent t) ?_ h
    intro hactor hc
    obtain ⟨th, again, c, rfl, hth⟩ := actor_control hactor
    have hcontrol : s.control t = some c := hd.owned.control_eq th t hth
    cases (Option.some.inj (hc.symm.trans hcontrol))
    exact hok (by simp [requests, hth])

/-- What a stop() leaves behind, until the next start(). -/
structure Stopping (s : State T Th F) (t : T) : Prop where
  disciplined : Disciplined s
  startFree : startFree (s.control t) = true
  kept : StopKept (s.life t)

/-- Until the next start() a timer that is stopping stays on its way. -/
theorem Stopping.step (hstep : (system T Th F capacity).step s a = some s')
    (ha : startBegins t s a = false) (h : Stopping s t) : Stopping s' t := by
  have hm := moves_of_step hstep
  have hd := h.disciplined
  have hlife := hd.life_step hm t
  exact ⟨disciplined_step hm hd,
    startFree_step hlife (fun msec rep hactor => by simp [actor_start hactor] at ha) h.startFree,
    stopKept_step hlife (hd.consistent t) h.startFree h.kept⟩

theorem Stopping.of_return (hd : Disciplined s) (hanswer : Answered (s.life t))
    (hstep : (system T Th F capacity).step s a = some s') (hret : StopReturns t s a) :
    Stopping s' t := by
  obtain ⟨th, again, rfl, hth⟩ := hret
  have hcontrol : s.control t = some .returnStop := hd.owned.control_eq th t hth
  have hfree : TimerLife.startFree (s.control t) = true := by rw [hcontrol]; rfl
  exact Stopping.step hstep (by simp [startBegins, hth]) ⟨hd, hfree, hanswer hcontrol⟩

theorem Stopping.quiet (h : Stopping s t) (hloop : s.loop.executes t = false) :
    Quiet (s.life t) := by
  rcases h.kept with hquiet | ⟨_, hexec⟩ | hexec
  · exact hquiet
  all_goals
    obtain ⟨e, he, htest⟩ := (Option.any_eq_true _ _).mp hexec
    rw [loop_of_on he] at hloop
    refine absurd ?_ (of_decide_eq_false hloop)
    refine ⟨rfl, ?_, ?_⟩ <;> rintro rfl <;> cases htest

theorem Quiet.not_calling (hd : Disciplined s) (h : Quiet (s.life t)) :
    s.loop ≠ .exec t .call := by
  intro hloop
  have haway := h.away (hd.consistent t)
  simp [State.life, hloop, LoopPoint.on, phase] at haway

/-- While every stop() of `t` stores its request in time, no request is lost: the timer
ends Stopped and out of the list, and no callback of it begins before the next start(). -/
theorem stop_never_lost (t : T) :
    StopNeverLost capacity t (StopInTime t : State T Th F → Action T Th F → Prop) := by
  intro s₀ s₁ s₂ s₃ a as bs hreach hok hret hstep has hloop hbs
  have hanswer := (answered_invariant t).reachable (fun _ => disciplined) hreach
  have h₁ : Stopping s₁ t := Stopping.of_return (disciplined hreach) hanswer hstep hret
  have h₂ : Stopping s₂ t :=
    has.keeps (I := fun s => Stopping s t) (fun _ _ _ ha hstep h => h.step hstep ha.2) h₁
  have h₃ : (Stopping s₃ t ∧ Quiet (s₃.life t)) ∧ (s₃.history t).begun = (s₂.history t).begun := by
    refine hbs.keeps (I := fun s => (Stopping s t ∧ Quiet (s.life t)) ∧
      (s.history t).begun = (s₂.history t).begun) ?_ ⟨⟨h₂, h₂.quiet hloop⟩, rfl⟩
    rintro s a s' ⟨_, ha⟩ hstep ⟨⟨h, hquiet⟩, hbegun⟩
    have hm := moves_of_step hstep
    have hd := h.disciplined
    have hlife := hd.life_step hm t
    exact ⟨⟨h.step hstep ha, quiet_step hlife (hd.consistent t) h.startFree hquiet⟩,
      (begun_step hm (Quiet.not_calling hd hquiet)).trans hbegun⟩
  exact ⟨h₃.1.2.1, h₃.1.2.2, h₃.2⟩

section Runs

/-- A repeating timer with interval 0 is started and executed until its callback runs. -/
def untilCallback : List (Action Unit Unit Unit) :=
  [.setHandler () true, .start () () 0 true] ++ List.replicate 8 (.thread () false) ++
    [.enter] ++ List.replicate 8 (.loop true)

/-- The callback returns true, and the execution goes on until mState.store(Queued). -/
def untilStoreQueued : List (Action Unit Unit Unit) :=
  untilCallback ++ List.replicate 11 (.loop true) ++ [.loop false, .loop true]

def stopCall : List (Action Unit Unit Unit) :=
  .stop () () :: List.replicate 2 (.thread () false)

/-- stop() has stored mStopRequested while the callback runs, and is to return. -/
def stopInCallback : State Unit Unit Unit :=
  (system Unit Unit Unit oneSlot).after (StopInTime ()) (State.start 0) (untilCallback ++ stopCall)

def stoppedInCallback : State Unit Unit Unit :=
  (system Unit Unit Unit oneSlot).next stopInCallback (.thread () false)

/-- Five steps of the loop thread finish the execution. -/
def finishedInCallback : State Unit Unit Unit :=
  (system Unit Unit Unit oneSlot).after (NoStart (StopInTime ()) ()) stoppedInCallback
    (List.replicate 5 (.loop true))

theorem stop_never_lost_in_callback :
    (finishedInCallback.timer ()).mState = .stopped ∧ () ∉ finishedInCallback.mTimers ∧
      (finishedInCallback.history ()).begun = (finishedInCallback.history ()).begun :=
  stop_never_lost () stopInCallback stoppedInCallback finishedInCallback finishedInCallback
    (.thread () false) (List.replicate 5 (.loop true)) []
    (Machine.reachable_after (initial_start oneSlot) (by decide +kernel))
    (by decide +kernel)
    ⟨(), false, rfl, by decide +kernel⟩ (Machine.step_next (by decide +kernel))
    (Machine.path_after (by decide +kernel)) (by decide +kernel) (.nil _)

/-- stop() has stored mStopRequested when mState.store(Queued) is all that is left to do. -/
def stopBeforeStore : State Unit Unit Unit :=
  (system Unit Unit Unit oneSlot).after Machine.anyStep (State.start 0)
    (untilStoreQueued ++ stopCall)

def stoppedBeforeStore : State Unit Unit Unit :=
  (system Unit Unit Unit oneSlot).next stopBeforeStore (.thread () false)

def finishedBeforeStore : State Unit Unit Unit :=
  (system Unit Unit Unit oneSlot).after (NoStart Machine.anyStep ()) stoppedBeforeStore
    (List.replicate 2 (.loop true))

/-- Without the condition a request is lost: the timer is Queued again after stop(). -/
theorem stop_lost_before_store :
    ¬ StopNeverLost 1 ()
      (Machine.anyStep : State Unit Unit Unit → Action Unit Unit Unit → Prop) := by
  intro h
  have hstate : (finishedBeforeStore.timer ()).mState = .stopped :=
    (h stopBeforeStore stoppedBeforeStore finishedBeforeStore finishedBeforeStore
      (.thread () false) (List.replicate 2 (.loop true)) []
      (Machine.reachable_after (initial_start oneSlot) (by decide +kernel)) trivial
      ⟨(), false, rfl, by decide +kernel⟩ (Machine.step_next (by decide +kernel))
      (Machine.path_after (by decide +kernel)) (by decide +kernel) (.nil _)).1
  have hqueued : (finishedBeforeStore.timer ()).mState = .queued := by decide +kernel
  rw [hqueued] at hstate
  cases hstate

end Runs

end CWrapper.MainLoop
