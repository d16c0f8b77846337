import CWrapper.TimerList

/-!
When callbacks begin. A deadline is set by start() or, after a callback, by
executeFromLoop, and mExpiry holds it from then on; the loop thread compares it with the
clock under mTimerLock, which keeps start() from replacing it until the timer is out of
the list, and the state word keeps start() waiting after that.
-/
set_option linter.unusedSectionVars false

namespace CWrapper.TimerLife

open Timer (Object Call Control Exec History State MaxTick makeExpiry Msec)

structure FiniteIntervals (v : Life) : Prop where
  control : ∀ msec rep, v.control = some (.configure msec rep) → msec ≠ Timer.Infinite
  exec : ∀ interval, v.exec = some (.readTick interval) → interval ≠ Timer.Infinite

theorem afterStop_finite {k : Call} {msec : Msec} {rep : Bool}
    (h : Timer.afterStop k = .configure msec rep) : msec ≠ Timer.Infinite := by
  cases k with
  | start msec' rep' =>
    simp only [Timer.afterStop] at h
    split at h
    · cases h
    · cases h
      assumption
  | _ => cases h

theorem controlStep_finite {o o' : Object} {now : ℕ} {again : Bool} {c : Control}
    {msec : Msec} {rep : Bool}
    (h : Timer.controlStep o now again c = some (o', .configure msec rep)) :
    msec ≠ Timer.Infinite := by
  cases c with
  | load k =>
    simp only [Timer.controlStep, Option.some.injEq, Prod.mk.injEq] at h
    obtain ⟨_, h⟩ := h
    split at h
    · exact afterStop_finite h
    · cases h
    · cases h
    · cases h
  | exchange k =>
    simp only [Timer.controlStep] at h
    split at h <;> cases h
  | requestRunning k => cases k <;> cases h
  | _ => cases h

theorem executeStep_finite {o o' : Object} {now : ℕ} {keep : Bool} {e : Exec}
    {interval : Msec} (h : Timer.executeStep o now keep e = some (o', .readTick interval)) :
    interval ≠ Timer.Infinite := by
  cases e with
  | testStop k i r hh =>
    simp only [Timer.executeStep, Option.some.injEq, Prod.mk.injEq] at h
    obtain ⟨_, h⟩ := h
    split at h
    · rename_i hkeep
      cases h
      simp only [Bool.and_eq_true, bne_iff_ne] at hkeep
      exact hkeep.1.2
    · cases h
  | exchange | readHandler | requeueLoad | requeueTest | requeueTestAgain =>
    simp only [Timer.executeStep, Option.some.injEq, Prod.mk.injEq] at h
    split at h <;> grind
  | _ => cases h

theorem wake_configure {c : Option Control} {msec : Msec} {rep : Bool}
    (h : c.map wake = some (.configure msec rep)) : c = some (.configure msec rep) := by
  cases c with
  | none => cases h
  | some c => cases c <;> first | exact h | cases h

/-- start(INFINITE) returns at once, and a timer with that interval is not put back. -/
theorem finite_step {a : Actor} {v v' : Life} (hstep : LifeStep a v v')
    (h : FiniteIntervals v) : FiniteIntervals v' := by
  cases hstep with
  | begins k hc => exact ⟨by simp, h.exec⟩
  | object hc hstep =>
    refine ⟨?_, h.exec⟩
    intro msec rep hc'
    cases hc'
    exact controlStep_finite hstep
  | advance hc hstep =>
    refine ⟨?_, h.exec⟩
    intro msec rep hc'
    generalize hd : Control.configure msec rep = d at hc'
    cases hc'
    cases hstep with
    | broadcast k => exact afterStop_finite hd.symm
    | _ => cases hd
  | test hc =>
    refine ⟨?_, h.exec⟩
    intro msec rep hc'
    simp only at hc'
    split at hc' <;> cases hc'
  | remove | addFound | addLock | insert | leave => exact ⟨by simp, h.exec⟩
  | execute he hstep =>
    refine ⟨h.control, ?_⟩
    intro interval he'
    cases he'
    exact executeStep_finite hstep
  | execAdvance he hstep =>
    refine ⟨h.control, ?_⟩
    intro interval he'
    cases hstep <;> cases he'
  | @popFront _ b he =>
    refine ⟨h.control, ?_⟩
    intro interval he'
    cases b <;> cases he'
  | broadcastPending | broadcastLast =>
    exact ⟨fun _ _ hc => h.control _ _ (wake_configure hc), by simp⟩
  | take | requeueFound | requeueLock | requeueInsert | requeueRemove =>
    exact ⟨h.control, by simp⟩
  | _ => exact ⟨h.control, h.exec⟩

/-- mExpiry, or what is about to be stored in it. -/
def expiryToBe (v : Life) : ℕ :=
  match v.exec with
  | some (.storeExpiry expiry) => expiry
  | _ => v.o.mExpiry

def Deadline (v : Life) : Prop :=
  ∀ tick interval, v.history.arming = some (tick, interval) →
    interval ≠ Timer.Infinite ∧ tick ≤ MaxTick ∧ expiryToBe v = makeExpiry interval tick

theorem Consistent.not_storeExpiry {v : Life} {msec : Msec} {rep : Bool} (h : Consistent v)
    (hc : v.control = some (.configure msec rep)) (expiry : ℕ) :
    v.exec ≠ some (.storeExpiry expiry) := by
  intro he
  unfold Consistent at h
  rw [hc, he] at h
  have hst := h.2.2
  rw [h.1.1] at hst
  cases hst

theorem deadline_object {v : Life} {c c' : Control} {o' : Object} {again : Bool}
    (hc : v.control = some c)
    (hstep : Timer.controlStep v.o v.now again c = some (o', c')) (hcons : Consistent v)
    (hfin : FiniteIntervals v) (hnow : v.now ≤ MaxTick) (h : Deadline v) :
    Deadline { v with o := o', control := some c', history := v.history.control v.now c } := by
  intro tick interval harm
  have hkept : (∀ msec rep, c ≠ .configure msec rep) → expiryToBe { v with
      o := o', control := some c', history := v.history.control v.now c } = expiryToBe v := by
    intro hne
    simp only [expiryToBe, controlStep_expiry hstep hne]
  cases c with
  | configure msec rep =>
    simp only [History.control, Option.some.injEq, Prod.mk.injEq] at harm
    obtain ⟨rfl, rfl⟩ := harm
    refine ⟨hfin.control _ _ hc, hnow, ?_⟩
    have hne := hcons.not_storeExpiry hc
    cases hstep
    unfold expiryToBe
    split
    · rename_i expiry he
      exact absurd he (hne expiry)
    · rfl
  | _ =>
    obtain ⟨hi, ht, he⟩ := h tick interval harm
    exact ⟨hi, ht, (hkept (by simp)).trans he⟩

theorem deadline_execute {v : Life} {e e' : Exec} {o' : Object} {keep : Bool}
    (he : v.exec = some e)
    (hstep : Timer.executeStep v.o v.now keep e = some (o', e'))
    (hfin : FiniteIntervals v) (hnow : v.now ≤ MaxTick) (h : Deadline v) :
    Deadline { v with o := o', exec := some e', history := v.history.execute v.now e } := by
  intro tick interval harm
  cases e with
  | readTick i =>
    simp only [History.execute, Option.some.injEq, Prod.mk.injEq] at harm
    obtain ⟨rfl, rfl⟩ := harm
    cases hstep
    exact ⟨hfin.exec _ he, hnow, rfl⟩
  | storeExpiry x =>
    obtain ⟨hi, ht, hexp⟩ := h tick interval harm
    cases hstep
    refine ⟨hi, ht, ?_⟩
    simpa [expiryToBe, he] using hexp
  | _ =>
    obtain ⟨hi, ht, hexp⟩ := h tick interval harm
    refine ⟨hi, ht, ?_⟩
    have hexpiry := executeStep_expiry hstep (by simp)
    rw [← hexp]
    simp only [expiryToBe, he, hexpiry]
    simp only [Timer.executeStep] at hstep
    grind

/-- A step that writes no expiry. -/
theorem Deadline.keep {v v' : Life} (h : Deadline v)
    (harm : v'.history.arming = v.history.arming) (hexp : expiryToBe v' = expiryToBe v) :
    Deadline v' := by
  intro tick interval harm'
  rw [hexp]
  exact h tick interval (harm ▸ harm')

/-- mExpiry changes when the timer is armed, and becomes that tick plus the interval. -/
theorem deadline_step {a : Actor} {v v' : Life} (hstep : LifeStep a v v') (hcons : Consistent v)
    (hfin : FiniteIntervals v) (hnow : v.now ≤ MaxTick) (h : Deadline v) : Deadline v' := by
  cases hstep with
  | object hc hstep => exact deadline_object hc hstep hcons hfin hnow h
  | execute he hstep => exact deadline_execute he hstep hfin hnow h
  | config o' hstate hstop hexpiry => exact h.keep rfl (by simp only [expiryToBe, hexpiry])
  | execAdvance he hstep => exact h.keep rfl (by cases hstep <;> simp [expiryToBe, he])
  | @popFront _ b he => exact h.keep rfl (by cases b <;> simp [expiryToBe, he])
  | broadcastLast he hlast => exact h.keep rfl (by cases hlast <;> simp [expiryToBe, he])
  | take he | broadcastPending he | requeueFound he | requeueLock he | requeueInsert he
  | requeueRemove he => exact h.keep rfl (by simp [expiryToBe, he])
  | _ => exact h.keep rfl rfl

/-- A timer that was never armed is Stopped, and no start() of it is past its section. -/
def Unarmed (v : Life) : Prop :=
  v.o.mState = .stopped ∧ v.control ≠ some .clearRequest ∧ v.control ≠ some .queue

theorem unarmed_controlStep {o o' : Object} {now : ℕ} {again : Bool} {c c' : Control}
    (h : Timer.controlStep o now again c = some (o', c')) (hst : o.mState = .stopped)
    (hc : ∀ msec rep, c ≠ .configure msec rep) (hclear : c ≠ .clearRequest)
    (hqueue : c ≠ .queue) : o'.mState = .stopped ∧ c' ≠ .clearRequest ∧ c' ≠ .queue := by
  cases c with
  | load k =>
    simp only [Timer.controlStep, hst] at h
    cases h
    refine ⟨hst, ?_⟩
    cases k with
    | start msec rep =>
      simp only [Timer.afterStop]
      split <;> simp
    | _ => simp [Timer.afterStop]
  | exchange k =>
    simp only [Timer.controlStep, hst] at h
    cases h
    exact ⟨hst, by simp, by simp⟩
  | requestQueued k => cases h; exact ⟨hst, by simp, by simp⟩
  | requestRunning k => cases k <;> cases h <;> exact ⟨hst, by simp, by simp⟩
  | configure msec rep => exact absurd rfl (hc msec rep)
  | clearRequest => exact absurd rfl hclear
  | queue => exact absurd rfl hqueue
  | _ => cases h

theorem unarmed_execute {v : Life} {e e' : Exec} {o' : Object} {now : ℕ} {keep : Bool}
    (he : v.exec = some e) (hstep : Timer.executeStep v.o now keep e = some (o', e'))
    (hcons : Consistent v) (hst : v.o.mState = .stopped) : o'.mState = .stopped := by
  unfold Consistent at hcons
  rw [he, hst] at hcons
  cases e with
  | exchange =>
    simp only [Timer.executeStep, hst] at hstep
    cases hstep
    exact hst
  | storePending => cases hcons.2.2
  | storeQueued => cases hcons.2.2
  | storeStopped => cases hstep; rfl
  | _ =>
    first
    | cases hstep; exact hst
    | cases hstep

theorem unarmed_wake {c : Option Control}
    (h : c ≠ some .clearRequest ∧ c ≠ some .queue) :
    c.map wake ≠ some .clearRequest ∧ c.map wake ≠ some .queue := by
  cases c with
  | none => simp
  | some c => cases c <;> simp_all [wake]

theorem unarmed_advance {c c' : Control} (h : Advance c c') :
    c' ≠ .clearRequest ∧ c' ≠ .queue := by
  cases h with
  | broadcast k =>
    cases k with
    | start msec rep =>
      simp only [Timer.afterStop]
      split <;> simp
    | _ => simp [Timer.afterStop]
  | _ => simp

/-- Without an arming the timer has never left Stopped. -/
theorem armed_step {a : Actor} {v v' : Life} (hstep : LifeStep a v v') (hcons : Consistent v)
    (h : v.history.arming = none → Unarmed v) (harm : v'.history.arming = none) :
    Unarmed v' := by
  cases hstep with
  | config o' hstate hstop hexpiry =>
    obtain ⟨hst, hc⟩ := h harm
    exact ⟨hstate.trans hst, hc⟩
  | begins k hc => exact ⟨(h harm).1, by simp, by simp⟩
  | @object _ c c' o' again hc hstep =>
    have hne : ∀ msec rep, c ≠ .configure msec rep := by
      rintro msec rep rfl
      cases harm
    have hold : v.history.arming = none := by
      cases c <;> first | exact harm | exact absurd rfl (hne _ _)
    obtain ⟨hst, hclear, hqueue⟩ := h hold
    rw [hc] at hclear hqueue
    have hnew := unarmed_controlStep hstep hst hne (by simpa using hclear) (by simpa using hqueue)
    exact ⟨hnew.1, by simpa using hnew.2.1, by simpa using hnew.2.2⟩
  | advance hc hstep =>
    have hnew := unarmed_advance hstep
    exact ⟨(h harm).1, by simpa using hnew.1, by simpa using hnew.2⟩
  | test hc =>
    refine ⟨(h harm).1, ?_⟩
    simp only
    split <;> simp
  | remove | addFound | addLock | insert | leave => exact ⟨(h harm).1, by simp, by simp⟩
  | @execute _ e e' o' keep he hstep =>
    have hold : v.history.arming = none := by
      cases e <;> first | exact harm | cases harm
    exact ⟨unarmed_execute he hstep hcons (h hold).1, (h hold).2⟩
  | broadcastPending | broadcastLast => exact ⟨(h harm).1, unarmed_wake (h harm).2⟩
  | _ => exact h harm

/-- The loop thread has found the timer expired and has not begun its callback. -/
def firing : Exec → Bool
  | .exchange | .clearRequest | .popFront _ | .readHandler | .call => true
  | _ => false

theorem executeStep_firing {o o' : Object} {now : ℕ} {keep : Bool} {e e' : Exec}
    (h : Timer.executeStep o now keep e = some (o', e')) (he' : firing e' = true) :
    firing e = true := by
  cases e with
  | exchange | clearRequest | readHandler | call => rfl
  | requeueLoad | testStop | requeueTest | requeueTestAgain =>
    simp only [Timer.executeStep] at h
    grind [firing]
  | _ => cases h <;> cases he'

theorem firing_not_configure {v : Life} {msec : Msec} {rep : Bool} (hcons : Consistent v)
    (he : v.exec.any firing = true) : v.control ≠ some (.configure msec rep) := by
  intro hc
  obtain ⟨e, hexec, hfire⟩ := (Option.any_eq_true _ _).mp he
  unfold Consistent at hcons
  rw [hc, hexec] at hcons
  obtain ⟨⟨hst, hl⟩, hphase⟩ := hcons
  rw [hst] at hphase
  cases e with
  | exchange => exact hl hphase.1
  | clearRequest => exact hl hphase.1
  | popFront b => cases b <;> exact hl hphase.1
  | readHandler => cases hphase.2
  | call => cases hphase.2
  | _ => cases hfire

/-- The expiry that was found to be past stays until the callback begins. -/
theorem due_step {a : Actor} {v v' : Life} (hstep : LifeStep a v v') (hcons : Consistent v)
    (h : v.exec.any firing = true → v.o.mExpiry ≤ v.now) (hfire : v'.exec.any firing = true) :
    v'.o.mExpiry ≤ v'.now := by
  cases hstep with
  | tick d hd => exact Nat.le_add_right_of_le (h hfire)
  | config o' hstate hstop hexpiry => exact hexpiry.le.trans (h hfire)
  | object hc hstep =>
    have hexpiry : _ = v.o.mExpiry := controlStep_expiry hstep (by
      rintro msec rep rfl
      exact firing_not_configure hcons hfire hc)
    exact hexpiry.le.trans (h hfire)
  | take he hl hfree hexp => exact hexp
  | @execute _ e e' o' keep he hstep =>
    have hold : firing e = true := executeStep_firing hstep hfire
    have hexpiry : _ = v.o.mExpiry := executeStep_expiry hstep (by
      rintro x rfl
      cases hold)
    exact hexpiry.le.trans (h (by rw [he]; exact hold))
  | execAdvance he hstep => cases hstep <;> cases hfire
  | @popFront _ b he => exact h (by rw [he]; rfl)
  | broadcastPending | broadcastLast | requeueFound | requeueLock | requeueInsert
  | requeueRemove => cases hfire
  | _ => exact h hfire

/-- As many callbacks run as the loop thread is inside of. -/
def runningNow (v : Life) : ℕ := if v.exec = some .callback then 1 else 0

/-- A callback is counted from its beginning to its end. -/
theorem running_step {a : Actor} {v v' : Life} (hstep : LifeStep a v v')
    (h : v.history.running = runningNow v) : v'.history.running = runningNow v' := by
  unfold runningNow at h ⊢
  cases hstep with
  | @object _ c c' o' again hc hstep => cases c <;> exact h
  | take he hl hfree hexp => simpa [he] using h
  | @execute _ e e' o' keep he hstep =>
    rw [he] at h
    cases e with
    | call =>
      cases hstep
      simpa [History.execute] using h
    | callback =>
      cases hstep
      have hone : v.history.running = 1 := by simpa using h
      simp [History.execute, hone]
    | exchange | readHandler | testStop | requeueLoad | requeueTest | requeueTestAgain =>
      simp only [Timer.executeStep] at hstep
      grind [History.execute]
    | _ =>
      first
      | cases hstep; simpa [History.execute] using h
      | cases hstep
  | execAdvance he hstep => cases hstep <;> simpa [he] using h
  | @popFront _ b he => cases b <;> simpa [he] using h
  | broadcastLast he hlast => cases hlast <;> simpa [he] using h
  | broadcastPending he | requeueFound he | requeueLock he | requeueInsert he
  | requeueRemove he => simpa [he] using h
  | _ => exact h

def oneShot : Exec → Bool
  | .exchange | .clearRequest | .popFront _ | .readHandler | .call | .callback | .readConfig _
  | .storeStopped | .broadcastStopped => true
  | .testStop _ _ rep _ => !rep
  | _ => false

/-- The execution has taken the timer and not called the handler. -/
def loaded : Exec → Bool
  | .clearRequest | .popFront true | .readHandler | .call => true
  | _ => false

/-- Callbacks that the timer is good for without another start(). -/
def shots (v : Life) : ℕ := if v.o.mState = .queued ∨ v.exec.any loaded = true then 1 else 0

structure OneShot (v : Life) : Prop where
  exec : v.exec.all oneShot = true
  count : v.history.begun + shots v ≤ v.history.armed

theorem shots_le_one (v : Life) : shots v ≤ 1 := by
  unfold shots
  split <;> omega

theorem shots_le {v v' : Life} (h : v'.o.mState = .queued ∨ v'.exec.any loaded = true →
    v.o.mState = .queued ∨ v.exec.any loaded = true) : shots v' ≤ shots v := by
  unfold shots
  split
  · rw [if_pos (h ‹_›)]
  · exact Nat.zero_le _

theorem controlStep_queued {o o' : Object} {now : ℕ} {again : Bool} {c c' : Control}
    (h : Timer.controlStep o now again c = some (o', c')) (hc : c ≠ .queue)
    (hst : o'.mState = .queued) : o.mState = .queued := by
  cases c with
  | queue => exact absurd rfl hc
  | exchange k =>
    simp only [Timer.controlStep] at h
    split at h
    · cases h
      cases hst
    · cases h
      exact hst
  | requestRunning k => cases k <;> cases h <;> exact hst
  | _ =>
    first
    | cases h; exact hst
    | cases h

theorem oneShot_object {v : Life} {c c' : Control} {o' : Object} {again : Bool}
    (hstep : Timer.controlStep v.o v.now again c = some (o', c')) (h : OneShot v) :
    OneShot { v with o := o', control := some c', history := v.history.control v.now c } := by
  refine ⟨h.exec, ?_⟩
  by_cases hc : c = .queue
  · subst hc
    have hle := shots_le_one
      { v with o := o', control := some c', history := v.history.control v.now .queue }
    have := h.count
    simp only [History.control]
    simp only [History.control] at hle
    omega
  · have hle : shots { v with
        o := o', control := some c', history := v.history.control v.now c } ≤ shots v := by
      refine shots_le ?_
      rintro (hst | hexec)
      · exact Or.inl (controlStep_queued hstep hc hst)
      · exact Or.inr hexec
    have hsame : (v.history.control v.now c).begun = v.history.begun ∧
        (v.history.control v.now c).armed = v.history.armed := by
      cases c <;> first | exact absurd rfl hc | exact ⟨rfl, rfl⟩
    have := h.count
    simp only [hsame]
    omega

theorem executeStep_oneShot {o o' : Object} {now : ℕ} {keep : Bool} {e e' : Exec}
    (h : Timer.executeStep o now keep e = some (o', e')) (hrep : o.mRepeat = false)
    (he : oneShot e = true) : oneShot e' = true := by
  cases e <;> simp only [Timer.executeStep] at h <;> grind [oneShot]

theorem executeStep_shots {o o' : Object} {now : ℕ} {keep : Bool} {e e' : Exec}
    (h : Timer.executeStep o now keep e = some (o', e')) (he : oneShot e = true)
    (hnew : o'.mState = .queued ∨ loaded e' = true) : o.mState = .queued ∨ loaded e = true := by
  cases e <;> simp only [Timer.executeStep] at h <;> grind [oneShot, loaded]

theorem oneShot_execute {v : Life} {e e' : Exec} {o' : Object} {keep : Bool}
    (he : v.exec = some e)
    (hstep : Timer.executeStep v.o v.now keep e = some (o', e')) (hcons : Consistent v)
    (hrep : v.o.mRepeat = false) (h : OneShot v) :
    OneShot { v with o := o', exec := some e', history := v.history.execute v.now e } := by
  have hone : oneShot e = true := by simpa [he] using h.exec
  refine ⟨executeStep_oneShot hstep hrep hone, ?_⟩
  have hcount := h.count
  by_cases hcall : e = .call
  · subst hcall
    cases hstep
    unfold Consistent at hcons
    rw [he] at hcons
    have hst : v.o.mState = .executing := hcons.2.2
    have hbefore : shots v = 1 := by simp [shots, he, loaded]
    have hafter : shots { v with
        exec := some .callback, history := v.history.execute v.now .call } = 0 := by
      simp [shots, hst, loaded]
    rw [hafter]
    simp only [History.execute]
    omega
  · have hle : shots { v with
        o := o', exec := some e', history := v.history.execute v.now e } ≤ shots v := by
      refine shots_le fun hnew => ?_
      rw [he]
      exact executeStep_shots hstep hone hnew
    have hsame : (v.history.execute v.now e).begun = v.history.begun ∧
        (v.history.execute v.now e).armed = v.history.armed := by
      cases e <;> first | exact absurd rfl hcall | exact ⟨rfl, rfl⟩
    simp only [hsame]
    omega

/-- While mRepeat is false no callback begins without a start() of its own. -/
theorem oneShot_step {a : Actor} {v v' : Life} (hstep : LifeStep a v v') (hcons : Consistent v)
    (hrep : v.o.mRepeat = false) (h : OneShot v) : OneShot v' := by
  have hkeep : ∀ w : Life, w.history.begun = v.history.begun →
      w.history.armed = v.history.armed → shots w ≤ shots v → w.exec.all oneShot = true →
      OneShot w := by
    intro w hbegun harmed hshots hexec
    have := h.count
    exact ⟨hexec, by omega⟩
  cases hstep with
  | object hc hstep => exact oneShot_object hstep h
  | execute he hstep => exact oneShot_execute he hstep hcons hrep h
  | config o' hstate hstop hexpiry =>
    exact hkeep _ rfl rfl (shots_le (by simp [hstate])) h.exec
  | take he hl hfree hexp =>
    exact hkeep _ rfl rfl (shots_le (by simp [he, loaded])) rfl
  | execAdvance he hstep =>
    have hone := h.exec
    rw [he] at hone
    cases hstep <;> cases hone
  | @popFront _ b he =>
    cases b with
    | true => exact hkeep _ rfl rfl (shots_le (by simp [he, loaded])) rfl
    | false => exact hkeep _ rfl rfl (shots_le (by simp [he, loaded])) rfl
  | broadcastLast he hlast =>
    exact hkeep _ rfl rfl (shots_le (by simpa using Or.inl)) rfl
  | broadcastPending he | requeueFound he | requeueLock he | requeueInsert he
  | requeueRemove he => simpa [he, oneShot] using h.exec
  | _ => exact hkeep _ rfl rfl (shots_le id) h.exec

end CWrapper.TimerLife

namespace CWrapper.MainLoop

open Timer (Control Exec MaxTick makeExpiry Msec)
open TimerLife Transition

variable {T Th F : Type} [DecidableEq T] [DecidableEq Th]

structure Scheduled (v : Life) : Prop where
  finite : FiniteIntervals v
  deadline : Deadline v
  armed : v.history.arming = none → Unarmed v
  due : v.exec.any firing = true → v.o.mExpiry ≤ v.now
  running : v.history.running = runningNow v

variable {capacity : ℕ+} {s s' : State T Th F} {a : Action T Th F} {t : T}

/-- One step keeps mExpiry, the arming and the callbacks in line. -/
theorem scheduled_step (hm : Moves capacity s a s') (hd : Disciplined s)
    (h : Scheduled (s.life t)) : Scheduled (s'.life t) := by
  have hstep := hd.life_step hm t
  have hcons := hd.consistent t
  exact ⟨finite_step hstep h.finite,
    deadline_step hstep hcons h.finite hd.clocked.bound h.deadline,
    armed_step hstep hcons h.armed, due_step hstep hcons h.due, running_step hstep h.running⟩

/-- mExpiry is the deadline of the last arming, and has come when a callback begins. -/
theorem scheduled_invariant (t : T) : (system T Th F capacity).Invariant Machine.anyStep
    Disciplined (fun s => Scheduled (s.life t)) where
  init := by
    rintro s ⟨now, _, rfl⟩
    refine ⟨⟨?_, ?_⟩, ?_, ?_, ?_, ?_⟩ <;>
      simp [State.life, State.start, State.control, LoopPoint.on, ThreadPoint.on, Deadline, Unarmed,
        Timer.History.new, Timer.Object.new, runningNow]
  step s a s' _ hd hstep h := scheduled_step (moves_of_step hstep) hd h

/-- With mRepeat false, an arming is good for one callback. -/
theorem oneShot_invariant (t : T) : (system T Th F capacity).Invariant
    (fun s _ => (s.timer t).mRepeat = false) Disciplined (fun s => OneShot (s.life t)) where
  init := by
    rintro s ⟨now, _, rfl⟩
    constructor <;> simp [State.life, State.start, LoopPoint.on, Timer.History.new, shots,
      Timer.Object.new]
  step s a s' hrep hd hstep h :=
    oneShot_step (hd.life_step (moves_of_step hstep) t) (hd.consistent t) hrep h

theorem makeExpiry_add {tick : ℕ} {interval : Msec} (htick : tick ≤ MaxTick)
    (hfin : interval ≠ Timer.Infinite) : makeExpiry interval tick = tick + interval.toNat := by
  have hlt := interval.isLt
  unfold makeExpiry
  rw [if_neg hfin]
  refine Nat.mod_eq_of_lt ?_
  have hmax : MaxTick + UInt32.size ≤ UInt64.size := by decide
  have hsize : UInt32.size = 4294967296 := rfl
  omega

/-- A callback that begins has a deadline, and the clock is not before it. -/
theorem Scheduled.on_time (hd : Disciplined s) (h : Scheduled (s.life t))
    (hloop : s.loop = .exec t .call) : ∃ tick msec,
      (s.history t).arming = some (tick, msec) ∧ tick + msec.toNat ≤ s.now := by
  have hexec : (s.life t).exec = some .call := by simp [State.life, hloop, LoopPoint.on]
  have hcons := hd.consistent t
  unfold Consistent at hcons
  rw [hexec] at hcons
  cases harm : (s.history t).arming with
  | none =>
    have hst := (h.armed harm).1
    rw [hcons.2.2] at hst
    cases hst
  | some arming =>
    obtain ⟨tick, msec⟩ := arming
    obtain ⟨hfin, htick, hexp⟩ := h.deadline tick msec harm
    refine ⟨tick, msec, rfl, ?_⟩
    rw [makeExpiry_add htick hfin] at hexp
    have hpending : expiryToBe (s.life t) = (s.timer t).mExpiry := by
      unfold expiryToBe
      rw [hexec]
      rfl
    have hdue : (s.timer t).mExpiry ≤ s.now := h.due (by rw [hexec]; rfl)
    omega

/-- The firing discipline. The loop thread stands at the beginning of a callback of `t` in
the first part and in the second half of the second part. -/
theorem timer_firing (t : T) (hreach : (system T Th F capacity).Reachable Machine.anyStep s) :
    (s.loop = .exec t .call → ∃ tick msec,
      (s.history t).arming = some (tick, msec) ∧ tick + msec.toNat ≤ s.now) ∧
    ((s.history t).running ≤ 1 ∧ (s.loop = .exec t .call → (s.history t).running = 0)) ∧
    ((system T Th F capacity).Reachable (fun s _ => (s.timer t).mRepeat = false) s →
      (s.history t).begun ≤ (s.history t).armed) := by
  have hd := disciplined hreach
  have hsched := (scheduled_invariant t).reachable (fun _ => disciplined) hreach
  have hrunning : (s.history t).running = runningNow (s.life t) := hsched.running
  refine ⟨hsched.on_time hd, ⟨?_, ?_⟩, ?_⟩
  · rw [hrunning]
    unfold runningNow
    split <;> omega
  · intro hloop
    rw [hrunning]
    simp [runningNow, State.life, hloop, LoopPoint.on]
  · intro hrep
    have hone := (oneShot_invariant t).reachable (fun _ => disciplined) hrep
    exact Nat.le_of_add_right_le hone.count

section Runs

/-- A timer of 5 ms that is started at tick 0 is about to call its handler at tick 7. -/
def untilSeven : List (Action Unit Unit Unit) :=
  [.setHandler () true, .start () () 5 false] ++
    List.replicate 8 (.thread () false) ++ [.tick 7, .enter] ++ List.replicate 7 (.loop true)

def callingAtSeven : State Unit Unit Unit :=
  (system Unit Unit Unit oneSlot).after Machine.anyStep (State.start 0) untilSeven

theorem timer_firing_at_seven : ∃ tick msec,
    (callingAtSeven.history ()).arming = some (tick, msec) ∧
      tick + msec.toNat ≤ callingAtSeven.now :=
  (timer_firing () (Machine.reachable_after (initial_start oneSlot) (by decide +kernel))).1
    (by decide +kernel)

end Runs

end CWrapper.MainLoop
