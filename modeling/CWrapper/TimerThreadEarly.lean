import CWrapper.TimerThreadStart

/-!
The intervals with which no callback is early: those that an int can hold.
-/
namespace CWrapper.TimerThread

open Transition

variable {s s' : State} {a : Action} {x : Session} {answer : Bool}

/-- start() from outside reads the tick that the session counts from. -/
theorem follows_start {msec : BitVec 32} {rep : Bool} (hout : s.point.outer = true)
    (hstep : step s (.start msec rep) = some s') : Follows ⟨s.now, msec, 0, false⟩ s' := by
  have hpoint : s.point = .outside := by
    cases hpoint : s.point <;> simp_all [RunPoint.outer]
  simp only [step, startStep, State.configure, hpoint] at hstep
  obtain rfl := Option.some.inj hstep
  refine Or.inr ⟨0, rfl, ?_, ?_, trivial, le_rfl⟩
  · simp [Session.deadline, State.tickCount]
  · simp [Session.deadline]

/-- Any other step within a session, setInterval excepted. -/
theorem follows_step (hm : 2 * x.msec.toNat < 2 ^ 32) (hnow : s.now ≤ Timer.MaxTick)
    (hstep : step s a = some s') (hinside : ¬ begins s a)
    (hinterval : ∀ msec, a ≠ .setInterval msec)
    (hcalls : ∀ answer, a = .run answer → s.point.calls = false) (h : Follows x s) :
    Follows x s' := by
  rcases h with hover | ⟨j, h⟩
  · exact Or.inl (over_step hover hstep hinside)
  · cases a with
    | tick d =>
      simp only [step, Option.ite_none_right_eq_some] at hstep
      obtain rfl := Option.some.inj hstep.2
      exact Or.inr ⟨j, h.stay (Nat.le_add_right _ _) rfl rfl rfl
        (waits_later h.waits (Nat.le_add_right _ _))⟩
    | setHandler | setRepeat =>
      simp only [step, Option.ite_none_right_eq_some] at hstep
      obtain rfl := Option.some.inj hstep.2
      exact Or.inr ⟨j, h.stay le_rfl rfl rfl rfl h.waits⟩
    | setInterval msec => exact absurd rfl (hinterval msec)
    | start msec rep => exact Or.inl (over_startStep hstep hinside)
    | restart => exact Or.inl (over_startStep hstep hinside)
    | stop =>
      obtain rfl := Option.some.inj hstep
      unfold stopStep
      split
      · rename_i hpoint
        refine Or.inr ⟨j, h.stay le_rfl rfl rfl ?_ trivial⟩
        rw [hpoint]
        rfl
      · refine Or.inr ⟨j, h.stay le_rfl rfl rfl rfl ?_⟩
        have hwaits := h.waits
        cases hpoint : s.point <;> simp only [Waits, hpoint] at hwaits ⊢ <;> simp_all
    | started ok =>
      simp only [step] at hstep
      split at hstep
      · rename_i stopRequested hpoint
        obtain rfl := Option.some.inj hstep
        split
        · refine Or.inr ⟨j, h.stay le_rfl rfl rfl ?_ trivial⟩
          rw [hpoint]
          rfl
        · exact Or.inl ⟨rfl, trivial⟩
      · cases hstep
    | run answer => exact keeps_run hm hnow h (hcalls answer rfl) hstep

/-- A session without setInterval and with an interval that an int can hold keeps to it. -/
def OnTime (p : State × Option Session) : Prop :=
  p.1.now ≤ Timer.MaxTick ∧ ∀ x, p.2 = some x → x.changed = false →
    2 * x.msec.toNat < 2 ^ 32 → Follows x p.1

theorem runStep_now (hstep : runStep s answer = some s') : s'.now = s.now := by
  cases runStep_cases hstep <;> rfl

theorem startStep_now (hstep : startStep s = some s') : s'.now = s.now := by
  unfold startStep at hstep
  split at hstep <;> cases hstep <;> rfl

theorem step_clock (hstep : step s a = some s') (hnow : s.now ≤ Timer.MaxTick) :
    s'.now ≤ Timer.MaxTick := by
  cases a with
  | tick d =>
    simp only [step, Option.ite_none_right_eq_some] at hstep
    obtain rfl := Option.some.inj hstep.2
    exact hstep.1
  | setHandler | setRepeat | setInterval =>
    simp only [step, Option.ite_none_right_eq_some] at hstep
    obtain rfl := Option.some.inj hstep.2
    exact hnow
  | start msec rep =>
    have hsame : s'.now = s.now := startStep_now (s := s.configure msec rep) hstep
    rwa [hsame]
  | restart =>
    have hsame : s'.now = s.now := startStep_now (s := s.rebase) hstep
    rwa [hsame]
  | stop =>
    obtain rfl := Option.some.inj hstep
    unfold stopStep
    split <;> exact hnow
  | started ok =>
    simp only [step] at hstep
    split at hstep <;> cases hstep
    split <;> exact hnow
  | run answer => rwa [runStep_now hstep]

/-- A callback that begins is counted in its session. -/
theorem Follows.call (h : Follows x s) (hstep : runStep s answer = some s')
    (hcalls : s.point.calls = true) : Follows { x with begun := x.begun + 1 } s' := by
  cases hpoint : s.point with
  | call keepGoing =>
    simp only [runStep, hpoint] at hstep
    obtain rfl := Option.some.inj hstep
    rcases h with ⟨-, hover⟩ | ⟨j, h⟩
    · simp [hpoint] at hover
    · exact Or.inr ⟨j, keeps_call h hpoint⟩
  | _ => simp [hpoint, RunPoint.calls] at hcalls

/-- In a session without setInterval no callback begins before its time. -/
theorem onTime_step {p q : State × Option Session}
    (hstep : sessionSystem.step p a = some q) (h : OnTime p) : OnTime q := by
  obtain ⟨s, r⟩ := p
  obtain ⟨s', r'⟩ := q
  obtain ⟨hs, hnote⟩ := Machine.recorded_step_iff.mp hstep
  have hs : step s a = some s' := hs
  have hnote : r' = noteSession s a s' r := hnote
  obtain ⟨hnow, hfollows⟩ := h
  refine ⟨step_clock hs hnow, fun x hx hchanged hm => ?_⟩
  have hx : r' = some x := hx
  -- within a session the record stays as it is, unless a callback begins
  have hsame (hr : r' = r) (hinside : ¬ begins s a) (hinterval : ∀ msec, a ≠ .setInterval msec)
      (hcalls : ∀ answer, a = .run answer → s.point.calls = false) : Follows x s' :=
    follows_step hm hnow hs hinside hinterval hcalls (hfollows x (hr.symm.trans hx) hchanged hm)
  cases a with
  | start msec rep =>
    by_cases hout : s.point.outer = true
    · rw [noteSession, if_pos hout] at hnote
      obtain rfl := Option.some.inj (hnote.symm.trans hx)
      exact follows_start hout hs
    · rw [noteSession, if_neg hout] at hnote
      exact hsame hnote hout (by simp) (by simp)
  | restart =>
    by_cases hout : s.point.outer = true
    · rw [noteSession, if_pos hout] at hnote
      rw [hnote] at hx
      cases hx
    · rw [noteSession, if_neg hout] at hnote
      exact hsame hnote hout (by simp) (by simp)
  | setInterval msec =>
    rw [noteSession] at hnote
    rw [hnote] at hx
    obtain ⟨y, -, rfl⟩ := Option.map_eq_some_iff.mp hx
    cases hchanged
  | run answer =>
    cases hcalls : s.point.calls with
    | true =>
      rw [noteSession, if_pos hcalls] at hnote
      rw [hnote] at hx
      obtain ⟨y, hy, rfl⟩ := Option.map_eq_some_iff.mp hx
      exact (hfollows y hy hchanged hm).call hs hcalls
    | false =>
      rw [noteSession, if_neg (by simp [hcalls])] at hnote
      exact hsame hnote (by simp [begins]) (by simp) (fun _ _ => hcalls)
  | tick | setHandler | setRepeat | stop | started =>
    exact hsame hnote (by simp [begins]) (by simp) (by simp)

/-- In every reachable state a session without setInterval keeps to an interval that an int can
hold. -/
theorem onTime_reachable {p : State × Option Session}
    (h : sessionSystem.Reachable Machine.anyStep p) : OnTime p := by
  have hinv : sessionSystem.Invariant Machine.anyStep (fun _ => True) OnTime := by
    refine ⟨?_, fun p a q _ _ hstep hp => onTime_step hstep hp⟩
    rintro p ⟨⟨now, hnow, hstart⟩, hrecord⟩
    refine ⟨by rw [hstart]; exact hnow, fun x hx => ?_⟩
    rw [hrecord] at hx
    cases hx
  exact hinv.always h

/-- A session started at tick 0 with a handler that repeats. -/
def sessionAt (msec : BitVec 32) (now : ℕ) (point : RunPoint) : State where
  now := now
  running := true
  mHandler := true
  mRepeat := true
  mStartTime := 0#64
  mIntervalMs := msec
  point := point

theorem path_to_arm (msec : BitVec 32) :
    sessionSystem.Path Machine.anyStep (State.start 0, none)
      [.setHandler true, .start msec true, .started true, .run true]
      (sessionAt msec 0 .arm, some ⟨0, msec, 0, false⟩) := Machine.Path.of_run rfl

/-- The remaining time of a negative interval is negative, which gives a wait of 1 ms. -/
theorem arm_negative {msec : BitVec 32} (hneg : msec.toInt < 0) (x : Option Session) :
    sessionSystem.Path Machine.anyStep (sessionAt msec 0 .arm, x) [.run true]
      (sessionAt msec 0 (.msleep 1#32), x) := by
  have hremain : (0#64 + msec.signExtend 64 - 0#64).toInt = msec.toInt := by
    rw [BitVec.zero_add, BitVec.sub_zero, BitVec.toInt_signExtend_of_le (by decide)]
  have htimeout : timeoutOf (0#64 + msec.signExtend 64 - 0#64) = 1#32 := by
    rw [timeoutOf, if_pos (by omega)]
  refine Machine.Path.single trivial (Machine.recorded_step_iff.mpr ⟨?_, rfl⟩)
  show some (sessionAt msec 0 (.msleep (timeoutOf (0#64 + msec.signExtend 64 - 0#64)))) = _
  rw [htimeout]

theorem path_to_call (msec : BitVec 32) (x : Option Session) :
    sessionSystem.Path Machine.anyStep (sessionAt msec 0 (.msleep 1#32), x)
      [.run true, .tick 1, .run true, .run true] (sessionAt msec 1 (.call true), x) :=
  Machine.Path.of_run rfl

/-- The first callback of such a session may begin at the tick after start(). -/
theorem negative_early {msec : BitVec 32} (hneg : msec.toInt < 0) :
    sessionSystem.Reachable Machine.anyStep
      (sessionAt msec 1 (.call true), some ⟨0, msec, 0, false⟩) :=
  ⟨(State.start 0, none), _, ⟨⟨0, by decide, rfl⟩, rfl⟩,
    (path_to_arm msec).append ((arm_negative hneg _).append (path_to_call msec _))⟩

theorem toInt_neg_of_large {msec : BitVec 32} (h : INT32_MAX < msec.toNat) : msec.toInt < 0 := by
  have hlt := msec.isLt
  rw [INT32_MAX] at h
  rw [BitVec.toInt_eq_toNat_cond, if_neg (by omega)]
  omega

/-- No callback of any session that start() begins with this interval is early, if and only if an
int can hold the interval. -/
theorem never_early_iff (msec : BitVec 32) :
    (∀ p, sessionSystem.Reachable Machine.anyStep p → NeverEarly msec p) ↔
      (msec.toNat : ℤ) ≤ INT32_MAX := by
  constructor
  · intro h
    by_contra hlarge
    rw [not_le] at hlarge
    have hearly := h _ (negative_early (toInt_neg_of_large hlarge)) _ rfl rfl rfl rfl
    have hle : 0 + (0 + 1) * msec.toNat ≤ 1 := hearly
    rw [INT32_MAX] at hlarge
    omega
  · rintro hsmall p hp x hx rfl hchanged hcalls
    rw [INT32_MAX] at hsmall
    exact ((onTime_reachable hp).2 x hx hchanged (by omega)).on_time hcalls

/-- With the interval 2^31 the first callback begins after 1 ms. -/
theorem first_call_early : ¬ ∀ msec p, sessionSystem.Reachable Machine.anyStep p →
    NeverEarly msec p := by
  intro h
  have hearly := h 0x80000000#32 _ (negative_early (by decide)) _ rfl rfl rfl rfl
  have hle : 2147483648 ≤ 1 := hearly
  omega

end CWrapper.TimerThread
