import CWrapper.Words
import CWrapper.TimerThread

/-!
When the callbacks of a session begin. The deadline is computed from mIntervalMs as an int, so an
interval from 2^31 on counts as a negative one and leads to waits of 1 ms. The record keeps what
start() has read and been given, and how many callbacks have begun.
-/
namespace CWrapper.TimerThread

open SignedWords Transition

/-- The session that start() began last. -/
structure Session where
  tick : ℕ
  msec : BitVec 32
  /-- Callbacks. -/
  begun : ℕ
  /-- setInterval has been called. -/
  changed : Bool
  deriving DecidableEq, Repr

def RunPoint.calls : RunPoint → Bool
  | .call _ => true
  | _ => false

/-- run() is not active, nor about to be. -/
def RunPoint.outer : RunPoint → Bool
  | .outside => true
  | _ => false

/-- A session that restart() began has no entry. -/
def noteSession (s : State) (a : Action) (_ : State) (x : Option Session) : Option Session :=
  match a with
  | .start msec _ => if s.point.outer then some ⟨s.now, msec, 0, false⟩ else x
  | .restart => if s.point.outer then none else x
  | .setInterval _ => x.map fun x => { x with changed := true }
  | .run _ => if s.point.calls then x.map fun x => { x with begun := x.begun + 1 } else x
  | .tick _ | .setHandler _ | .setRepeat _ | .stop | .started _ => x

def sessionSystem : Machine (State × Option Session) Action := system.recorded none noteSession

/-- In a session with this interval and without setInterval, the next callback does not begin
before the tick of start() plus the interval times its number. -/
def NeverEarly (msec : BitVec 32) (p : State × Option Session) : Prop :=
  ∀ x, p.2 = some x → x.msec = msec → x.changed = false → p.1.point.calls = true →
    x.tick + (x.begun + 1) * msec.toNat ≤ p.1.now

/-- The end of the wait for the callback after `j` of them. -/
def Session.deadline (x : Session) (j : ℕ) : ℕ := x.tick + j * x.msec.toNat

def State.over (s : State) : Prop :=
  s.running = false ∧ match s.point with
    | .starting _ | .call _ => False
    | _ => True

/-- What the wait for the deadline has come to. -/
def Waits (deadline : ℕ) (s : State) : Prop :=
  match s.point with
  | .outside | .starting _ | .test | .arm => True
  | .msleep timeoutMs => 0 < timeoutMs.toInt ∧ deadline ≤ s.now + timeoutMs.toNat
  | .wait expireTime => deadline ≤ expireTime
  | .fire => s.running = true → deadline ≤ s.now
  | .call _ | .callback _ | .finish _ => deadline ≤ s.now

/-- One where the callback of the wait has begun. -/
def RunPoint.served : RunPoint → ℕ
  | .callback _ | .finish _ => 1
  | _ => 0

/-- The session has gone through `j` waits and keeps to its interval. -/
structure Keeps (x : Session) (j : ℕ) (s : State) : Prop where
  interval : s.mIntervalMs = x.msec
  base : s.mStartTime = BitVec.ofNat 64 (x.deadline j)
  past : x.deadline j ≤ s.now
  waits : Waits (x.deadline (j + 1)) s
  begun : x.begun ≤ j + s.point.served

def Follows (x : Session) (s : State) : Prop := s.over ∨ ∃ j, Keeps x j s

theorem deadline_succ (x : Session) (j : ℕ) :
    x.deadline (j + 1) = x.deadline j + x.msec.toNat := by
  unfold Session.deadline
  rw [Nat.succ_mul]
  omega

theorem deadline_mono (x : Session) {j k : ℕ} (h : j ≤ k) : x.deadline j ≤ x.deadline k :=
  Nat.add_le_add_left (Nat.mul_le_mul_right _ h) _

/-- The timeout brings the wait to the deadline, or to 1 ms from now. -/
theorem timeoutOf_reaches {base m now : ℕ} (hm : 2 * m < 2 ^ 32) (hbase : base ≤ now)
    (hnow : now ≤ Timer.MaxTick) :
    0 < (timeoutOf (BitVec.ofNat 64 (base + m) - BitVec.ofNat 64 now)).toInt ∧
      base + m ≤ now + (timeoutOf (BitVec.ofNat 64 (base + m) - BitVec.ofNat 64 now)).toNat := by
  have hmax : Timer.MaxTick = 9223372036854 := rfl
  have hexpire : (BitVec.ofNat 64 (base + m)).toInt = ((base + m : ℕ) : ℤ) :=
    toInt_ofNat_of_lt (by omega)
  have hcurrent : (BitVec.ofNat 64 now).toInt = (now : ℤ) := toInt_ofNat_of_lt (by omega)
  have hremain : (BitVec.ofNat 64 (base + m) - BitVec.ofNat 64 now).toInt =
      ((base + m : ℕ) : ℤ) - now := by
    rw [toInt_sub_of_fits, hexpire, hcurrent]
    · rw [hexpire, hcurrent]
      omega
    · rw [hexpire, hcurrent]
      omega
  generalize BitVec.ofNat 64 (base + m) - BitVec.ofNat 64 now = remain at hremain
  have hlarge : ¬ remain.toInt > INT32_MAX := by
    rw [hremain, INT32_MAX]
    omega
  unfold timeoutOf
  by_cases hshort : remain.toInt ≤ 0
  · rw [if_pos hshort]
    refine ⟨by decide, ?_⟩
    show base + m ≤ now + 1
    omega
  · rw [if_neg hshort, if_neg hlarge]
    have htrunc : ((remain.setWidth 32).toNat : ℤ) = remain.toInt := by
      refine toNat_setWidth_of_fits (by omega) ?_
      rw [INT32_MAX] at hlarge
      omega
    have hpos : (remain.setWidth 32).toInt = (remain.setWidth 32).toNat := by
      refine BitVec.toInt_eq_toNat_of_lt ?_
      rw [INT32_MAX] at hlarge
      omega
    refine ⟨?_, ?_⟩
    · rw [hpos, htrunc]
      omega
    · omega

/-- start() and restart() from outside begin another session. -/
def begins (s : State) : Action → Prop
  | .start _ _ | .restart => s.point.outer = true
  | .tick _ | .setHandler _ | .setInterval _ | .setRepeat _ | .stop | .started _ | .run _ => False

variable {s s' : State} {a : Action} {x : Session} {j : ℕ} {answer : Bool}

theorem over_run (h : s.over) (hstep : runStep s answer = some s') : s'.over := by
  obtain ⟨hstopped, hover⟩ := h
  cases runStep_cases hstep with
  | leave => exact ⟨rfl, trivial⟩
  | goOn _ hrunning | beginWait _ _ hrunning | fire _ hrunning =>
    rw [hstopped] at hrunning
    cases hrunning
  | call keepGoing hpoint =>
    rw [hpoint] at hover
    exact hover.elim
  | arm | skipWait | endWait | callback | advance => exact ⟨hstopped, trivial⟩

/-- What start() and restart() do inside a session: they are the handler's calls. -/
theorem startStep_inside (hstep : startStep s = some s') (hinside : ¬ s.point.outer = true) :
    (∃ keepGoing, s.point = .callback keepGoing) ∧ s' = { s with running := false } := by
  unfold startStep at hstep
  split at hstep
  · rename_i hout
    rw [hout] at hinside
    exact absurd rfl hinside
  · rename_i keepGoing hpoint
    exact ⟨⟨keepGoing, hpoint⟩, (Option.some.inj hstep).symm⟩
  · cases hstep

theorem over_startStep (hstep : startStep s = some s') (hinside : ¬ s.point.outer = true) :
    s'.over := by
  obtain ⟨⟨keepGoing, hpoint⟩, rfl⟩ := startStep_inside hstep hinside
  refine ⟨rfl, ?_⟩
  show (match s.point with | .starting _ | .call _ => False | _ => True)
  rw [hpoint]
  trivial

/-- A session that is over stays so until a call begins another one. -/
theorem over_step (h : s.over) (hstep : step s a = some s') (hinside : ¬ begins s a) :
    s'.over := by
  cases a with
  | tick | setHandler | setInterval | setRepeat =>
    simp only [step, Option.ite_none_right_eq_some] at hstep
    obtain rfl := Option.some.inj hstep.2
    exact h
  | start msec rep => exact over_startStep hstep hinside
  | restart => exact over_startStep hstep hinside
  | stop =>
    obtain rfl := Option.some.inj hstep
    unfold stopStep
    split
    · rename_i hpoint
      have hstarting := h.2
      rw [hpoint] at hstarting
      exact hstarting.elim
    · exact ⟨rfl, h.2⟩
  | started ok =>
    simp only [step] at hstep
    split at hstep
    · rename_i hpoint
      have hstarting := h.2
      rw [hpoint] at hstarting
      exact hstarting.elim
    · cases hstep
  | run answer => exact over_run h hstep

/-- A step that leaves the configuration, the number of callbacks and the point of the session. -/
theorem Keeps.stay (h : Keeps x j s) (hnow : s.now ≤ s'.now)
    (hinterval : s'.mIntervalMs = s.mIntervalMs) (hbase : s'.mStartTime = s.mStartTime)
    (hserved : s'.point.served = s.point.served) (hwaits : Waits (x.deadline (j + 1)) s') :
    Keeps x j s' where
  interval := hinterval.trans h.interval
  base := hbase.trans h.base
  past := h.past.trans hnow
  waits := hwaits
  begun := hserved ▸ h.begun

theorem waits_later {deadline now : ℕ} (h : Waits deadline s) (hnow : s.now ≤ now) :
    Waits deadline { s with now := now } := by
  cases hpoint : s.point with
  | msleep timeoutMs =>
    simp only [Waits, hpoint] at h ⊢
    omega
  | fire =>
    simp only [Waits, hpoint] at h ⊢
    exact fun hrunning => (h hrunning).trans hnow
  | call | callback | finish =>
    simp only [Waits, hpoint] at h ⊢
    exact h.trans hnow
  | wait expireTime => simpa only [Waits, hpoint] using h
  | _ => simp only [Waits]

/-- The sections of run() in a session that keeps to its interval. A callback that begins is the
next one after those of `j` waits at most, and the end of its wait has passed. -/
theorem keeps_run (hm : 2 * x.msec.toNat < 2 ^ 32) (hnow : s.now ≤ Timer.MaxTick)
    (h : Keeps x j s) (hcalls : s.point.calls = false) (hstep : runStep s answer = some s') :
    Follows x s' := by
  have hwaits := h.waits
  have hbegun := h.begun
  have hext : s.mIntervalMs.signExtend 64 = BitVec.ofNat 64 x.msec.toNat := by
    rw [h.interval]
    exact signExtend_of_lt hm
  have hexpire : s.expireTime = BitVec.ofNat 64 (x.deadline (j + 1)) := by
    rw [State.expireTime, h.base, hext, ← BitVec.ofNat_add, deadline_succ]
  cases runStep_cases hstep with
  | leave => exact Or.inl ⟨rfl, trivial⟩
  | goOn hpoint => exact Or.inr ⟨j, h.stay le_rfl rfl rfl (by rw [hpoint]; rfl) trivial⟩
  | arm hpoint =>
    obtain ⟨hpos, hreach⟩ := timeoutOf_reaches hm h.past hnow
    refine Or.inr ⟨j, h.stay le_rfl rfl rfl (by rw [hpoint]; rfl) ?_⟩
    show 0 < (timeoutOf (s.expireTime - s.tickCount)).toInt ∧ _
    rw [hexpire, deadline_succ]
    exact ⟨hpos, hreach⟩
  | skipWait timeoutMs hpoint hends =>
    simp only [Waits, hpoint] at hwaits
    refine Or.inr ⟨j, h.stay le_rfl rfl rfl (by rw [hpoint]; rfl) ?_⟩
    intro hrunning
    rcases hends with hshort | hstopped
    · omega
    · rw [hstopped] at hrunning
      cases hrunning
  | beginWait timeoutMs hpoint =>
    simp only [Waits, hpoint] at hwaits
    exact Or.inr ⟨j, h.stay le_rfl rfl rfl (by rw [hpoint]; rfl) hwaits.2⟩
  | endWait expireTime hpoint hends =>
    simp only [Waits, hpoint] at hwaits
    refine Or.inr ⟨j, h.stay le_rfl rfl rfl (by rw [hpoint]; rfl) ?_⟩
    intro hrunning
    rcases hends with hpast | hstopped
    · exact hwaits.trans hpast
    · rw [hstopped] at hrunning
      cases hrunning
  | fire hpoint hrunning =>
    simp only [Waits, hpoint] at hwaits
    simp only [hpoint, RunPoint.served] at hbegun
    cases s.mHandler with
    | true => exact Or.inr ⟨j, h.interval, h.base, h.past, hwaits hrunning, hbegun⟩
    | false =>
      have hbegun' := Nat.le_succ_of_le hbegun
      exact Or.inr ⟨j, h.interval, h.base, h.past, hwaits hrunning, hbegun'⟩
  | call _ hpoint => simp [hpoint, RunPoint.calls] at hcalls
  | callback keepGoing hpoint =>
    simp only [Waits, hpoint] at hwaits
    exact Or.inr ⟨j, h.stay le_rfl rfl rfl (by rw [hpoint]; rfl) hwaits⟩
  | advance hpoint =>
    simp only [Waits, hpoint] at hwaits
    simp only [hpoint, RunPoint.served] at hbegun
    exact Or.inr ⟨j + 1, h.interval, hexpire, hwaits, trivial, hbegun⟩

/-- A callback that begins. -/
theorem keeps_call (h : Keeps x j s) {keepGoing : Bool} (hpoint : s.point = .call keepGoing) :
    Keeps { x with begun := x.begun + 1 } j { s with point := .callback keepGoing } where
  interval := h.interval
  base := h.base
  past := h.past
  waits := by
    have hwaits := h.waits
    simp only [Waits, hpoint] at hwaits
    exact hwaits
  begun := by
    have hbegun := h.begun
    simp only [hpoint, RunPoint.served] at hbegun
    show x.begun + 1 ≤ j + 1
    omega

theorem Follows.on_time (h : Follows x s) (hcalls : s.point.calls = true) :
    x.tick + (x.begun + 1) * x.msec.toNat ≤ s.now := by
  rcases h with ⟨-, hover⟩ | ⟨j, h⟩
  · cases hpoint : s.point <;> simp_all [RunPoint.calls]
  · have hwaits := h.waits
    have hbegun := h.begun
    cases hpoint : s.point with
    | call keepGoing =>
      simp only [Waits, hpoint] at hwaits
      simp only [hpoint, RunPoint.served] at hbegun
      exact (deadline_mono x (by omega)).trans hwaits
    | _ => simp [hpoint, RunPoint.calls] at hcalls

end CWrapper.TimerThread
