import CWrapper.Words
import CWrapper.TimerThread

/-!
The deadlines of run() across setInterval. A deadline is computed in the section before msleep, and
mStartTime is advanced in the section after it, each with the interval of its own time. The record
keeps the wait that has been armed and the deadline that the last callback has served.
-/
namespace CWrapper.TimerThread

open SignedWords Transition

/-- expireTime and mIntervalMs in the section that armed the wait. -/
structure Wait where
  deadline : BitVec 64
  interval : BitVec 32
  deriving DecidableEq, Repr

structure Schedule where
  served : Option (BitVec 64)
  wait : Option Wait
  deriving DecidableEq, Repr

/-- The callback has answered that the timer goes on, and mRepeat was set. -/
def RunPoint.continues : RunPoint → Bool
  | .finish keepGoing => keepGoing
  | _ => false

def RunPoint.arms : RunPoint → Bool
  | .arm => true
  | _ => false

/-- start() and restart() begin another schedule. -/
def noteSchedule (s : State) (a : Action) (_ : State) (h : Schedule) : Schedule :=
  match a with
  | .start _ _ | .restart => ⟨none, none⟩
  | .run _ =>
      if s.point.arms then { h with wait := some ⟨s.expireTime, s.mIntervalMs⟩ }
      else if s.point.continues then ⟨h.wait.map Wait.deadline, none⟩
      else h
  | .tick _ | .setHandler _ | .setInterval _ | .setRepeat _ | .stop | .started _ => h

def scheduledSystem : Machine (State × Schedule) Action := system.recorded ⟨none, none⟩ noteSchedule

/-- mStartTime is the deadline that the last callback has served, until the next wait is armed:
its deadline is that one plus the interval. -/
def OnSchedule (p : State × Schedule) : Prop :=
  ∀ d, p.2.served = some d → match p.2.wait with
    | none => p.1.mStartTime = d
    | some w => w.deadline = d + w.interval.signExtend 64

/-- When a callback continues, mIntervalMs is what it was when its wait was armed. -/
def sameInterval (p : State × Schedule) (a : Action) : Prop :=
  ∀ answer w, a = .run answer → p.1.point.continues = true → p.2.wait = some w →
    p.1.mIntervalMs = w.interval

def RunPoint.unarmed : RunPoint → Bool
  | .starting _ | .test | .arm => true
  | _ => false

/-- No wait is armed before the section for it, and mStartTime does not change after that. -/
structure Armed (p : State × Schedule) : Prop where
  unarmed : p.1.point.unarmed = true → p.2.wait = none
  base : ∀ w, p.2.wait = some w → w.deadline = p.1.mStartTime + w.interval.signExtend 64

variable {s s' : State} {a : Action} {answer : Bool} {p q : State × Schedule}

/-- What a step of run() does to the base, and where it can lead. -/
theorem run_moves (hstep : runStep s answer = some s') :
    s'.mStartTime = (if s.point.continues then s.expireTime else s.mStartTime) ∧
      (s'.point.unarmed = true → s.point.arms = false ∧
        (s.point.unarmed = true ∨ s.point.continues = true)) := by
  cases runStep_cases hstep with
  | goOn hpoint =>
    rw [hpoint]
    exact ⟨rfl, fun _ => ⟨rfl, Or.inl rfl⟩⟩
  | leave hpoint =>
    rcases hpoint with hpoint | hpoint | hpoint <;> rw [hpoint] <;>
      exact ⟨rfl, by simp [State.exit, RunPoint.unarmed]⟩
  | advance hpoint =>
    rw [hpoint]
    exact ⟨rfl, fun _ => ⟨rfl, Or.inr rfl⟩⟩
  | fire hpoint =>
    rw [hpoint]
    cases s.mHandler <;> exact ⟨rfl, by simp [RunPoint.unarmed]⟩
  | arm hpoint | skipWait _ hpoint | beginWait _ hpoint | endWait _ hpoint | call _ hpoint
  | callback _ hpoint =>
    rw [hpoint]
    exact ⟨rfl, by simp [RunPoint.unarmed]⟩

/-- The actions of the environment that begin no session leave the base, and begin no wait. -/
theorem other_moves (hstep : step s a = some s') (hrun : ∀ answer, a ≠ .run answer)
    (hstart : ∀ msec rep, a ≠ .start msec rep) (hrestart : a ≠ .restart) :
    s'.mStartTime = s.mStartTime ∧ (s'.point.unarmed = true → s.point.unarmed = true) := by
  cases a with
  | tick | setHandler | setInterval | setRepeat =>
    simp only [step, Option.ite_none_right_eq_some] at hstep
    obtain rfl := Option.some.inj hstep.2
    exact ⟨rfl, id⟩
  | stop =>
    obtain rfl := Option.some.inj hstep
    unfold stopStep
    split
    · rename_i hpoint
      exact ⟨rfl, fun _ => by rw [hpoint]; rfl⟩
    · exact ⟨rfl, id⟩
  | started ok =>
    simp only [step] at hstep
    split at hstep
    · rename_i stopRequested hpoint
      obtain rfl := Option.some.inj hstep
      split <;> exact ⟨rfl, fun _ => by rw [hpoint]; rfl⟩
    · cases hstep
  | run answer => exact absurd rfl (hrun answer)
  | start msec rep => exact absurd rfl (hstart msec rep)
  | restart => exact absurd rfl hrestart

theorem onSchedule_congr (hbase : q.1.mStartTime = p.1.mStartTime) (hrecord : q.2 = p.2) :
    OnSchedule q ↔ OnSchedule p := by
  rw [OnSchedule, OnSchedule, hbase, hrecord]

/-- A step that leaves the base and the record. -/
theorem Armed.stay (h : Armed p) (hbase : q.1.mStartTime = p.1.mStartTime) (hrecord : q.2 = p.2)
    (hpoint : q.1.point.unarmed = true → p.1.point.unarmed = true) : Armed q where
  unarmed hq := by
    rw [hrecord]
    exact h.unarmed (hpoint hq)
  base := by
    rw [hbase, hrecord]
    exact h.base

/-- Without a record of a wait there is nothing to keep to. -/
theorem not_armed (hrecord : q.2.wait = none) : Armed q where
  unarmed _ := hrecord
  base w hw := by
    rw [hrecord] at hw
    cases hw

/-- The section that arms the wait takes the deadline from the base. -/
theorem arm_schedule (ha : Armed p) (hp : OnSchedule p) (harms : p.1.point.arms = true)
    (hbase : q.1.mStartTime = p.1.mStartTime)
    (hrecord : q.2 = { p.2 with wait := some ⟨p.1.expireTime, p.1.mIntervalMs⟩ })
    (hpoint : q.1.point.unarmed = false) : Armed q ∧ OnSchedule q := by
  have hunarmed : p.1.point.unarmed = true := by
    cases hpoint : p.1.point <;> simp_all [RunPoint.arms, RunPoint.unarmed]
  refine ⟨⟨fun hq => ?_, fun w hw => ?_⟩, fun d hd => ?_⟩
  · rw [hpoint] at hq
    cases hq
  · rw [hrecord] at hw
    obtain rfl := Option.some.inj hw
    rw [hbase]
    rfl
  · rw [hrecord] at hd ⊢
    have hserved := hp d hd
    rw [ha.unarmed hunarmed] at hserved
    show p.1.expireTime = d + p.1.mIntervalMs.signExtend 64
    rw [State.expireTime, hserved]

/-- The section that advances the base reaches the deadline that was armed if and only if the
interval is still the same. -/
theorem advance_schedule (ha : Armed p) (hbase : q.1.mStartTime = p.1.expireTime)
    (hrecord : q.2 = ⟨p.2.wait.map Wait.deadline, none⟩) :
    OnSchedule q ↔ ∀ w, p.2.wait = some w → p.1.mIntervalMs = w.interval := by
  have hinj {x y : BitVec 32} : x.signExtend 64 = y.signExtend 64 ↔ x = y :=
    (signExtend_injective (by decide)).eq_iff
  rw [OnSchedule, hrecord]
  constructor
  · intro h w hw
    have hreached : q.1.mStartTime = w.deadline := h w.deadline (by rw [hw]; rfl)
    rw [hbase, ha.base w hw, State.expireTime, BitVec.add_right_inj] at hreached
    exact hinj.mp hreached
  · intro h d hd
    obtain ⟨w, hw, rfl⟩ := Option.map_eq_some_iff.mp hd
    show q.1.mStartTime = w.deadline
    rw [hbase, ha.base w hw, State.expireTime, h w hw]

/-- From a state on schedule, a step leads to another one if and only if no callback continues
with another interval than its wait was armed with. -/
theorem onSchedule_step (ha : Armed p) (hp : OnSchedule p)
    (hstep : scheduledSystem.step p a = some q) :
    Armed q ∧ (OnSchedule q ↔ sameInterval p a) := by
  obtain ⟨hs, hnote⟩ := Machine.recorded_step_iff.mp hstep
  have hs : step p.1 a = some q.1 := hs
  cases a with
  | start | restart =>
    have hnone : q.2 = ⟨none, none⟩ := hnote
    refine ⟨not_armed (by rw [hnone]), iff_of_true (fun d hd => ?_) (by simp [sameInterval])⟩
    rw [hnone] at hd
    cases hd
  | tick | setHandler | setInterval | setRepeat | stop | started =>
    obtain ⟨hbase, hpoint⟩ := other_moves hs (by simp) (by simp) (by simp)
    exact ⟨ha.stay hbase hnote hpoint,
      iff_of_true ((onSchedule_congr hbase hnote).mpr hp) (by simp [sameInterval])⟩
  | run answer =>
    obtain ⟨hbase, hpoint⟩ := run_moves hs
    have hsame : sameInterval p (.run answer) ↔ p.1.point.continues = true →
        ∀ w, p.2.wait = some w → p.1.mIntervalMs = w.interval := by
      constructor
      · exact fun h hcont w => h answer w rfl hcont
      · rintro h _ w - hcont
        exact h hcont w
    rw [noteSchedule] at hnote
    cases harms : p.1.point.arms with
    | true =>
      have hcont : p.1.point.continues = false := by
        cases hpoint : p.1.point <;> simp_all [RunPoint.arms, RunPoint.continues]
      rw [if_pos harms] at hnote
      rw [hcont, if_neg (by simp)] at hbase
      have harmed : q.1.point.unarmed = false := by
        by_contra hq
        have hno := (hpoint (by simpa using hq)).1
        rw [harms] at hno
        cases hno
      obtain ⟨haq, hq⟩ := arm_schedule ha hp harms hbase hnote harmed
      exact ⟨haq, iff_of_true hq (hsame.mpr (by simp [hcont]))⟩
    | false =>
      rw [if_neg (by simp [harms])] at hnote
      cases hcont : p.1.point.continues with
      | true =>
        rw [if_pos hcont] at hnote hbase
        refine ⟨not_armed (by rw [hnote]), (advance_schedule ha hbase hnote).trans ?_⟩
        rw [hsame, hcont]
        simp
      | false =>
        rw [if_neg (by simp [hcont])] at hnote hbase
        have hkept (hq : q.1.point.unarmed = true) : p.1.point.unarmed = true :=
          (hpoint hq).2.resolve_right (by simp [hcont])
        exact ⟨ha.stay hbase hnote hkept,
          iff_of_true ((onSchedule_congr hbase hnote).mpr hp) (hsame.mpr (by simp [hcont]))⟩

/-- In a run mStartTime is the deadline served after every callback that continues, and the next
deadline is that one plus the interval, if and only if each such callback finds in mIntervalMs the
interval with which its wait was armed. -/
theorem schedule_kept_iff {as : List Action} (hinit : scheduledSystem.initial p) :
    scheduledSystem.Path (scheduledSystem.leadsTo OnSchedule) p as q ↔
      scheduledSystem.Path sameInterval p as q := by
  obtain ⟨-, hrecord⟩ := hinit
  have hI : Armed p ∧ OnSchedule p := by
    refine ⟨not_armed (by rw [hrecord]), fun d hd => ?_⟩
    rw [hrecord] at hd
    cases hd
  refine Machine.path_congr (I := fun p => Armed p ∧ OnSchedule p) ?_ ?_ hI
  · rintro p a q hok hstep ⟨ha, hp⟩
    exact ⟨(onSchedule_step ha hp hstep).1, hok q hstep⟩
  · rintro p a q ⟨ha, hp⟩ hstep
    exact (Machine.leadsTo_iff hstep).trans (onSchedule_step ha hp hstep).2

/-- The interval is 10 when the wait is armed, and 1000 when the callback returns. -/
def changedInWait : List Action :=
  [.setHandler true, .start 10#32 true, .started true, .run true, .run true, .run true, .tick 5,
    .setInterval 1000#32, .tick 5, .run true, .run true, .run true, .run true, .run true]

def scheduleStart : State × Schedule := (State.start 0, ⟨none, none⟩)

def afterChange : State × Schedule :=
  scheduledSystem.after Machine.anyStep scheduleStart changedInWait

theorem scheduleStart_initial : scheduledSystem.initial scheduleStart := ⟨⟨0, by decide, rfl⟩, rfl⟩

theorem schedule_kept_iff_changed :
    scheduledSystem.Path (scheduledSystem.leadsTo OnSchedule) scheduleStart changedInWait
        afterChange ↔
      scheduledSystem.Path sameInterval scheduleStart changedInWait afterChange :=
  schedule_kept_iff scheduleStart_initial

/-- The deadline served is 10, and mStartTime is 1000. -/
theorem schedule_lost :
    ¬ ∀ p, scheduledSystem.Reachable Machine.anyStep p → OnSchedule p := by
  intro h
  have hon := h afterChange (Machine.reachable_after scheduleStart_initial (by decide +kernel))
  have hserved : afterChange.2 = ⟨some 10#64, none⟩ := by decide +kernel
  have hbase : afterChange.1.mStartTime = 1000#64 := by decide +kernel
  have hkept := hon 10#64 (by rw [hserved])
  rw [hserved, hbase] at hkept
  simp at hkept

end CWrapper.TimerThread
