import CWrapper.LoopEntries
import CWrapper.TimerWait

/-!
Who goes on. A thread that holds mFunctionLock, mTimerLock or a mWaitLock waits for nothing; one
that holds mControlLock waits for one of these, or in stopAndWait() for the loop.
-/
namespace CWrapper.LoopCalls

open MainLoop Timer TimerLife Transition

variable {T Th F : Type}

@[grind =] def Request.waits (m : MainLoop.State T Th F) : Request T F → Bool
  | .start t _ _ | .stop t => (m.locks t).mControlLock.isSome
  | .post _ => m.mFunctionLock.isSome

@[grind =] def waitsAt (m : MainLoop.State T Th F) : ThreadPoint T F → Bool
  | .restart t _ _ => (m.locks t).mControlLock.isSome
  | .timer t (.lockWait _) | .timer t (.relock _) => (m.locks t).mWaitLock.isSome
  | .timer _ (.remove _) | .timer _ .addLock => m.mTimerLock.isSome
  | .timer _ (.blocked _) => true
  | _ => false

def Blocked (s : State T Th F) (th : Th) : Prop :=
  (s.request th).any (Request.waits s.mLoop) = true ∨ waitsAt s.mLoop (s.mLoop.thread th) = true

def Inside (s : State T Th F) (th : Th) : Prop := s.isFree th = false

def works : LoopPoint T F → Bool
  | .outside | .exited | .epollWait _ _ => false
  | _ => true

/-- A call waits in stopAndWait() for a wake-up that has been: the timer is in no execution, and the
loop has no broadcast to make. -/
structure Missed [DecidableEq T] (m : MainLoop.State T Th F) (t : T) (th : Th) : Prop where
  blocked : ∃ k, m.thread th = .timer t (.blocked k)
  released : Timer.released (m.timer t).mState = true
  done : (m.loop.on t).any owes = false

section Progress

variable [DecidableEq T] {capacity : ℕ+} {t : T}

@[grind =] def loopWaits (m : MainLoop.State T Th F) : LoopPoint T F → Bool
  | .getFunction _ => m.mFunctionLock.isSome
  | .takeTimer | .nextTimeout | .exec _ .requeueLock | .exec _ .requeueRemove =>
      m.mTimerLock.isSome
  | _ => false

theorem execStep_isSome {m : MainLoop.State T Th F} {e : Exec}
    (hfree : loopWaits m (.exec t e) = false) :
    (execStep capacity m t false e).isSome = true := by
  unfold execStep
  split
  · rfl
  · rename_i hnone
    cases e with
    | requeueLock =>
      simp only [loopWaits, Option.isSome_eq_false_iff, Option.isNone_iff_eq_none] at hfree
      simp only [hfree, if_true]
      split <;> rfl
    | requeueRemove =>
      simp only [loopWaits, Option.isSome_eq_false_iff, Option.isNone_iff_eq_none] at hfree
      simp [hfree]
    | requeueScan i => simp only; split <;> rfl
    | exchange =>
      simp only [Timer.executeStep] at hnone
      split at hnone <;> cases hnone
    | popFront | broadcastPending | broadcastStopped | requeueBroadcast | broadcastQueued
    | requeueWake | requeueRemoveWake => rfl
    | _ => simp [Timer.executeStep] at hnone

variable (capacity) in
theorem loopStep_isSome {m : MainLoop.State T Th F} (hworks : works m.loop = true)
    (hfree : loopWaits m m.loop = false) : (loopStep capacity m false).isSome = true := by
  unfold loopStep
  cases hp : m.loop with
  | outside | exited | epollWait => rw [hp] at hworks; cases hworks
  | exec t e => exact execStep_isSome (hp ▸ hfree)
  | getFunction executedAny =>
    rw [hp] at hfree
    simp only [loopWaits, Option.isSome_eq_false_iff, Option.isNone_iff_eq_none] at hfree
    simp only [hfree, if_true]
    split <;> rfl
  | takeTimer | nextTimeout =>
    rw [hp] at hfree
    simp only [loopWaits, Option.isSome_eq_false_iff, Option.isNone_iff_eq_none] at hfree
    simp [hfree]
  | readFront now =>
    simp only
    split
    · rfl
    · split <;> rfl
  | events evs =>
    cases evs with
    | nil => rfl
    | cons ev evs => cases ev <;> rfl
  | invoke | drainBegin | drain | testTerminated => rfl

variable [DecidableEq Th] {runner : Th} {s : State T Th F} {th : Th}

def CanStep (runner : Th) (capacity : ℕ+) (s : State T Th F) (th : Th) : Prop :=
  (step runner capacity s (.enter th)).isSome = true ∨
    (step runner capacity s (.main (.thread th false))).isSome = true

def LoopGoesOn (runner : Th) (capacity : ℕ+) (s : State T Th F) : Prop :=
  (step runner capacity s (.main (.loop false))).isSome = true

/-- A thread in a call is not blocked and goes on, or loop() goes on. -/
def GoesOn (runner : Th) (capacity : ℕ+) (s : State T Th F) : Prop :=
  (∃ th, Inside s th ∧ ¬ Blocked s th ∧ CanStep runner capacity s th) ∨
    LoopGoesOn runner capacity s

theorem lockControl_isSome {m : MainLoop.State T Th F} (k : Call)
    (hlock : (m.locks t).mControlLock = none) (hlife : (m.locks t).life = .alive) :
    (lockControl m th t k).isSome = true := by
  simp [lockControl, hlock, hlife]

variable (capacity) in
theorem enter_isSome (r : Request T F) (h : Living runner s) (hr : s.request th = some r)
    (hfree : r.waits s.mLoop = false) :
    (MainLoop.step capacity s.mLoop (r.action th)).isSome = true := by
  have hidle : s.mLoop.thread th = .idle := by
    have hpoint := h.idle th (by rw [hr]; rfl)
    cases hp : s.mLoop.thread th <;> rw [hp] at hpoint <;> first | rfl | cases hpoint
  cases r with
  | start t msec rep =>
    have hlife := h.alive th t (by rw [hr]; simp [Request.on])
    have hlock : (s.mLoop.locks t).mControlLock = none := by simpa [Request.waits] using hfree
    simp only [Request.action, MainLoop.step, hidle]
    exact lockControl_isSome _ hlock hlife
  | stop t =>
    have hlife := h.alive th t (by rw [hr]; simp [Request.on])
    have hlock : (s.mLoop.locks t).mControlLock = none := by simpa [Request.waits] using hfree
    simp only [Request.action, MainLoop.step, hidle]
    exact lockControl_isSome _ hlock hlife
  | post func =>
    have hlock : s.mLoop.mFunctionLock = none := by simpa [Request.waits] using hfree
    simp only [Request.action, MainLoop.step, hidle, hlock, if_true]
    split <;> rfl

theorem controlStep_isSome {m : MainLoop.State T Th F} {c : Control}
    (hfree : waitsAt m (.timer t c : ThreadPoint T F) = false) :
    (MainLoop.controlStep capacity m th t false c).isSome = true := by
  unfold MainLoop.controlStep
  split
  · rfl
  · rename_i hnone
    cases c with
    | remove k | lockWait k | relock k =>
      simp only [waitsAt, Option.isSome_eq_false_iff, Option.isNone_iff_eq_none] at hfree
      simp [hfree]
    | addLock =>
      simp only [waitsAt, Option.isSome_eq_false_iff, Option.isNone_iff_eq_none] at hfree
      simp only [hfree, if_true]
      split <;> rfl
    | blocked k => cases hfree
    | test k => simp only; split <;> rfl
    | addScan i => simp only; split <;> rfl
    | removeWake k | broadcast k | block k | addWake | returnStop | returnStart
    | returnDestroy => rfl
    | exchange k =>
      simp only [Timer.controlStep] at hnone
      split at hnone <;> cases hnone
    | _ => simp [Timer.controlStep] at hnone

variable (capacity) in
theorem threadStep_isSome {m : MainLoop.State T Th F} (hpoint : isIdle (m.thread th) = false)
    (hlife : ∀ t msec rep, m.thread th = .restart t msec rep → (m.locks t).life = .alive)
    (hfree : waitsAt m (m.thread th) = false) :
    (MainLoop.threadStep capacity m th false).isSome = true := by
  unfold MainLoop.threadStep
  cases hp : m.thread th with
  | idle => rw [hp] at hpoint; cases hpoint
  | timer t c => exact controlStep_isSome (hp ▸ hfree)
  | restart t msec rep =>
    rw [hp] at hfree
    have hlock : (m.locks t).mControlLock = none := by simpa [waitsAt] using hfree
    exact lockControl_isSome _ hlock (hlife t msec rep hp)
  | post | terminate => rfl

/-- A thread in a call stands at a lock that is held, or goes on. -/
theorem canStep_of_not_blocked (h : Living runner s) (hin : Inside s th)
    (hfree : ¬ Blocked s th) : CanStep runner capacity s th := by
  cases hr : s.request th with
  | some r =>
    have hwaits : r.waits s.mLoop = false := by
      cases hw : r.waits s.mLoop with
      | false => rfl
      | true => exact absurd (Or.inl (by rw [hr]; exact hw)) hfree
    obtain ⟨m, hm⟩ := Option.isSome_iff_exists.mp (enter_isSome capacity r h hr hwaits)
    exact Or.inl (by simp [step, hr, hm])
  | none =>
    have hpoint : isIdle (s.mLoop.thread th) = false := by
      simpa [Inside, State.isFree, hr] using hin
    have hwaits : waitsAt s.mLoop (s.mLoop.thread th) = false := by
      cases hw : waitsAt s.mLoop (s.mLoop.thread th) with
      | false => rfl
      | true => exact absurd (Or.inr hw) hfree
    have hstep := threadStep_isSome capacity hpoint (h.restart th) hwaits
    exact Or.inr (by simpa [step, State.admits, MainLoop.step] using hstep)

theorem goesOn_of_loop (h : Living runner s) (hworks : works s.mLoop.loop = true)
    (hfree : loopWaits s.mLoop s.mLoop.loop = false)
    (huser : runsUser s.mLoop.loop = true → s.isFree runner = true) :
    GoesOn runner capacity s := by
  have hstep := loopStep_isSome capacity hworks hfree
  have hself : s.isFree runner = true := by
    cases hr : runsUser s.mLoop.loop with
    | true => exact huser hr
    | false => exact h.user hr
  exact Or.inr (by simpa [LoopGoesOn, step, State.admits, hself, MainLoop.step] using hstep)

/-- A thread that has no lock to wait for. -/
theorem goesOn_of_thread (th : Th) (h : Living runner s)
    (hpoint : isIdle (s.mLoop.thread th) = false)
    (hfree : waitsAt s.mLoop (s.mLoop.thread th) = false) : GoesOn runner capacity s := by
  have hr : s.request th = none := by
    cases hr : s.request th with
    | none => rfl
    | some r =>
      rw [h.idle th (by rw [hr]; rfl)] at hpoint
      cases hpoint
  have hin : Inside s th := by simp [Inside, State.isFree, hpoint]
  have hblocked : ¬ Blocked s th := by simp [Blocked, hr, hfree]
  exact Or.inl ⟨th, hin, hblocked, canStep_of_not_blocked h hin hblocked⟩

theorem goesOn_of_functions (h : Living runner s) (hh : Held s.mLoop)
    (hlock : s.mLoop.mFunctionLock = some th) : GoesOn runner capacity s := by
  have hpoint := hh.functions th hlock
  refine goesOn_of_thread th h ?_ ?_ <;>
    cases hp : s.mLoop.thread th <;> rw [hp] at hpoint <;> first | rfl | cases hpoint

/-- mTimerLock is held by a thread that scans the list, or by the loop in one of its sections. -/
theorem goesOn_of_timers (h : Living runner s) (hh : Held s.mLoop)
    (hlock : s.mLoop.mTimerLock.isSome = true) : GoesOn runner capacity s := by
  obtain ⟨holder, hholder⟩ := Option.isSome_iff_exists.mp hlock
  cases holder with
  | thread th =>
    have hpoint := hh.timers th hholder
    cases hp : s.mLoop.thread th with
    | timer t c =>
      rw [hp] at hpoint
      cases c with
      | addScan i => exact goesOn_of_thread th h (by rw [hp]; rfl) (by rw [hp]; rfl)
      | _ => cases hpoint
    | _ => rw [hp] at hpoint; cases hpoint
  | loop =>
    have hin := hh.loop hholder
    cases hp : s.mLoop.loop with
    | readFront now =>
      exact goesOn_of_loop h (by rw [hp]; rfl) (by rw [hp]; rfl) (by rw [hp]; intro hu; cases hu)
    | exec t e =>
      rw [hp] at hin
      cases e with
      | exchange | clearRequest | popFront | requeueScan =>
        exact goesOn_of_loop h (by rw [hp]; rfl) (by rw [hp]; rfl) (by rw [hp]; intro hu; cases hu)
      | _ => exact hin.elim
    | _ => rw [hp] at hin; exact hin.elim

theorem goesOn_of_waitLock (h : Living runner s) (hh : Held s.mLoop)
    (hlock : (s.mLoop.locks t).mWaitLock.isSome = true) : GoesOn runner capacity s := by
  obtain ⟨th, hth⟩ := Option.isSome_iff_exists.mp hlock
  have hpoint := hh.wait t th hth
  cases hp : s.mLoop.thread th with
  | timer u c =>
    rw [hp] at hpoint
    cases c with
    | test | block => exact goesOn_of_thread th h (by rw [hp]; rfl) (by rw [hp]; rfl)
    | _ => cases hpoint
  | _ => rw [hp] at hpoint; cases hpoint

variable (capacity) in
/-- A loop that works goes on, or its thread is in a call from code of the user. -/
theorem goesOn_of_works (h : Living runner s) (hh : Held s.mLoop)
    (hworks : works s.mLoop.loop = true) :
    GoesOn runner capacity s ∨ runsUser s.mLoop.loop = true ∧ Inside s runner := by
  cases hfree : loopWaits s.mLoop s.mLoop.loop with
  | true =>
    refine Or.inl ?_
    cases hp : s.mLoop.loop with
    | getFunction executedAny =>
      rw [hp] at hfree
      obtain ⟨th, hth⟩ := Option.isSome_iff_exists.mp hfree
      exact goesOn_of_functions h hh hth
    | takeTimer | nextTimeout =>
      rw [hp] at hfree
      exact goesOn_of_timers h hh hfree
    | exec t e =>
      rw [hp] at hfree
      cases e with
      | requeueLock | requeueRemove => exact goesOn_of_timers h hh hfree
      | _ => cases hfree
    | _ => rw [hp] at hfree; cases hfree
  | false =>
    by_cases hself : s.isFree runner = true
    · exact Or.inl (goesOn_of_loop h hworks hfree fun _ => hself)
    · cases hu : runsUser s.mLoop.loop with
      | true => exact Or.inr ⟨rfl, by simpa [Inside] using hself⟩
      | false => exact absurd (h.user hu) hself

variable (capacity) in
/-- What a thread that is blocked in stopAndWait() waits for. -/
theorem goesOn_or_handler (h : Living runner s) (hd : Disciplined s.mLoop) (hh : Held s.mLoop)
    {k : Call} (hth : s.mLoop.thread th = .timer t (.blocked k)) :
    GoesOn runner capacity s ∨ Missed s.mLoop t th ∨
      s.mLoop.loop = .exec t .callback ∧ Inside s runner := by
  have hon : ∀ e, s.mLoop.loop.on t = some e →
      GoesOn runner capacity s ∨ s.mLoop.loop = .exec t .callback ∧ Inside s runner := by
    intro e he
    have hloop := loop_of_on he
    obtain hgo | ⟨huser, hin⟩ := goesOn_of_works capacity h hh (by rw [hloop]; rfl)
    · exact Or.inl hgo
    · rw [hloop] at huser
      cases e with
      | callback => exact Or.inr ⟨hloop, hin⟩
      | _ => cases huser
  cases hexec : s.mLoop.loop.on t with
  | some e =>
    obtain hgo | hhandler := hon e hexec
    · exact Or.inl hgo
    · exact Or.inr (Or.inr hhandler)
  | none =>
    refine Or.inr (Or.inl ⟨⟨k, hth⟩, ?_, by rw [hexec]; rfl⟩)
    -- no execution, so the state is Stopped or Queued
    have hfits := hd.consistent t
    have hstate : (s.mLoop.timer t).mState = .stopped ∨ (s.mLoop.timer t).mState = .queued := by
      have hexec' : (s.mLoop.life t).exec = none := hexec
      unfold Consistent at hfits
      rw [hexec'] at hfits
      exact hfits.2.1
    obtain hs | hs := hstate <;> rw [hs] <;> rfl

variable (capacity) in
/-- What a thread that waits for mControlLock waits for. -/
theorem goesOn_or_holder (h : Living runner s) (hh : Held s.mLoop)
    (hlock : (s.mLoop.locks t).mControlLock = some th) :
    GoesOn runner capacity s ∨ ∃ k, s.mLoop.thread th = .timer t (.blocked k) := by
  have hpoint := hh.control t th hlock
  cases hp : s.mLoop.thread th with
  | timer u c =>
    rw [hp] at hpoint
    obtain ⟨hu, -⟩ := Bool.and_eq_true_iff.mp hpoint
    obtain rfl := of_decide_eq_true hu
    cases hw : waitsAt s.mLoop (.timer u c : ThreadPoint T F) with
    | false => exact Or.inl (goesOn_of_thread th h (by rw [hp]; rfl) (by rw [hp]; exact hw))
    | true =>
      cases c with
      | blocked k => exact Or.inr ⟨k, rfl⟩
      | lockWait k | relock k => exact Or.inl (goesOn_of_waitLock h hh hw)
      | remove k | addLock => exact Or.inl (goesOn_of_timers h hh hw)
      | _ => cases hw
  | _ => rw [hp] at hpoint; cases hpoint

/-- The call of `th` waits in stopAndWait() on `t` itself, or for the mControlLock of one that
does. -/
structure WaitsOn (s : State T Th F) (th w : Th) (t : T) : Prop where
  blocked : ∃ k, s.mLoop.thread w = .timer t (.blocked k)
  own : w = th ∨ (s.mLoop.locks t).mControlLock = some w ∧
    ((s.request th).any (Request.on t) = true ∨
      ∃ msec rep, s.mLoop.thread th = .restart t msec rep)

variable (capacity) in
/-- When nothing goes on, the thread waits for a call that is in stopAndWait(), be it its own. -/
theorem goesOn_or_waits (h : Living runner s) (hh : Held s.mLoop) (hin : Inside s th) :
    GoesOn runner capacity s ∨ ∃ t w, WaitsOn s th w t := by
  by_cases hblocked : Blocked s th
  · obtain hr | hp := hblocked
    · obtain ⟨r, hr, hw⟩ := (Option.any_eq_true _ _).mp hr
      have hon : ∀ t, r.on t = true → (s.mLoop.locks t).mControlLock.isSome = true →
          GoesOn runner capacity s ∨ ∃ t w, WaitsOn s th w t := by
        intro t ht hlock
        obtain ⟨w, hw⟩ := Option.isSome_iff_exists.mp hlock
        obtain hgo | hblocked := goesOn_or_holder capacity h hh hw
        · exact Or.inl hgo
        · exact Or.inr ⟨t, w, hblocked, Or.inr ⟨hw, Or.inl (by rw [hr]; exact ht)⟩⟩
      cases r with
      | start t msec rep => exact hon t (by simp [Request.on]) hw
      | stop t => exact hon t (by simp [Request.on]) hw
      | post func =>
        obtain ⟨w, hw⟩ := Option.isSome_iff_exists.mp hw
        exact Or.inl (goesOn_of_functions h hh hw)
    · cases hpoint : s.mLoop.thread th with
      | restart t msec rep =>
        rw [hpoint] at hp
        obtain ⟨w, hw⟩ := Option.isSome_iff_exists.mp hp
        obtain hgo | hblocked := goesOn_or_holder capacity h hh hw
        · exact Or.inl hgo
        · exact Or.inr ⟨t, w, hblocked, Or.inr ⟨hw, Or.inr ⟨msec, rep, hpoint⟩⟩⟩
      | timer t c =>
        rw [hpoint] at hp
        cases c with
        | blocked k => exact Or.inr ⟨t, th, ⟨k, hpoint⟩, Or.inl rfl⟩
        | lockWait k | relock k => exact Or.inl (goesOn_of_waitLock h hh hp)
        | remove k | addLock => exact Or.inl (goesOn_of_timers h hh hp)
        | _ => cases hp
      | _ => rw [hpoint] at hp; cases hp
  · exact Or.inl (Or.inl ⟨th, hin, hblocked, canStep_of_not_blocked h hin hblocked⟩)

end Progress

end CWrapper.LoopCalls
