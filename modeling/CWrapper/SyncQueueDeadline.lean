import CWrapper.Transition
import CWrapper.SyncQueueThreads

/-!
The deadlines of the timed waits of put and get. A call that is woken and has to wait again gives
its whole timeout to the condition variable once more, which counts it from the tick of that time.
The record keeps, for each thread, the tick at which its call began its first wait.
-/
namespace CWrapper.SyncQueue

open Transition

variable {T Th : Type} {Capacity : ℕ+}

def ThreadPoint.timedWait : ThreadPoint T → Option (ℤ × ℕ)
  | .put _ timeoutMs (.blocked (some expireTime)) => some (timeoutMs, expireTime)
  | .get _ timeoutMs (.blocked (some expireTime)) => some (timeoutMs, expireTime)
  | _ => none

def ThreadPoint.waited : ThreadPoint T → Bool
  | .put _ _ (.blocked _) | .put _ _ (.woken _) | .get _ _ (.blocked _) | .get _ _ (.woken _) =>
      true
  | _ => false

/-- The ticks at which the calls in progress began their first waits. -/
abbrev FirstWaits (Th : Type) := Th → Option ℕ

def noteWaits (s : State T Th Capacity) (_ : Action T Th) (s' : State T Th Capacity)
    (first : FirstWaits Th) : FirstWaits Th :=
  fun th => if (s'.thread th).waited then (first th).or (some s.now) else none

/-- A call with a timeout has been woken, and has to wait again. -/
def State.waitsAgain (s : State T Th Capacity) (th : Th) : Bool :=
  match s.thread th with
  | .put _ timeoutMs (.woken false) => 0 < timeoutMs && s.mQueue.isFull && !s.mEOS
  | .get _ timeoutMs (.woken false) => 0 < timeoutMs && s.mQueue.isEmpty && !s.mEOS
  | _ => false

/-- Every timed wait ends at the tick of the call's first wait plus the timeout. -/
def OneDeadline (p : State T Th Capacity × FirstWaits Th) : Prop :=
  ∀ th timeoutMs expireTime, (p.1.thread th).timedWait = some (timeoutMs, expireTime) →
    ∃ tick, p.2 th = some tick ∧ expireTime = tick + timeoutMs.toNat

/-- A call that waits again does so before the clock has gone on since its first wait. -/
def rearmsAtOnce (p : State T Th Capacity × FirstWaits Th) (a : Action T Th) : Prop :=
  ∀ th choice, a = .resume th choice → p.1.waitsAgain th = true → p.2 th = some p.1.now

def Tracks (p : State T Th Capacity × FirstWaits Th) : Prop :=
  ∀ th, (p.2 th).isSome = (p.1.thread th).waited

/-- The record after a step has an entry for each call that has waited. -/
theorem noteWaits_tracks (s : State T Th Capacity) (a : Action T Th) (s' : State T Th Capacity)
    (first : FirstWaits Th) : Tracks (s', noteWaits s a s' first) := by
  intro th
  show Option.isSome (if (s'.thread th).waited then (first th).or (some s.now) else none) =
    (s'.thread th).waited
  split
  · rename_i hwaited
    rw [hwaited, Option.isSome_or]
    simp
  · rename_i hnot
    simpa using hnot

theorem waited_of_timedWait {p : ThreadPoint T} {w : ℤ × ℕ} (h : p.timedWait = some w) :
    p.waited = true := by
  unfold ThreadPoint.timedWait at h
  split at h
  · rfl
  · rfl
  · cases h

theorem timedWait_of_stays {p p' : ThreadPoint T} {w : ℤ × ℕ} (hs : Stays p p')
    (h : p'.timedWait = some w) : p.timedWait = some w := by
  rcases hs with rfl | ⟨timedOut, rfl⟩
  · exact h
  · rcases p with _ | ⟨t, ms, _ | _ | _⟩ | ⟨t, ms, _ | _ | _⟩ | _ | _ | _ | _ | _ | _ | _ | _ <;>
      simp [ThreadPoint.wake, WaitPoint.wake, ThreadPoint.timedWait] at h

section Waits

variable {s : State T Th Capacity}

/-- A put() that is to wait does so for the first time, or waits again. -/
theorem put_waits {th : Th} {t : T} {ms : ℤ} {point : WaitPoint}
    (hth : s.thread th = .put t ms point) (htests : point.tests = true) (hms : 0 < ms)
    (hfull : s.mQueue.isFull = true) (heos : s.mEOS = false) :
    (s.thread th).waited = false ∨ s.waitsAgain th = true := by
  rcases point with _ | _ | _ | _
  · exact Or.inl (by rw [hth]; rfl)
  · simp [WaitPoint.tests] at htests
  · exact Or.inr (by simp [State.waitsAgain, hth, hms, hfull, heos])
  · simp [WaitPoint.tests] at htests

/-- The same of a get(). -/
theorem get_waits {th : Th} {t : Option T} {ms : ℤ} {point : WaitPoint}
    (hth : s.thread th = .get t ms point) (htests : point.tests = true) (hms : 0 < ms)
    (hempty : s.mQueue.isEmpty = true) (heos : s.mEOS = false) :
    (s.thread th).waited = false ∨ s.waitsAgain th = true := by
  rcases point with _ | _ | _ | _
  · exact Or.inl (by rw [hth]; rfl)
  · simp [WaitPoint.tests] at htests
  · exact Or.inr (by simp [State.waitsAgain, hth, hms, hempty, heos])
  · simp [WaitPoint.tests] at htests

end Waits

variable [DecidableEq Th] [Inhabited T] {moved : T → T} {s s' : State T Th Capacity}
  {first : FirstWaits Th} {a : Action T Th}

/-- A thread in a timed wait has no step of its own before the wait ends. -/
theorem timedWait_blocked {th : Th} {choice : ℕ}
    (hstep : (system T Th Capacity moved).step s (.resume th choice) = some s') :
    (s.thread th).timedWait = none := by
  have hthread : threadStep moved s th choice = some s' := hstep
  by_contra hsome
  obtain ⟨w, hw⟩ := Option.ne_none_iff_exists'.mp hsome
  unfold ThreadPoint.timedWait at hw
  split at hw
  · rename_i hth
    simp [threadStep, hth] at hthread
  · rename_i hth
    simp [threadStep, hth] at hthread
  · cases hw

/-- A thread comes into a timed wait by a section that starts the timeout. -/
theorem timedWait_begins {th : Th} {choice : ℕ} {timeoutMs : ℤ} {expireTime : ℕ}
    (hstep : (system T Th Capacity moved).step s (.resume th choice) = some s')
    (h : (s'.thread th).timedWait = some (timeoutMs, expireTime)) :
    expireTime = s.now + timeoutMs.toNat ∧
      ((s.thread th).waited = false ∨ s.waitsAgain th = true) := by
  have hbefore := timedWait_blocked hstep
  have hstays {p : Prop} (hs : Stays (s.thread th) (s'.thread th)) : p := by
    have hsome := timedWait_of_stays hs h
    rw [hbefore] at hsome
    cases hsome
  generalize ha : Action.resume th choice = a at hstep
  cases step_moves hstep with
  | tick => simp at ha
  | @call _ u p _ hentry =>
    by_cases hu : th = u
    · subst hu
      have hp : p.timedWait = some (timeoutMs, expireTime) := by
        rw [← h]
        simp [State.goto]
      rcases p with _ | ⟨t, ms, _ | _ | _⟩ | ⟨t, ms, _ | _ | _⟩ | _ | _ | _ | _ | _ | _ | _ | _ <;>
        simp_all [ThreadPoint.isEntry, ThreadPoint.timedWait]
    · exact hstays (Stays.goto (Or.inl rfl) hu)
  | putLeave | getLeave => exact hstays (update_wake_stays ..)
  | @putBlock u c t ms point e hth htests hfull heos hexpire =>
    obtain ⟨rfl, -⟩ := Action.resume.inj ha
    cases e with
    | none => simp [State.goto, ThreadPoint.timedWait] at h
    | some e =>
      obtain ⟨rfl, rfl⟩ : ms = timeoutMs ∧ e = expireTime := by
        simpa [State.goto, ThreadPoint.timedWait] using h
      obtain ⟨hms, htime⟩ := hexpire e rfl
      exact ⟨htime, put_waits hth htests hms hfull heos⟩
  | @getBlock u c t ms point e hth htests hempty heos hexpire =>
    obtain ⟨rfl, -⟩ := Action.resume.inj ha
    cases e with
    | none => simp [State.goto, ThreadPoint.timedWait] at h
    | some e =>
      obtain ⟨rfl, rfl⟩ : ms = timeoutMs ∧ e = expireTime := by
        simpa [State.goto, ThreadPoint.timedWait] using h
      obtain ⟨hms, htime⟩ := hexpire e rfl
      exact ⟨htime, get_waits hth htests hms hempty heos⟩
  | putFail | getFail | putForceFail | put | get | putForce | evict | putForceDispose | flushEnd
  | flushItem | flushDispose | flushBroadcast | storeEOS | broadcastFull | broadcastEmpty =>
    obtain ⟨rfl, -⟩ := Action.resume.inj ha
    simp [State.goto, State.return, ThreadPoint.timedWait] at h

/-- A call that waits again starts its timeout at the tick of that time. -/
theorem waitsAgain_step {th : Th} {choice : ℕ} (hagain : s.waitsAgain th = true)
    (hstep : (system T Th Capacity moved).step s (.resume th choice) = some s') :
    (s.thread th).waited = true ∧
      ∃ timeoutMs, (s'.thread th).timedWait = some (timeoutMs, s.now + timeoutMs.toNat) := by
  have hthread : threadStep moved s th choice = some s' := hstep
  unfold State.waitsAgain at hagain
  split at hagain
  · rename_i t ms hth
    simp only [Bool.and_eq_true, decide_eq_true_eq, Bool.not_eq_true'] at hagain
    obtain ⟨⟨hms, hfull⟩, heos⟩ := hagain
    refine ⟨by rw [hth]; rfl, ms, ?_⟩
    have hinf : ms ≠ INFINITE := fun heq => absurd (heq ▸ hms) (by decide)
    have hpos : ¬ ms < 0 := by omega
    simp only [threadStep, hth, putSection, hfull, heos, Bool.not_false, Bool.and_self, if_true,
      hinf, if_false, hms.ne', expireTime, hpos] at hthread
    obtain rfl := Option.some.inj hthread
    simp [State.goto, ThreadPoint.timedWait]
  · rename_i t ms hth
    simp only [Bool.and_eq_true, decide_eq_true_eq, Bool.not_eq_true'] at hagain
    obtain ⟨⟨hms, hempty⟩, heos⟩ := hagain
    refine ⟨by rw [hth]; rfl, ms, ?_⟩
    have hinf : ms ≠ INFINITE := fun heq => absurd (heq ▸ hms) (by decide)
    have hpos : ¬ ms < 0 := by omega
    simp only [threadStep, hth, getSection, hempty, heos, Bool.not_false, Bool.and_self, if_true,
      hinf, if_false, hms.ne', expireTime, hpos] at hthread
    obtain rfl := Option.some.inj hthread
    simp [State.goto, ThreadPoint.timedWait]
  · cases hagain

def recordedSystem (T Th : Type) [Inhabited T] [DecidableEq Th] (Capacity : ℕ+) (moved : T → T) :
    Machine (State T Th Capacity × FirstWaits Th) (Action T Th) :=
  (system T Th Capacity moved).recorded (fun _ => none) noteWaits

/-- From a state in which all deadlines are right, a step leads to another one if and only if no
call waits again at a later tick. -/
theorem oneDeadline_step {p q : State T Th Capacity × FirstWaits Th} (ht : Tracks p)
    (hp : OneDeadline p) (hstep : (recordedSystem T Th Capacity moved).step p a = some q) :
    OneDeadline q ↔ rearmsAtOnce p a := by
  obtain ⟨hs, hnote⟩ := Machine.recorded_step_iff.mp hstep
  have hfirst {th : Th} (hwaited : (q.1.thread th).waited = true) :
      q.2 th = (p.2 th).or (some p.1.now) := by
    rw [hnote]
    exact if_pos hwaited
  constructor
  · rintro hq th choice rfl hagain
    obtain ⟨hwaited, ms, hwait⟩ := waitsAgain_step hagain hs
    obtain ⟨tick, htick, heq⟩ := hq th _ _ hwait
    obtain ⟨tick', htick'⟩ := Option.isSome_iff_exists.mp ((ht th).trans hwaited)
    rw [hfirst (waited_of_timedWait hwait), htick', Option.some_or] at htick
    obtain rfl := Option.some.inj htick
    rw [htick']
    exact congrArg some (by omega)
  · intro hok th ms e hwait
    have hfirst := hfirst (waited_of_timedWait hwait)
    rcases (step_moves hs).follows th with ⟨choice, rfl⟩ | hstays | ⟨-, hentry⟩
    · obtain ⟨htime, hnew | hagain⟩ := timedWait_begins hs hwait
      · have hnone : p.2 th = none := by simpa [hnew] using ht th
        exact ⟨p.1.now, by rw [hfirst, hnone]; rfl, htime⟩
      · exact ⟨p.1.now, by rw [hfirst, hok th choice rfl hagain]; rfl, htime⟩
    · obtain ⟨tick, htick, heq⟩ := hp th ms e (timedWait_of_stays hstays hwait)
      exact ⟨tick, by rw [hfirst, htick]; rfl, heq⟩
    · unfold ThreadPoint.timedWait at hwait
      split at hwait
      · simp_all [ThreadPoint.isEntry]
      · simp_all [ThreadPoint.isEntry]
      · cases hwait

/-- In a run all timed waits keep to the deadline of their call's first wait if and only if no
call that has been woken waits again at a later tick. -/
theorem one_deadline_iff {p q : State T Th Capacity × FirstWaits Th} {as : List (Action T Th)}
    (hinit : (recordedSystem T Th Capacity moved).initial p) :
    (recordedSystem T Th Capacity moved).Path
        ((recordedSystem T Th Capacity moved).leadsTo OneDeadline) p as q ↔
      (recordedSystem T Th Capacity moved).Path rearmsAtOnce p as q := by
  obtain ⟨⟨now, hstart⟩, hrecord⟩ := hinit
  have hI : Tracks p ∧ OneDeadline p := by
    obtain ⟨s, first⟩ := p
    obtain rfl : s = State.start now := hstart
    obtain rfl : first = fun _ => none := hrecord
    exact ⟨fun th => rfl, fun th ms e hwait => by cases hwait⟩
  refine Machine.path_congr (I := fun p => Tracks p ∧ OneDeadline p) ?_ ?_ hI
  · rintro p a q hok hstep -
    obtain ⟨-, hnote⟩ := Machine.recorded_step_iff.mp hstep
    refine ⟨?_, hok _ hstep⟩
    rw [Tracks, hnote]
    exact fun th => noteWaits_tracks p.1 a q.1 p.2 th
  · rintro p a p' ⟨ht, hp⟩ hstep
    exact (Machine.leadsTo_iff hstep).trans (oneDeadline_step ht hp hstep)

/-- get(0, 10) waits at tick 0 until tick 10. -/
def firstWait : List (Action ℕ Bool) := [.get false (some 0) 10, .resume false 0]

/-- It is woken for nothing, and waits again at tick 5. -/
def secondWait : List (Action ℕ Bool) := firstWait ++ [.spurious false, .tick 5, .resume false 0]

def atStart : State ℕ Bool oneCell × FirstWaits Bool := (State.start 0, fun _ => none)

theorem atStart_initial : (recordedSystem ℕ Bool oneCell id).initial atStart :=
  ⟨initial_start, rfl⟩

def waitsAgain : State ℕ Bool oneCell × FirstWaits Bool :=
  (recordedSystem ℕ Bool oneCell id).after Machine.anyStep atStart secondWait

theorem one_deadline_iff_second :
    (recordedSystem ℕ Bool oneCell id).Path
        ((recordedSystem ℕ Bool oneCell id).leadsTo OneDeadline) atStart secondWait waitsAgain ↔
      (recordedSystem ℕ Bool oneCell id).Path rearmsAtOnce atStart secondWait waitsAgain :=
  one_deadline_iff atStart_initial

/-- The second wait ends at tick 15. -/
theorem deadline_prolonged :
    ¬ ∀ p, (recordedSystem ℕ Bool oneCell id).Reachable Machine.anyStep p → OneDeadline p := by
  intro h
  have hone := h waitsAgain (Machine.reachable_after atStart_initial (by decide +kernel))
  obtain ⟨tick, htick, heq⟩ := hone false 10 15 (by decide +kernel)
  have hfirst : waitsAgain.2 false = some 0 := by decide +kernel
  rw [hfirst] at htick
  obtain rfl := Option.some.inj htick
  simp at heq

end CWrapper.SyncQueue
