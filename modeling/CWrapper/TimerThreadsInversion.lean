import CWrapper.TimerThreads
import CWrapper.WorkerEntries

/-!
What a step of a TimerThread does, by the point that the thread is at. A step of run() leaves mLock
as it is, takes it, or releases it; the other steps are those of the calls into mThread, the end of
the wait, and the return of the handler.
-/
namespace CWrapper.TimerThreads

open Transition WorkerThread

variable {H Th : Type}

theorem eq_none_of_isNone {c : Call H} (h : c.isNone = true) : c = .none := by
  cases c <;> first | rfl | cases h

/-- The steps of run() that leave mLock as it is. -/
inductive RunGoes (s : State H Th) : RunPoint H → RunPoint H → Prop
  | run : RunGoes s .test .lockArm
  | leave : RunGoes s .test .leave
  | elapsed (timeoutMs : BitVec 32) : RunGoes s (.callMsleep timeoutMs) .lockFire
  | fire (keepGoing : Bool) {handler : H} (hhandler : s.mHandler = some handler) :
      RunGoes s .fire (.call keepGoing handler)
  | skip (keepGoing : Bool) : RunGoes s .fire (.finish keepGoing)
  | begin (keepGoing : Bool) (handler : H) :
      RunGoes s (.call keepGoing handler) (.callback keepGoing handler)

inductive RunLocks : RunPoint H → RunPoint H → Prop
  | arm : RunLocks .lockArm .arm
  | fire : RunLocks .lockFire .fire

inductive RunUnlocks : RunPoint H → RunPoint H → Prop
  | arm (timeoutMs : BitVec 32) : RunUnlocks .arm (.callMsleep timeoutMs)
  | stop : RunUnlocks .fire .leave
  | again (keepGoing : Bool) : RunUnlocks (.finish keepGoing) .test
  | finish (keepGoing : Bool) : RunUnlocks (.finish keepGoing) .leave

variable [DecidableEq Th]

/-- What a step of a thread does from a point of a function of TimerThread. -/
inductive CallSteps (s : State H Th) (th : Th) : Call H → State H Th → Prop
  | callStop (op : Operation H) {e : WorkerThread.State Unit Th}
      (he : WorkerThread.step s.mThread (.call th .stop) = some e) :
      CallSteps s th (.callStop op) ({ s with mThread := e }.goto th (.stopping op))
  | stopped (op : Operation H) (hnone : s.mThread.call th = .none) :
      CallSteps s th (.stopping op) (s.goto th op.stopped)
  | lock (op : Operation H) {l : ReentrantLock.Lock Th}
      (hl : ReentrantLock.acquire s.mLock th = some l) :
      CallSteps s th (.lock op) ({ s with mLock := l }.goto th (.locked op))
  | assign (op : Operation H) :
      CallSteps s th (.locked op) ((s.assign th op).unlock.goto th op.unlocked)
  | callStart {e : WorkerThread.State Unit Th}
      (he : WorkerThread.step s.mThread (.call th (.start ())) = some e) :
      CallSteps s th .callStart ({ s with mThread := e }.goto th .starting)
  | started (hnone : s.mThread.call th = .none) : CallSteps s th .starting (s.goto th .none)

inductive RunSteps (s : State H Th) (th : Th) : RunPoint H → State H Th → Prop
  | goes {r r' : RunPoint H} (hgoes : RunGoes s r r') : RunSteps s th r (s.gotoRun th r')
  | lock {r r' : RunPoint H} {l : ReentrantLock.Lock Th} (hlocks : RunLocks r r')
      (hl : ReentrantLock.acquire s.mLock th = some l) :
      RunSteps s th r ({ s with mLock := l }.gotoRun th r')
  | unlock {r r' : RunPoint H} (hunlocks : RunUnlocks r r') (mStartTime : BitVec 64) :
      RunSteps s th r ({ s with mStartTime := mStartTime }.unlock.gotoRun th r')
  | callMsleep (timeoutMs : BitVec 32) {e : WorkerThread.State Unit Th}
      (he : WorkerThread.step s.mThread (.call th .msleep) = some e) :
      RunSteps s th (.callMsleep timeoutMs)
        ({ s with mThread := e }.gotoRun th (.msleep timeoutMs))
  | awake (expireTime : ℕ) (hnone : s.mThread.call th = .none) :
      RunSteps s th (.wait expireTime) (s.gotoRun th .lockFire)
  | returned (keepGoing : Bool) (handler : H) (answer : Bool) (hnone : s.call th = .none) :
      RunSteps s th (.callback keepGoing handler) (s.gotoRun th (.finish (keepGoing && answer)))

inductive Moves (s : State H Th) : Action H Th → State H Th → Prop
  | tick (d : ℕ) : Moves s (.tick d) { s with now := s.now + d }
  | enter {th : Th} (op : Operation H) (hmay : s.mayCall th = true) :
      Moves s (.enter th op) (s.goto th op.entry)
  | resume {s' : State H Th} {th : Th} (hsteps : CallSteps s th (s.call th) s') :
      Moves s (.resume th) s'
  | run {s' : State H Th} {th : Th} (answer : Bool) (hsteps : RunSteps s th (s.run th) s') :
      Moves s (.run th answer) s'
  | engine {b : WorkerThread.Action Unit Th} {e : WorkerThread.State Unit Th}
      (hadmits : s.admits b = true) (he : WorkerThread.step s.mThread b = some e) :
      Moves s (.engine b) (s.follow { s with mThread := e } b)

variable {s s' : State H Th} {th : Th}

theorem callStep_does {c : Call H} (hstep : callStep s th c = some s') : CallSteps s th c s' := by
  cases c with
  | none => cases hstep
  | callStop op =>
    obtain ⟨e, he, rfl⟩ := Option.map_eq_some_iff.mp hstep
    exact .callStop op he
  | stopping op =>
    obtain ⟨hnone, hs⟩ := Option.ite_none_right_eq_some.mp hstep
    obtain rfl := Option.some.inj hs
    exact .stopped op (isNone_iff.mp hnone)
  | lock op =>
    obtain ⟨l, hl, rfl⟩ := Option.map_eq_some_iff.mp hstep
    exact .lock op hl
  | locked op =>
    obtain rfl := Option.some.inj hstep
    exact .assign op
  | callStart =>
    obtain ⟨e, he, rfl⟩ := Option.map_eq_some_iff.mp hstep
    exact .callStart he
  | starting =>
    obtain ⟨hnone, hs⟩ := Option.ite_none_right_eq_some.mp hstep
    obtain rfl := Option.some.inj hs
    exact .started (isNone_iff.mp hnone)

theorem runStep_does {r : RunPoint H} {answer : Bool} (hstep : runStep s th answer r = some s') :
    RunSteps s th r s' := by
  cases r with
  | outside | msleep | leave => cases hstep
  | test =>
    obtain rfl := Option.some.inj hstep
    split
    · exact .goes .run
    · exact .goes .leave
  | lockArm =>
    obtain ⟨l, hl, rfl⟩ := Option.map_eq_some_iff.mp hstep
    exact .lock .arm hl
  | arm =>
    obtain rfl := Option.some.inj hstep
    exact .unlock (.arm _) s.mStartTime
  | callMsleep timeoutMs =>
    simp only [runStep] at hstep
    split at hstep
    · obtain rfl := Option.some.inj hstep
      exact .goes (.elapsed timeoutMs)
    · obtain ⟨e, he, rfl⟩ := Option.map_eq_some_iff.mp hstep
      exact .callMsleep timeoutMs he
  | wait expireTime =>
    obtain ⟨hnone, hs⟩ := Option.ite_none_right_eq_some.mp hstep
    obtain rfl := Option.some.inj hs
    exact .awake expireTime (isNone_iff.mp hnone)
  | lockFire =>
    obtain ⟨l, hl, rfl⟩ := Option.map_eq_some_iff.mp hstep
    exact .lock .fire hl
  | fire =>
    obtain rfl := Option.some.inj hstep
    split
    · cases hhandler : s.mHandler with
      | none => exact .goes (.skip s.mRepeat)
      | some handler => exact .goes (.fire s.mRepeat hhandler)
    · exact .unlock .stop s.mStartTime
  | call keepGoing handler =>
    obtain rfl := Option.some.inj hstep
    exact .goes (.begin keepGoing handler)
  | callback keepGoing handler =>
    obtain ⟨hnone, hs⟩ := Option.ite_none_right_eq_some.mp hstep
    obtain rfl := Option.some.inj hs
    exact .returned keepGoing handler answer (eq_none_of_isNone hnone)
  | finish keepGoing =>
    obtain rfl := Option.some.inj hstep
    split
    · exact .unlock (.again keepGoing) s.expireTime
    · exact .unlock (.finish keepGoing) s.mStartTime

/-- The case analysis of the steps, done once; the invariants take it up from here. -/
theorem step_moves {a : Action H Th} (hstep : step s a = some s') : Moves s a s' := by
  cases a with
  | tick d =>
    obtain ⟨-, hs⟩ := Option.ite_none_right_eq_some.mp hstep
    obtain rfl := Option.some.inj hs
    exact .tick d
  | enter th op =>
    obtain ⟨hmay, hs⟩ := Option.ite_none_right_eq_some.mp hstep
    obtain rfl := Option.some.inj hs
    exact .enter op hmay
  | resume th => exact .resume (callStep_does hstep)
  | run th answer => exact .run answer (runStep_does hstep)
  | engine b =>
    obtain ⟨hadmits, hs⟩ := Option.ite_none_right_eq_some.mp hstep
    obtain ⟨s₁, hs₁, rfl⟩ := Option.map_eq_some_iff.mp hs
    obtain ⟨e, he, rfl⟩ := Option.map_eq_some_iff.mp hs₁
    exact .engine hadmits he

end CWrapper.TimerThreads
