import CWrapper.WorkerSession
import CWrapper.WorkerWaits

/-!
Where a thread goes with one step in stop(), start() and msleep(), and which threads are in
taskEntry after it. The points of a call are grouped by what is true of the session at them.
-/
namespace CWrapper.WorkerThread

open Transition

variable {W Th : Type}

/-- The points of stop() of a thread that is not the worker, up to the reset. -/
inductive InStop : Call W Th → Prop
  | isCurrentThread : InStop (.isCurrentThread .stop)
  | lockLifecycle : InStop (.lockLifecycle .stop)
  | requestStop : InStop (.requestStop .stop)
  | onStopRequested (w : W) (pt : CallbackPoint) :
      InStop (.onStopRequested (.requestStop .stop) w pt)
  | load : InStop (.load .stop)
  | joinLocked (pt : JoinPoint W Th) : InStop (.joinLocked .stop pt)

/-- The points of start() up to pthread_create, in a state in which no session is to be joined. -/
inductive BeforeCreate : Call W Th → Prop
  | lockLifecycle (w : W) : BeforeCreate (.lockLifecycle (.start w))
  | load (w : W) : BeforeCreate (.load (.start w))
  | claim (w : W) : BeforeCreate (.start w .claim)
  | prepare (w : W) (pt : Preparation) : BeforeCreate (.start w (.prepare pt))

inductive AfterCreate : Call W Th → Prop
  | handshake (w : W) (createdId : Option Th) : AfterCreate (.start w (.handshake createdId))
  | onStopRequested (w : W) (pt : CallbackPoint) : AfterCreate (.onStopRequested .start w pt)

theorem InStop.isNone {c : Call W Th} (h : InStop c) : c.isNone = false := by
  cases h <;> rfl

theorem BeforeCreate.isNone {c : Call W Th} (h : BeforeCreate c) : c.isNone = false := by
  cases h <;> rfl

theorem AfterCreate.isNone {c : Call W Th} (h : AfterCreate c) : c.isNone = false := by
  cases h <;> rfl

/-- The points after which start() returns true when it comes to its end. -/
def Call.succeeds : Call W Th → Bool
  | .start _ (.handshake _) | .onStopRequested .start _ .leave => true
  | _ => false

def Call.creates : Call W Th → Answer Th → Option Th
  | .start _ (.prepare .create), .thread id => some id
  | _, _ => Option.none

theorem creates_eq_some {c : Call W Th} {answer : Answer Th} {id : Th}
    (h : c.creates answer = some id) :
    (∃ w, c = .start w (.prepare .create)) ∧ answer = .thread id := by
  unfold Call.creates at h
  split at h
  · exact ⟨⟨_, rfl⟩, congrArg Answer.thread (Option.some.inj h)⟩
  · cases h

def State.nobody (s : State W Th) : Prop := ∀ t, s.task t = .none

variable [DecidableEq Th] {s s' : State W Th} {th : Th} {w : W} {answer : Answer Th}

/-- The thread has gone to another point of its call, and taskEntry is left alone. -/
structure Goes (s s' : State W Th) (th : Th) (c : Call W Th) : Prop where
  call : s'.call = Function.update s.call th c
  task : s'.task = s.task

/-- A thread that only goes to another point of its call leaves taskEntry as it is. -/
theorem Goes.nobody {c : Call W Th} (h : Goes s s' th c) (hs : s.nobody) : s'.nobody := by
  intro t
  rw [h.task]
  exact hs t

/-- What a step of stop() does, of a thread that is not the worker. -/
inductive StopMoves (s s' : State W Th) (th : Th) : Prop
  | goOn {c : Call W Th} (hgoes : Goes s s' th c) (hc : InStop c)
  | joined {c : Call W Th} {id : Th} (hc : InStop c) (hexited : s.task id = .exited)
      (hcall : s'.call = Function.update s.call th c)
      (htask : s'.task = Function.update s.task id .none)
  | finish (hgoes : Goes s s' th .unlock) (hnobody : s.nobody)

/-- What a step of start() does up to pthread_create. -/
inductive StartMoves (s s' : State W Th) (th : Th) (answer : Answer Th) : Prop
  | goOn {c : Call W Th} (hcreates : (s.call th).creates answer = none) (hgoes : Goes s s' th c)
      (hc : BeforeCreate c ∨ c = .unlock ∨ ∃ w, c = .start w (.cleanup false))
  | created {w : W} {id : Th} (hcreates : (s.call th).creates answer = some id)
      (hid : s.call id = .none ∧ s.task id = .none)
      (hcall : s'.call = Function.update s.call th (.start w (.handshake (some id))))
      (htask : s'.task = Function.update s.task id .entry)

/-- A step of a thread is one of its body, where the lock is free. -/
theorem body_of_resume (hstep : step s (.resume th answer) = some s') :
    ∃ lock, body { s with mStateLock := lock } th answer = some s' := by
  simp only [step] at hstep
  split at hstep
  · split at hstep
    · exact ⟨none, hstep⟩
    · cases hstep
  · exact ⟨s.mStateLock, hstep⟩

theorem callStep_of_resume (hstep : step s (.resume th answer) = some s')
    (hcall : (s.call th).isNone = false) :
    ∃ lock, callStep { s with mStateLock := lock } th answer (s.call th) = some s' := by
  obtain ⟨lock, hbody⟩ := body_of_resume hstep
  refine ⟨lock, ?_⟩
  rwa [body, if_neg (by simp [hcall])] at hbody

theorem callDoes_of_resume (hstep : step s (.resume th answer) = some s')
    (hcall : (s.call th).isNone = false) :
    ∃ lock, CallDoes { s with mStateLock := lock } th answer (s.call th) s' := by
  obtain ⟨lock, hcallStep⟩ := callStep_of_resume hstep hcall
  exact ⟨lock, callStep_does hcallStep⟩

theorem taskStep_of_resume (hstep : step s (.resume th answer) = some s')
    (hcall : s.call th = .none) :
    ∃ lock, taskStep { s with mStateLock := lock } th (s.task th) = some s' := by
  obtain ⟨lock, hbody⟩ := body_of_resume hstep
  refine ⟨lock, ?_⟩
  rwa [body, if_pos (by rw [hcall]; rfl)] at hbody

theorem taskDoes_of_resume (hstep : step s (.resume th answer) = some s')
    (hcall : s.call th = .none) :
    ∃ lock, TaskDoes { s with mStateLock := lock } th (s.task th) s' := by
  obtain ⟨lock, htaskStep⟩ := taskStep_of_resume hstep hcall
  exact ⟨lock, taskStep_does htaskStep⟩

section Points

theorem notify_goes (s : State W Th) (th : Th) (k : Notifier) :
    ∃ c, Goes s (s.notify th k) th c ∧ (c = k.back ∨ ∃ w, c = .onStopRequested k w .enter) := by
  unfold State.notify
  split
  · rename_i w hw
    exact ⟨_, ⟨rfl, rfl⟩, Or.inr ⟨w, rfl⟩⟩
  · exact ⟨_, ⟨rfl, rfl⟩, Or.inl rfl⟩

namespace CallDoes

theorem msleep {pt : SleepPoint} (h : CallDoes s th answer (.msleep pt) s') :
    ∃ c, Goes s s' th c ∧ (c = .none ∨ ∃ pt, c = .msleep pt) := by
  cases h with
  | goes hleads =>
    cases hleads
    exact ⟨_, ⟨rfl, rfl⟩, Or.inl rfl⟩
  | logs hlogs => cases hlogs
  | resets hresets => cases hresets
  | sleepBlock => exact ⟨_, ⟨rfl, rfl⟩, Or.inr ⟨.wait, rfl⟩⟩
  | sleepEnd => exact ⟨_, ⟨rfl, rfl⟩, Or.inl rfl⟩

/-- requestStop() goes back to its caller, or on to onStopRequested. -/
theorem requestStop {k : Requester} (h : CallDoes s th answer (.requestStop k) s') :
    ∃ c, Goes s s' th c ∧ (c = k.back ∨ ∃ w, c = .onStopRequested (.requestStop k) w .enter) := by
  cases h with
  | goes hleads =>
    cases hleads
    exact ⟨_, ⟨rfl, rfl⟩, Or.inl rfl⟩
  | logs hlogs => cases hlogs
  | resets hresets => cases hresets
  | request => exact ⟨_, ⟨rfl, rfl⟩, Or.inl rfl⟩
  | stop =>
    obtain ⟨c, hgoes, hc⟩ := notify_goes ((({ s with
      mStopRequested := true
      mWakeupRequested := true
      mState := .stopping }.emit .stopping).broadcastState.broadcastSleep)) th (.requestStop k)
    exact ⟨c, ⟨hgoes.call, hgoes.task⟩, hc⟩

theorem onStopRequested {k : Notifier} {pt : CallbackPoint}
    (h : CallDoes s th answer (.onStopRequested k w pt) s') :
    ∃ c, Goes s s' th c ∧ (pt = .leave ∧ c = k.back ∨ ∃ pt', c = .onStopRequested k w pt') := by
  cases h with
  | goes hleads => cases hleads
  | logs hlogs =>
    cases hlogs with
    | stopBegin => exact ⟨_, ⟨rfl, rfl⟩, Or.inr ⟨.inside, rfl⟩⟩
    | stopEnd => exact ⟨_, ⟨rfl, rfl⟩, Or.inr ⟨.leave, rfl⟩⟩
  | resets hresets => cases hresets
  | delivered => exact ⟨_, ⟨rfl, rfl⟩, Or.inl ⟨rfl, rfl⟩⟩

theorem handshake {createdId : Option Th}
    (h : CallDoes s th answer (.start w (.handshake createdId)) s') :
    ∃ c, Goes s s' th c ∧ (c = .unlock ∨ AfterCreate c) := by
  cases h with
  | goes hleads => cases hleads
  | logs hlogs => cases hlogs
  | resets hresets => cases hresets
  | handshakeBlock => exact ⟨_, ⟨rfl, rfl⟩, Or.inr (.handshake w none)⟩
  | handshakeRun => exact ⟨_, ⟨rfl, rfl⟩, Or.inl rfl⟩
  | handshakeStop =>
    obtain ⟨c, hgoes, hc⟩ := notify_goes (({ s.stored createdId with
      mState := .stopping
      mStartReleased := true
      mWakeupRequested := true }.emit .stopping).broadcastSleep.broadcastState) th .start
    refine ⟨c, ⟨hgoes.call, hgoes.task⟩, ?_⟩
    obtain rfl | ⟨w, rfl⟩ := hc
    · exact Or.inl rfl
    · exact Or.inr (.onStopRequested w .enter)

theorem prepare {pt : Preparation} (hcall : s.call th = .start w (.prepare pt))
    (h : CallDoes s th answer (.start w (.prepare pt)) s') : StartMoves s s' th answer := by
  cases h with
  | goes hleads =>
    cases hleads with
    | attrInit =>
      exact .goOn (by rw [hcall]; rfl) ⟨rfl, rfl⟩ (Or.inl (.prepare w .onPrepare))
  | logs hlogs =>
    cases hlogs with
    | createFailed _ hanswer =>
      exact .goOn (by rw [hcall, hanswer]; rfl) ⟨rfl, rfl⟩ (Or.inl (.prepare w (.reset true)))
    | attrInitFailed | prepareBegin | prepared | prepareFailed =>
      exact .goOn (by rw [hcall]; rfl) ⟨rfl, rfl⟩ (Or.inl (.prepare w _))
  | resets hresets =>
    cases hresets with
    | failed => exact .goOn (by rw [hcall]; rfl) ⟨rfl, rfl⟩ (Or.inr (Or.inr ⟨w, rfl⟩))
    | refused => exact .goOn (by rw [hcall]; rfl) ⟨rfl, rfl⟩ (Or.inr (Or.inl rfl))
  | create _ id hanswer hid htask =>
    exact .created (by rw [hcall, hanswer]; rfl) ⟨hid, htask⟩ rfl rfl

end CallDoes

/-- With the thread created, start() goes on to where it returns true. -/
theorem afterCreate_goes (hcall : AfterCreate (s.call th))
    (hstep : step s (.resume th answer) = some s') : ∃ c, Goes s s' th c ∧
      (AfterCreate c ∨ c = .unlock ∧ (s.call th).succeeds = true) := by
  obtain ⟨lock, hdoes⟩ := callDoes_of_resume hstep hcall.isNone
  obtain ⟨c, hc'⟩ : ∃ c, s.call th = c := ⟨_, rfl⟩
  rw [hc'] at hcall hdoes
  cases hcall with
  | handshake w createdId =>
    obtain ⟨c, hgoes, hc⟩ := hdoes.handshake
    refine ⟨c, ⟨hgoes.call, hgoes.task⟩, ?_⟩
    obtain rfl | hc := hc
    · exact Or.inr ⟨rfl, by rw [hc']; rfl⟩
    · exact Or.inl hc
  | onStopRequested w pt =>
    obtain ⟨c, hgoes, hc⟩ := hdoes.onStopRequested
    refine ⟨c, ⟨hgoes.call, hgoes.task⟩, ?_⟩
    obtain ⟨rfl, rfl⟩ | ⟨pt', rfl⟩ := hc
    · exact Or.inr ⟨rfl, by rw [hc']; rfl⟩
    · exact Or.inl (.onStopRequested w pt')

end Points

end CWrapper.WorkerThread
