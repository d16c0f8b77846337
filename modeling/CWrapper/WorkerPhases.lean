import CWrapper.WorkerInversion
import CWrapper.WorkerPoints

/-!
In every reachable state the object is in a phase. Each section and each callback takes the phase
to the next one; the other steps leave it as it is.
-/
namespace CWrapper.WorkerThread

open Transition

variable {W Th : Type} [DecidableEq W] [DecidableEq Th]

structure Fits (s : State W Th) (p : Phase W Th) : Prop where
  state : s.mState = p.state
  worker : s.mWorker = p.worker
  callbacks : s.mCallbacksInProgress = p.callbacks
  handshake : p.Handshake s.mStartReleased s.mThreadReady s.mId
  task : s.task = p.task
  log : Protocol.read s.log = some p.stage
  agrees : Agrees s.call s.mLifecycleLock p

variable {s s' : State W Th} {p p' : Phase W Th} {th : Th} {c : Call W Th} {w : W}

section Calls

/-- No phase depends on mStateLock, the condition variables, or the two requests. -/
theorem Fits.waits (h : Fits s p) (mStateLock : Option Th) (mStateCv mSleepCv : Th → Bool)
    (mStopRequested mWakeupRequested : Bool) : Fits { s with
      mStateLock := mStateLock
      mStateCv := mStateCv
      mSleepCv := mSleepCv
      mStopRequested := mStopRequested
      mWakeupRequested := mWakeupRequested } p :=
  ⟨h.state, h.worker, h.callbacks, h.handshake, h.task, h.log, h.agrees⟩

theorem Fits.goto (h : Fits s p) (hfree : (s.call th).isFree = true) (hc : c.isFree = true)
    (hjoin : c.joins = none) (hholds : c.holds = (s.call th).holds) : Fits (s.goto th c) p :=
  ⟨h.state, h.worker, h.callbacks, h.handshake, h.task, h.log,
    h.agrees.goto hfree hc (by simp [hjoin]) hholds⟩

theorem Fits.idle_or_live (h : Fits s p) (th : Th) (hholds : (s.call th).holds = true)
    (hfree : (s.call th).isFree = true) :
    p = .idle ∨ ∃ w t r stop, p = .live w t r stop :=
  h.agrees.unheld hholds hfree

/-- In the state Idle a thread that holds mLifecycleLock finds no session. -/
theorem Fits.idle (h : Fits s p) (hidle : s.mState = .idle) (th : Th)
    (hholds : (s.call th).holds = true) (hfree : (s.call th).isFree = true) : p = .idle := by
  obtain rfl | ⟨w, t, r, stop, rfl⟩ := h.idle_or_live th hholds hfree
  · rfl
  · have hstate := h.state
    rw [hidle] at hstate
    cases r <;> cases stop <;> cases hstate

end Calls

section Start

/-- start() claims the object and begins a session. -/
theorem Fits.claim (h : Fits s p) (hcall : s.call th = .start w .claim)
    (hidle : s.mState = .idle) :
    Fits ((s.claimed w).goto th (.start w (.prepare .attrInit))) (.preparing w th .attrInit) := by
  obtain rfl := h.idle hidle th (by rw [hcall]; rfl) (by rw [hcall]; rfl)
  exact
    { state := rfl
      worker := rfl
      callbacks := rfl
      handshake := ⟨rfl, rfl⟩
      task := h.task
      log := Protocol.read_emit h.log rfl
      agrees := h.agrees.move (by simp [Phase.Allows, Phase.point])
        (fun th' hne => if_neg hne) (fun _ => rfl) (fun _ hid => by cases hid)
        (by rw [hcall]; rfl) }

theorem Fits.preparing (h : Fits s p) {pt : Preparation}
    (hcall : s.call th = .start w (.prepare pt)) : p = .preparing w th pt := by
  cases h.agrees.pinned hcall rfl
  rfl

/-- start() goes on while it prepares the session. -/
theorem Fits.prepare {pt₁ pt₂ : Preparation} {log : List (Event W Th)}
    (h : Fits s (.preparing w th pt₁))
    (hcall : s.call th = .start w (.prepare pt₁))
    (hlog : Protocol.read log = some (Phase.preparing w th pt₂ : Phase W Th).stage) :
    Fits ({ s with log := log }.goto th (.start w (.prepare pt₂))) (.preparing w th pt₂) where
  state := h.state
  worker := h.worker
  callbacks := h.callbacks
  handshake := h.handshake
  task := h.task
  log := hlog
  agrees := h.agrees.move (by simp [Phase.Allows, Phase.point])
    (fun th' hne => by simp [Phase.point, hne]) (fun _ => rfl) (fun _ hid => by cases hid)
    (by rw [hcall]; rfl)

/-- pthread_create has succeeded, and the identity is not stored yet. -/
theorem Fits.create {id : Th} (h : Fits s (.preparing w th .create))
    (hcall : s.call th = .start w (.prepare .create)) :
    Fits (((s.emit (.created id)).gotoTask id .entry).goto th (.start w (.handshake (some id))))
      (.opening w th id false .entry) where
  state := h.state
  worker := h.worker
  callbacks := h.callbacks
  handshake := ⟨h.handshake.1, nofun, Or.inl ⟨rfl, h.handshake.2⟩⟩
  task := by
    show Function.update s.task id .entry = _
    rw [h.task]
    rfl
  log := Protocol.read_emit h.log rfl
  agrees := h.agrees.move (by simp [Phase.Allows, Phase.point])
    (fun th' hne => by simp [Phase.point, hne]) (fun _ => rfl) (fun _ hid => by cases hid)
    (by rw [hcall]; rfl)

/-- The session is given up after onPrepare, and onCleanup is due. -/
theorem Fits.failed (h : Fits s (.preparing w th (.reset true)))
    (hcall : s.call th = .start w (.prepare (.reset true))) :
    Fits (s.resetStateLocked.broadcastState.broadcastSleep.goto th (.start w (.cleanup false)))
      (.failed w th false) where
  state := rfl
  worker := rfl
  callbacks := rfl
  handshake := trivial
  task := h.task
  log := h.log
  agrees := h.agrees.move (by simp [Phase.Allows, Phase.point])
    (fun th' hne => by simp [Phase.point, hne]) (fun _ => rfl) (fun _ hid => by cases hid)
    (by rw [hcall]; rfl)

/-- The reset after a failure leaves the object Idle. -/
theorem Fits.refused (h : Fits s (.preparing w th (.reset false)))
    (hcall : s.call th = .start w (.prepare (.reset false))) :
    Fits (s.resetStateLocked.broadcastState.broadcastSleep.goto th .unlock) .idle where
  state := rfl
  worker := rfl
  callbacks := rfl
  handshake := trivial
  task := h.task
  log := h.log
  agrees := h.agrees.move rfl (fun th' hne => by simp [Phase.point, hne]) (fun _ => rfl)
    (fun _ hid => by cases hid) (by rw [hcall]; rfl)

/-- The wait for mThreadReady. -/
theorem Fits.handshakeWait {t : Th} {r : Task W} {stored : Bool} {createdId : Option Th}
    (h : Fits s (.opening w th t stored r)) (hid : s.mId = some t)
    (hcall : s.call th = .start w (.handshake createdId)) :
    Fits ((s.waitState th).goto th (.start w (.handshake none))) (.opening w th t true r) where
  state := h.state
  worker := h.worker
  callbacks := h.callbacks
  handshake := ⟨h.handshake.1, fun _ => hid, h.handshake.2.2⟩
  task := h.task
  log := h.log
  agrees := h.agrees.move (by simp [Phase.Allows, Phase.point])
    (fun th' hne => by simp [Phase.point, hne]) (fun _ => rfl) (fun _ hid => by cases hid)
    (by rw [hcall]; rfl)

/-- start() releases the thread: the session is live, and may have been stopped already. -/
theorem Fits.release {t : Th} {r : Task W} {stored : Bool} {createdId : Option Th}
    (h : Fits s (.opening w th t stored r)) (hid : s.mId = some t)
    (hcall : s.call th = .start w (.handshake createdId)) (hready : s.mThreadReady = true) :
    Fits ({ s with mState := .running, mStartReleased := true }.goto th .unlock)
        (.live w t r .none) ∧
      Fits (({ s with mState := .stopping, mStartReleased := true }.emit .stopping).notify th
        .start) (.live w t r (.under th .start .enter)) := by
  obtain ⟨-, -, ⟨-, hnot⟩ | ⟨rfl, -⟩⟩ := h.handshake
  · rw [hready] at hnot
    cases hnot
  have hworker : s.mWorker = some w := h.worker
  have hother {stop : Delivery Th} (hstop : ∀ th', th' ≠ th → stop.point w th' = none) (th' : Th)
      (hne : th' ≠ th) : (Phase.live w t .await stop : Phase W Th).point th' =
        (Phase.opening w th t stored .await).point th' := by
    simp only [Phase.point, hstop th' hne, if_neg hne]
  have hholds : (s.call th).holds = true := by
    rw [hcall]
    rfl
  have hjoin (hfalse : (s.call th).holds = false) : (Phase.live w t .await .none).joinable =
      (Phase.opening w th t stored .await).joinable := by
    rw [hholds] at hfalse
    cases hfalse
  refine ⟨?_, ?_⟩
  · exact
      { state := rfl
        worker := h.worker
        callbacks := h.callbacks
        handshake := ⟨rfl, hid, Or.inl rfl⟩
        task := h.task
        log := h.log
        agrees := h.agrees.move rfl (hother fun _ _ => rfl) hjoin (fun _ hid => by cases hid)
          hholds.symm }
  · simp only [State.notify, State.emit, hworker]
    exact
      { state := rfl
        worker := rfl
        callbacks := congrArg (· + 1) h.callbacks
        handshake := ⟨rfl, hid, Or.inl rfl⟩
        task := h.task
        log := Protocol.read_emit h.log rfl
        agrees := h.agrees.move (by simp [Phase.Allows, Phase.point, Delivery.point])
          (hother fun _ hne => if_neg hne) hjoin (fun _ hid => by cases hid) hholds.symm }

/-- While start() waits for the thread, the session is opening, and the identity is stored before
mThreadReady is tested. -/
theorem Fits.storeId {createdId : Option Th} (h : Fits s p)
    (hcall : s.call th = .start w (.handshake createdId)) :
    ∃ t r stored, Fits (s.stored createdId) (.opening w th t stored r) ∧
      (s.stored createdId).mId = some t := by
  cases createdId with
  | some id =>
    cases h.agrees.pinned hcall rfl with
    | created w h' t r =>
    exact ⟨_, _, _, ⟨h.state, h.worker, h.callbacks,
      ⟨h.handshake.1, fun _ => rfl, h.handshake.2.2⟩, h.task, h.log, h.agrees⟩, rfl⟩
  | none =>
    cases h.agrees.pinned hcall rfl
    exact ⟨_, _, _, h, h.handshake.2.1 rfl⟩

theorem Fits.handshaking {createdId : Option Th} (h : Fits s p)
    (hcall : s.call th = .start w (.handshake createdId)) : s.mState = .starting := by
  obtain ⟨t, r, stored, hopening, -⟩ := h.storeId hcall
  exact hopening.state

theorem Fits.failedBegin (h : Fits s p) (hcall : s.call th = .start w (.cleanup false)) :
    Fits ((s.emit (.cleanupBegin w)).goto th (.start w (.cleanup true))) (.failed w th true) := by
  cases h.agrees.pinned hcall rfl
  exact
    { state := h.state
      worker := h.worker
      callbacks := h.callbacks
      handshake := trivial
      task := h.task
      log := Protocol.read_emit h.log (if_pos rfl)
      agrees := h.agrees.move (by simp [Phase.Allows, Phase.point])
        (fun th' hne => by simp [Phase.point, hne]) (fun _ => rfl) (fun _ hid => by cases hid)
        (by rw [hcall]; rfl) }

theorem Fits.failedEnd (h : Fits s p) (hcall : s.call th = .start w (.cleanup true)) :
    Fits ((s.emit (.cleanupEnd w)).goto th .unlock) .idle := by
  cases h.agrees.pinned hcall rfl
  exact
    { state := h.state
      worker := h.worker
      callbacks := h.callbacks
      handshake := trivial
      task := h.task
      log := Protocol.read_emit h.log (if_pos rfl)
      agrees := h.agrees.move rfl (fun th' hne => by simp [Phase.point, hne]) (fun _ => rfl)
        (fun _ hid => by cases hid) (by rw [hcall]; rfl) }

end Start

section Stop

/-- A running session is stopped: its state becomes Stopping and onStopRequested is due. -/
theorem Fits.stopRunning {t : Th} {r : Task W} (h : Fits s (.live w t r .none)) {k : Requester}
    (hr : r ≠ .exited) (hcall : s.call th = .requestStop k) :
    Fits (({ s with mState := .stopping }.emit .stopping).notify th (.requestStop k))
      (.live w t r (.under th (.requestStop k) .enter)) := by
  have hworker : s.mWorker = some w := h.worker
  simp only [State.notify, State.emit, hworker]
  exact
    { state := by cases r <;> first | rfl | exact absurd rfl hr
      worker := rfl
      callbacks := congrArg (· + 1) h.callbacks
      handshake := h.handshake
      task := h.task
      log := Protocol.read_emit h.log (by cases r <;> rfl)
      agrees := h.agrees.move (by simp [Phase.Allows, Phase.point, Delivery.point])
        (fun th' hne => if_neg hne) (fun _ => rfl) (fun _ hid => by cases hid)
        (by rw [hcall]; cases k <;> rfl) }

/-- requestStop() may return to its caller in any phase. -/
theorem Fits.requestBack (h : Fits s p) {k : Requester} (hcall : s.call th = .requestStop k) :
    Fits (s.goto th k.back) p :=
  h.goto (by rw [hcall]; rfl) k.back_free k.back_joins (by rw [k.back_holds, hcall])

def Phase.deliver (stop : Delivery Th) : Phase W Th → Phase W Th
  | .live w t r _ => .live w t r stop
  | .joined w h op _ => .joined w h op stop
  | p => p

/-- The thread that delivers onStopRequested goes on. -/
theorem Fits.deliver (h : Fits s p) {k : Notifier} {pt : CallbackPoint} {count : ℕ}
    (stop : Delivery Th) (log : List (Event W Th)) (hcall : s.call th = .onStopRequested k w pt)
    (hnone : stop ≠ .none) (hcount : count = stop.callbacks)
    (hc : stop.point w th = some c ∨ stop = .done ∧ c.isFree = true)
    (hother : ∀ th', th' ≠ th → stop.point w th' = none)
    (hlog : ∀ run : Protocol.RunStage Th,
      Protocol.read s.log = some (.live w run (Delivery.under th k pt).stage) →
      Protocol.read log = some (.live w run stop.stage))
    (hjoin : c.joins = none) (hholds : c.holds = (s.call th).holds) :
    Fits ({ s with mCallbacksInProgress := count, log := log }.goto th c) (p.deliver stop) := by
  cases h.agrees.pinned hcall rfl with
  | live w t r n k pt =>
    exact
      { state := by
          show s.mState = _
          rw [h.state]
          cases r <;> cases stop <;> first | rfl | exact absurd rfl hnone
        worker := h.worker
        callbacks := hcount
        handshake := h.handshake
        task := h.task
        log := hlog _ h.log
        agrees := h.agrees.move
          (by
            rcases hc with hc | ⟨rfl, hc⟩
            · simp [Phase.Allows, Phase.deliver, Phase.point, hc]
            · exact hc)
          (fun th' hne => by
            show stop.point w th' = (Delivery.under th k pt).point w th'
            rw [hother th' hne]
            exact (if_neg hne).symm)
          (fun _ => rfl) (by simp [hjoin]) hholds }
  | joinedUnder w h' op n k pt hne =>
    exact
      { state := h.state
        worker := h.worker
        callbacks := hcount
        handshake := by
          rintro k' pt' rfl
          have hpoint := hother h' (Ne.symm hne)
          simp [Delivery.point] at hpoint
        task := h.task
        log := hlog _ h.log
        agrees := h.agrees.move
          (by
            rcases hc with hc | ⟨rfl, hc⟩
            · simp [Phase.Allows, Phase.deliver, Phase.point, hc, hne]
            · simpa [Phase.Allows, Phase.deliver, Phase.point, Delivery.point, hne] using hc)
          (fun th' hne' => by
            have hnot : (Delivery.under th k pt).point w th' = (none : Option (Call W Th)) :=
              if_neg hne'
            simp only [Phase.deliver, Phase.point, hother th' hne', hnot])
          (fun _ => rfl) (by simp [hjoin]) hholds }

/-- One callback is in progress. -/
theorem Fits.delivering (h : Fits s p) {k : Notifier} {pt : CallbackPoint}
    (hcall : s.call th = .onStopRequested k w pt) : s.mCallbacksInProgress = 1 := by
  rw [h.callbacks]
  cases h.agrees.pinned hcall rfl <;> rfl

/-- The three points at which onStopRequested is delivered. -/
theorem Fits.stopBegin (h : Fits s p) {k : Notifier}
    (hcall : s.call th = .onStopRequested k w .enter) :
    ∃ p', Fits ((s.emit (.stopBegin w)).goto th (.onStopRequested k w .inside)) p' :=
  ⟨_, h.deliver (.under th k .inside) (s.log ++ [.stopBegin w]) hcall nofun
    (h.delivering hcall) (Or.inl (if_pos rfl)) (fun _ hne => if_neg hne)
    (fun run hlog => Protocol.read_emit hlog (by cases run <;> exact if_pos rfl)) rfl
    (by rw [hcall, ← k.back_holds w .inside, ← k.back_holds w .enter])⟩

theorem Fits.stopEnd (h : Fits s p) {k : Notifier}
    (hcall : s.call th = .onStopRequested k w .inside) :
    ∃ p', Fits ((s.emit (.stopEnd w)).goto th (.onStopRequested k w .leave)) p' :=
  ⟨_, h.deliver (.under th k .leave) (s.log ++ [.stopEnd w]) hcall nofun
    (h.delivering hcall) (Or.inl (if_pos rfl)) (fun _ hne => if_neg hne)
    (fun run hlog => Protocol.read_emit hlog (by cases run <;> exact if_pos rfl)) rfl
    (by rw [hcall, ← k.back_holds w .leave, ← k.back_holds w .inside])⟩

/-- onStopRequested has returned, and its thread goes back. -/
theorem Fits.delivered (h : Fits s p) {k : Notifier}
    (hcall : s.call th = .onStopRequested k w .leave) :
    ∃ p', Fits ({ s with
      mCallbacksInProgress := s.mCallbacksInProgress - 1 }.broadcastState.goto th k.back) p' := by
  have hwoken := h.waits s.mStateLock (fun _ => false) s.mSleepCv s.mStopRequested
    s.mWakeupRequested
  rw [h.delivering hcall]
  exact ⟨_, hwoken.deliver .done s.log hcall nofun rfl (Or.inr ⟨rfl, k.back_free⟩)
    (fun _ _ => rfl) (fun _ hlog => hlog) k.back_joins
    (by rw [k.back_holds w .leave, ← hcall])⟩

end Stop

end CWrapper.WorkerThread
