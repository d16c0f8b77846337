import CWrapper.WorkerPhases

/-!
The rest of the steps: joinLocked() ends the session, the worker thread goes through taskEntry, and
the other points leave the phase as it is. In every reachable state the object is in a phase.
-/
namespace CWrapper.WorkerThread

open Transition

variable {W Th : Type} [DecidableEq W] [DecidableEq Th]
variable {s s' : State W Th} {p p' : Phase W Th} {th : Th} {c : Call W Th} {w : W}
  {answer : Answer Th}

section Join

variable {op : Operation W}

/-- joinLocked may return in any phase. -/
theorem Fits.joinBack (h : Fits s p) {pt : JoinPoint W Th} (hcall : s.call th = .joinLocked op pt)
    (hfree : (s.call th).isFree = true) : Fits (s.goto th op.back) p :=
  h.goto hfree op.back_free op.back_joins (by rw [op.back_holds, hcall]; rfl)

/-- The identity that joinLocked reads is that of the live session. -/
theorem Fits.joinRead (h : Fits s p) (hcall : s.call th = .joinLocked op .read)
    (hstate : s.mState ≠ .idle) : Fits (s.goto th (.joinLocked op (.pthreadJoin s.mId))) p := by
  obtain rfl | ⟨w, t, r, stop, rfl⟩ :=
    h.idle_or_live th (by rw [hcall]; rfl) (by rw [hcall]; rfl)
  · exact absurd h.state hstate
  · refine ⟨h.state, h.worker, h.callbacks, h.handshake, h.task, h.log, ?_⟩
    refine h.agrees.goto (by rw [hcall]; rfl) rfl (fun id hid => ?_) (by rw [hcall]; rfl)
    obtain rfl := Option.some.inj hid
    exact congrArg some h.handshake.2.1.symm

/-- pthread_join has returned: the session has no thread. -/
theorem Fits.pthreadJoin {id : Th} (h : Fits s p)
    (hcall : s.call th = .joinLocked op (.pthreadJoin (some id))) (hexited : s.task id = .exited) :
    ∃ p', Fits ((s.gotoTask id .none).goto th (.joinLocked op .await)) p' := by
  obtain rfl | ⟨w, t, r, stop, rfl⟩ :=
    h.idle_or_live th (by rw [hcall]; rfl) (by rw [hcall]; rfl)
  · have hid := h.agrees.joining th (some id) (by rw [hcall]; rfl)
    cases hid
  · have hid := h.agrees.joining th (some id) (by rw [hcall]; rfl)
    obtain rfl : id = t := (Option.some.inj (Option.some.inj hid)).symm
    obtain rfl : r = .exited := by
      rw [h.task] at hexited
      simpa [Phase.task] using hexited
    refine ⟨.joined w th op stop, ?_⟩
    exact
      { state := h.state
        worker := h.worker
        callbacks := h.callbacks
        handshake := by
          rintro k pt rfl
          have hallows := h.agrees.allows th
          simp [Phase.Allows, Phase.point, Delivery.point, hcall] at hallows
        task := by
          show Function.update s.task id .none = _
          rw [h.task]
          simp only [Phase.task, Function.update_idem]
          exact Function.update_eq_self id _
        log := h.log
        agrees := h.agrees.move (by simp [Phase.Allows, Phase.point])
          (fun th' hne => if_neg hne)
          (fun hfalse => by
            rw [hcall] at hfalse
            cases hfalse)
          (fun _ hid => by cases hid) (by rw [hcall]; rfl) }

/-- Nobody is in onStopRequested any more, and the worker is taken. -/
theorem Fits.take (h : Fits s p) (hcall : s.call th = .joinLocked op .await)
    (hzero : s.mCallbacksInProgress = 0) (hworker : s.mWorker = some w) :
    ∃ p', Fits ({ s with mWorker := none }.goto th (.joinLocked op (.cleanup w false))) p' := by
  cases h.agrees.pinned hcall rfl with
  | joined w' h' op stop =>
  obtain rfl : w' = w := Option.some.inj (h.worker.symm.trans hworker)
  have hstop : stop = .none ∨ stop = .done := by
    rw [h.callbacks] at hzero
    cases stop with
    | none => exact Or.inl rfl
    | under n k pt => cases hzero
    | done => exact Or.inr rfl
  refine ⟨.cleaning w' th op stop.stage, ?_⟩
  exact
    { state := h.state
      worker := rfl
      callbacks := hzero
      handshake := hstop.imp (fun h => by rw [h]; rfl) (fun h => by rw [h]; rfl)
      task := h.task
      log := h.log
      agrees := h.agrees.move (by simp [Phase.Allows, Phase.point])
        (fun th' hne => by
          obtain rfl | rfl := hstop <;> simp [Phase.point, hne, Delivery.point])
        (fun _ => rfl) (fun _ hid => by cases hid) (by rw [hcall]; rfl) }

/-- The thread that joins finds the worker. -/
theorem Fits.await_worker (h : Fits s p) (hcall : s.call th = .joinLocked op .await) :
    s.mWorker ≠ none := by
  cases h.agrees.pinned hcall rfl with
  | joined w h' op stop =>
  rw [h.worker]
  nofun

/-- It stays where it is until the callback has returned. -/
theorem Fits.joinBlock (h : Fits s p) (hcall : s.call th = .joinLocked op .await) :
    Fits ((s.waitState th).goto th (.joinLocked op .await)) p := by
  have hstay : s.call = Function.update s.call th (.joinLocked op .await) := by
    rw [← hcall, Function.update_eq_self]
  refine ⟨h.state, h.worker, h.callbacks, h.handshake, h.task, h.log, ?_⟩
  have hagrees := h.agrees
  rw [hstay] at hagrees
  exact hagrees

theorem Fits.cleanupBegin (h : Fits s p)
    (hcall : s.call th = .joinLocked op (.cleanup w false)) :
    Fits ((s.emit (.cleanupBegin w)).goto th (.joinLocked op (.cleanup w true)))
      (.closing w th op true) := by
  cases h.agrees.pinned hcall rfl with
  | cleaning w h' op stop =>
  have hnext : Protocol.next (.live w .returned stop : Protocol.Stage W Th) (.cleanupBegin w) =
      some (.cleaning w) := by
    obtain rfl | rfl := h.handshake <;> exact if_pos rfl
  exact
    { state := h.state
      worker := h.worker
      callbacks := h.callbacks
      handshake := trivial
      task := h.task
      log := Protocol.read_emit h.log hnext
      agrees := h.agrees.move (by simp [Phase.Allows, Phase.point])
        (fun th' hne => by simp [Phase.point, hne]) (fun _ => rfl) (fun _ hid => by cases hid)
        (by rw [hcall]; rfl) }

theorem Fits.cleanupEnd (h : Fits s p)
    (hcall : s.call th = .joinLocked op (.cleanup w true)) :
    Fits ((s.emit (.cleanupEnd w)).goto th (.joinLocked op .reset)) (.closing w th op false) := by
  cases h.agrees.pinned hcall rfl with
  | inside w h' op =>
  exact
    { state := h.state
      worker := h.worker
      callbacks := h.callbacks
      handshake := trivial
      task := h.task
      log := Protocol.read_emit h.log (if_pos rfl)
      agrees := h.agrees.move (by simp [Phase.Allows, Phase.point])
        (fun th' hne => by simp [Phase.point, hne]) (fun _ => rfl) (fun _ hid => by cases hid)
        (by rw [hcall]; rfl) }

theorem Fits.joinReset (h : Fits s p) (hcall : s.call th = .joinLocked op .reset) :
    Fits (s.resetStateLocked.broadcastState.broadcastSleep.goto th op.back) .idle := by
  cases h.agrees.pinned hcall rfl with
  | reset w h' op =>
  exact
    { state := rfl
      worker := rfl
      callbacks := rfl
      handshake := trivial
      task := h.task
      log := h.log
      agrees := h.agrees.move (allows_free rfl op.back_free)
        (fun th' hne => by simp [Phase.point, hne]) (fun _ => rfl) (by simp [op.back_joins])
        (by rw [op.back_holds, hcall]; rfl) }

end Join

section Points

theorem Fits.lockLifecycle (h : Fits s p) (hfree : s.mLifecycleLock = none)
    (hcall : (s.call th).isFree = true) (hc : c.isFree = true) (hjoin : c.joins = none)
    (hholds : c.holds = true) : Fits ({ s with mLifecycleLock := some th }.goto th c) p := by
  refine ⟨h.state, h.worker, h.callbacks, h.handshake, h.task, h.log, ?_⟩
  have hagrees := h.agrees
  rw [hfree] at hagrees
  exact hagrees.acquire hcall hc hjoin hholds

theorem Fits.unlock (h : Fits s p) (hcall : s.call th = .unlock) :
    Fits ({ s with mLifecycleLock := none }.goto th .none) p := by
  refine ⟨h.state, h.worker, h.callbacks, h.handshake, h.task, h.log, ?_⟩
  have hagrees := h.agrees
  rw [(hagrees.lifecycle th).mp (by rw [hcall]; rfl)] at hagrees
  exact hagrees.release (by rw [hcall]; rfl) rfl rfl rfl

/-- A thread that only goes to another point leaves the phase as it is, but for the one that
prepares a session. -/
theorem Fits.leads {c₀ : Call W Th} (h : Fits s p) (hcall : s.call th = c₀)
    (hleads : Leads s th answer c₀ c) : ∃ p', Fits (s.goto th c) p' := by
  cases hleads with
  | isCurrentThread op =>
    have hholds : (s.call th).holds = false := by rw [hcall]; rfl
    refine ⟨p, h.goto (by rw [hcall]; rfl) ?_ ?_ ?_⟩
    · cases op <;> cases s.isCurrentThread th <;> rfl
    · cases op <;> cases s.isCurrentThread th <;> rfl
    · rw [hholds]
      cases op <;> cases s.isCurrentThread th <;> rfl
  | load op =>
    have hholds : (s.call th).holds = true := by rw [hcall]; rfl
    refine ⟨p, h.goto (by rw [hcall]; rfl) ?_ ?_ ?_⟩
    · cases op <;> cases s.mState <;> rfl
    · cases op <;> cases s.mState <;> rfl
    · rw [hholds]
      cases op <;> cases s.mState <;> rfl
  | claim w _ => exact ⟨p, h.goto (by rw [hcall]; rfl) rfl rfl (by rw [hcall]; rfl)⟩
  | attrInit w _ =>
    obtain rfl := h.preparing hcall
    exact ⟨_, h.prepare hcall h.log⟩
  | request k _ => exact ⟨p, h.requestBack hcall⟩
  | readNone op _ | joinFails op threadId _ =>
    exact ⟨p, h.joinBack hcall (by rw [hcall]; rfl)⟩
  | read op hidle _ => exact ⟨p, h.joinRead hcall hidle⟩
  | noWorker op _ hnone => exact absurd hnone (h.await_worker hcall)
  | msleep _ => exact ⟨p, h.goto (by rw [hcall]; rfl) rfl rfl (by rw [hcall]; rfl)⟩

theorem Fits.logs {c₀ : Call W Th} {e : Event W Th} (h : Fits s p) (hcall : s.call th = c₀)
    (hlogs : Logs answer c₀ e c) : ∃ p', Fits ((s.emit e).goto th c) p' := by
  cases hlogs with
  | attrInitFailed w _ | createFailed w _ =>
    obtain rfl := h.preparing hcall
    exact ⟨_, h.prepare hcall (Protocol.read_emit h.log rfl)⟩
  | prepareBegin w | prepared w _ | prepareFailed w _ =>
    obtain rfl := h.preparing hcall
    exact ⟨_, h.prepare hcall (Protocol.read_emit h.log (if_pos rfl))⟩
  | failedBegin w => exact ⟨_, h.failedBegin hcall⟩
  | failedEnd w => exact ⟨_, h.failedEnd hcall⟩
  | stopBegin k w => exact h.stopBegin hcall
  | stopEnd k w => exact h.stopEnd hcall
  | cleanupBegin op w => exact ⟨_, h.cleanupBegin hcall⟩
  | cleanupEnd op w => exact ⟨_, h.cleanupEnd hcall⟩

theorem Fits.reset {c₀ : Call W Th} (h : Fits s p) (hcall : s.call th = c₀)
    (hresets : Resets c₀ c) :
    ∃ p', Fits (s.resetStateLocked.broadcastState.broadcastSleep.goto th c) p' := by
  cases hresets with
  | failed w =>
    obtain rfl := h.preparing hcall
    exact ⟨_, h.failed hcall⟩
  | refused w =>
    obtain rfl := h.preparing hcall
    exact ⟨_, h.refused hcall⟩
  | join op => exact ⟨_, h.joinReset hcall⟩

end Points

section Task

variable {t : Task W}

/-- The phases in which a thread is in taskEntry. -/
theorem Fits.inTask (h : Fits s p) (ht : s.task th = t) (hne : t ≠ .none) :
    (∃ w h' stored, p = .opening w h' th stored t) ∨ ∃ w stop, p = .live w th t stop := by
  rw [h.task] at ht
  cases p with
  | opening w h' t' stored r =>
    by_cases heq : th = t'
    · subst heq
      obtain rfl : r = t := by simpa [Phase.task] using ht
      exact Or.inl ⟨w, h', stored, rfl⟩
    · exact absurd (by simpa [Phase.task, Function.update_of_ne heq] using ht.symm) hne
  | live w t' r stop =>
    by_cases heq : th = t'
    · subst heq
      obtain rfl : r = t := by simpa [Phase.task] using ht
      exact Or.inr ⟨w, stop, rfl⟩
    · exact absurd (by simpa [Phase.task, Function.update_of_ne heq] using ht.symm) hne
  | idle | preparing | failed | joined | cleaning | closing => exact absurd ht.symm hne

/-- The worker thread of a live session goes on. -/
theorem Fits.liveTask {stop : Delivery Th} {r : Task W} {mState : ThreadState}
    {log : List (Event W Th)} (h : Fits s (.live w th t stop))
    (hstate : mState = (Phase.live w th r stop : Phase W Th).state)
    (hr : r = .await ∨ r = .released (some w) ∨ r = .run w ∨ r = .exit ∨ r = .exited)
    (hlog : Protocol.read log = some (.live w (r.stage th) stop.stage)) :
    Fits ({ s with mState := mState, log := log }.gotoTask th r) (.live w th r stop) where
  state := hstate
  worker := h.worker
  callbacks := h.callbacks
  handshake := ⟨h.handshake.1, h.handshake.2.1, hr⟩
  task := by
    show Function.update s.task th r = _
    rw [h.task]
    exact Function.update_idem ..
  log := hlog
  agrees := h.agrees.phase rfl rfl

/-- The new thread looks at mStartReleased, and goes on or waits. -/
theorem Fits.awaitRelease (h : Fits s p) (ht : s.task th = .await) :
    ∃ p', Fits (awaitRelease s th) p' := by
  obtain ⟨w, h', stored, rfl⟩ | ⟨w, stop, rfl⟩ := h.inTask ht nofun
  · rw [WorkerThread.awaitRelease, if_neg (by simp [h.handshake.1])]
    refine ⟨.opening w h' th stored .await, ?_⟩
    exact
      { state := h.state
        worker := h.worker
        callbacks := h.callbacks
        handshake := h.handshake
        task := by
          show Function.update s.task th .await = _
          rw [h.task]
          exact Function.update_idem ..
        log := h.log
        agrees := h.agrees }
  · have hworker : s.mWorker = some w := h.worker
    rw [WorkerThread.awaitRelease, if_pos h.handshake.1, hworker]
    exact ⟨_, h.liveTask (h.state.trans (Phase.live_state nofun nofun)) (Or.inr (Or.inl rfl))
      h.log⟩

theorem Fits.taskEntry (h : Fits s p) (ht : s.task th = .entry) :
    ∃ p', Fits (WorkerThread.awaitRelease
      { s with mThreadReady := true }.broadcastState th) p' := by
  obtain ⟨w, h', stored, rfl⟩ | ⟨w, stop, rfl⟩ := h.inTask ht nofun
  · have hready : Fits ({ s with mThreadReady := true }.gotoTask th .await)
        (.opening w h' th stored .await) :=
      { state := h.state
        worker := h.worker
        callbacks := h.callbacks
        handshake := ⟨h.handshake.1, h.handshake.2.1, Or.inr ⟨rfl, rfl⟩⟩
        task := by
          show Function.update s.task th .await = _
          rw [h.task]
          exact Function.update_idem ..
        log := h.log
        agrees := h.agrees.phase rfl rfl }
    have hfalse : s.mStartReleased = false := h.handshake.1
    rw [WorkerThread.awaitRelease, if_neg (by simp [State.broadcastState, hfalse])]
    exact ⟨_, hready.waits _ (Function.update (fun _ => false) th true) _ _ _⟩
  · obtain ⟨-, -, hr | hr | hr | hr | hr⟩ := h.handshake <;> cases hr

/-- The worker thread is past the wait for mStartReleased. -/
theorem Fits.inLive (h : Fits s p) (ht : s.task th = t) (hne : t ≠ .none) (hentry : t ≠ .entry)
    (hawait : t ≠ .await) : ∃ w stop, p = .live w th t stop ∧
      (t = .released (some w) ∨ t = .run w ∨ t = .exit ∨ t = .exited) := by
  obtain ⟨w, h', stored, rfl⟩ | ⟨w, stop, rfl⟩ := h.inTask ht hne
  · obtain ⟨-, -, ⟨hr, -⟩ | ⟨hr, -⟩⟩ := h.handshake
    · exact absurd hr hentry
    · exact absurd hr hawait
  · obtain ⟨-, -, hr | hr⟩ := h.handshake
    · exact absurd hr hawait
    · exact ⟨w, stop, rfl, hr⟩

theorem Fits.run {e : Event W Th} (h : Fits s p) (ht : s.task th = t)
    {t' : Task W} (hlogs : TaskLogs th t e t') : ∃ p', Fits ((s.emit e).gotoTask th t') p' := by
  cases hlogs with
  | runBegin worker =>
    obtain ⟨w, stop, rfl, hr⟩ := h.inLive ht nofun nofun nofun
    obtain rfl : worker = w := by simpa using hr
    have hnext : Protocol.next (.live worker (.created th) stop.stage) (.runBegin th worker) =
        some (.live worker (.inside th) stop.stage) := if_pos ⟨rfl, rfl⟩
    exact ⟨_, h.liveTask (h.state.trans (Phase.live_state nofun nofun))
      (Or.inr (Or.inr (Or.inl rfl))) (Protocol.read_emit h.log hnext)⟩
  | runEnd worker =>
    obtain ⟨w, stop, rfl, hr⟩ := h.inLive ht nofun nofun nofun
    obtain rfl : worker = w := by simpa using hr
    have hnext : Protocol.next (.live worker (.inside th) stop.stage) (.runEnd th worker) =
        some (.live worker .returned stop.stage) := if_pos ⟨rfl, rfl⟩
    exact ⟨_, h.liveTask (h.state.trans (Phase.live_state nofun nofun))
      (Or.inr (Or.inr (Or.inr (Or.inl rfl)))) (Protocol.read_emit h.log hnext)⟩

/-- The worker thread leaves taskEntry, and the phase keeps it as one to be joined. -/
theorem Fits.exit (h : Fits s p) (ht : s.task th = .exit) : ∃ p',
    Fits ({ s with mState := .exited }.broadcastState.broadcastSleep.gotoTask th .exited) p' := by
  obtain ⟨w, stop, rfl, -⟩ := h.inLive ht nofun nofun nofun
  have hended := h.liveTask (r := .exited) rfl (Or.inr (Or.inr (Or.inr (Or.inr rfl)))) h.log
  exact ⟨_, hended.waits _ (fun _ => false) (fun _ => false) _ _⟩

end Task

/-- A step in a call takes the object to the phase after it. -/
theorem Fits.callDoes {c₀ : Call W Th} (h : Fits s p) (hcall : s.call th = c₀)
    (hdoes : CallDoes s th answer c₀ s') : ∃ p', Fits s' p' := by
  cases hdoes with
  | goes hleads => exact h.leads hcall hleads
  | logs hlogs => exact h.logs hcall hlogs
  | resets hresets => exact h.reset hcall hresets
  | acquire op hfree =>
    refine ⟨p, h.lockLifecycle hfree (by rw [hcall]; rfl) ?_ ?_ ?_⟩
    all_goals cases op <;> rfl
  | release => exact ⟨p, h.unlock hcall⟩
  | claim w hidle => exact ⟨_, h.claim hcall hidle⟩
  | create w id _ _ _ =>
    obtain rfl := h.preparing hcall
    exact ⟨_, h.create hcall⟩
  | handshakeBlock w createdId _ =>
    obtain ⟨t, r, stored, hopening, hid⟩ := h.storeId hcall
    exact ⟨_, hopening.handshakeWait hid hcall⟩
  | handshakeRun w createdId hready _ =>
    obtain ⟨t, r, stored, hopening, hid⟩ := h.storeId hcall
    have hwoken := hopening.waits s.mStateLock (fun _ => false) s.mSleepCv s.mStopRequested
      s.mWakeupRequested
    exact ⟨_, (hwoken.release hid hcall hready).1⟩
  | handshakeStop w createdId hready _ =>
    obtain ⟨t, r, stored, hopening, hid⟩ := h.storeId hcall
    have hwoken := hopening.waits s.mStateLock (fun _ => false) (fun _ => false)
      s.mStopRequested true
    exact ⟨_, (hwoken.release hid hcall hready).2⟩
  | request k _ =>
    have hwoken := h.waits s.mStateLock (fun _ => false) (fun _ => false) true true
    exact ⟨p, hwoken.requestBack hcall⟩
  | stop k hrunning =>
    have hwoken := h.waits s.mStateLock (fun _ => false) (fun _ => false) true true
    rw [h.state] at hrunning
    obtain ⟨w, t, r, rfl, hr⟩ := Phase.live_of_running hrunning
    exact ⟨_, hwoken.stopRunning hr hcall⟩
  | delivered k w => exact h.delivered hcall
  | join op id _ hexited => exact h.pthreadJoin hcall hexited
  | joinBlock op _ => exact ⟨p, h.joinBlock hcall⟩
  | take op w hzero hworker => exact h.take hcall hzero hworker
  | sleepBlock pt _ _ =>
    have hmoved : Fits (s.goto th (.msleep .wait)) p :=
      h.goto (by rw [hcall]; rfl) rfl rfl (by rw [hcall]; rfl)
    exact ⟨p, hmoved.waits _ _ (Function.update s.mSleepCv th true) _ _⟩
  | sleepEnd pt _ =>
    have hmoved : Fits (s.goto th .none) p :=
      h.goto (by rw [hcall]; rfl) rfl rfl (by rw [hcall]; rfl)
    exact ⟨p, hmoved.waits _ _ _ _ false⟩

/-- A step in taskEntry takes the object to the phase after it. -/
theorem Fits.taskDoes {t : Task W} (h : Fits s p) (ht : s.task th = t)
    (hdoes : TaskDoes s th t s') : ∃ p', Fits s' p' := by
  cases hdoes with
  | entry => exact h.taskEntry ht
  | await => exact h.awaitRelease ht
  | skip =>
    obtain ⟨w, stop, rfl, hr⟩ := h.inLive ht nofun nofun nofun
    simp at hr
  | run hlogs => exact h.run ht hlogs
  | exit => exact h.exit ht

theorem Fits.does (h : Fits s p) (hdoes : Does s th answer s') : ∃ p', Fits s' p' := by
  cases hdoes with
  | call hcall hdoes => exact h.callDoes hcall hdoes
  | task _ ht hdoes => exact h.taskDoes ht hdoes

/-- After the construction no session is in progress. -/
theorem fits_start : Fits (start : State W Th) .idle where
  state := rfl
  worker := rfl
  callbacks := rfl
  handshake := trivial
  task := rfl
  log := rfl
  agrees :=
    { allows := fun _ => rfl
      joining := fun _ _ h => by cases h
      lifecycle := fun _ => ⟨nofun, nofun⟩ }

/-- Every step leaves the object in a phase. -/
theorem Fits.step (h : Fits s p) {a : Action W Th} (hmoves : Moves s a s')
    (hsleep : ∀ th, s.mSleepCv th = true → s.call th = .msleep .wait) : ∃ p', Fits s' p' := by
  cases hmoves with
  | @call th e hcall _ =>
    refine ⟨p, h.goto (by rw [hcall]; rfl) ?_ ?_ ?_⟩
    · cases e <;> rfl
    · cases e <;> rfl
    · rw [hcall]
      cases e <;> rfl
  | @lock th _ _ _ => exact ⟨p, h.waits (some th) _ _ _ _⟩
  | inside _ _ hdoes =>
    exact (h.waits none s.mStateCv s.mSleepCv s.mStopRequested s.mWakeupRequested).does hdoes
  | outside _ hdoes => exact h.does hdoes
  | @wakeup th =>
    exact ⟨p, h.waits _ (Function.update s.mStateCv th false)
      (Function.update s.mSleepCv th false) _ _⟩
  | @expire th hasleep =>
    have hcall := hsleep th hasleep
    have hexpired : Fits (s.goto th (.msleep .expired)) p :=
      h.goto (by rw [hcall]; rfl) rfl rfl (by rw [hcall]; rfl)
    exact ⟨p, hexpired.waits _ _ (Function.update s.mSleepCv th false) _ _⟩

end CWrapper.WorkerThread
