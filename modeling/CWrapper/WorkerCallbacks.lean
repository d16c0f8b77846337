import CWrapper.WorkerWakeups
import Mathlib.Data.Set.Card

/-!
The callbacks of IWorker come in the order of the protocol, and mCallbacksInProgress counts the
threads that deliver onStopRequested.
-/
namespace CWrapper.WorkerThread

open Transition

variable {W Th : Type}

/-- From the section that counts the callback to the one that ends the count. -/
def Call.inStopCallback : Call W Th → Bool
  | .onStopRequested .. => true
  | _ => false

def Call.resets (state : ThreadState) : Call W Th → Bool
  | .start _ .claim => state = .idle
  | .start _ (.prepare (.reset _)) | .joinLocked _ .reset => true
  | _ => false

variable [DecidableEq W] [DecidableEq Th] {s : State W Th} {p : Phase W Th} {th : Th}

/-- The two invariants of the object are proved together, as a step needs both of the state before
it. -/
theorem fits_and_waits {ok : State W Th → Action W Th → Prop}
    (hs : (machine W Th).Reachable ok s) : (∃ p, Fits s p) ∧ Waits s := by
  refine Machine.Invariant.always (I := fun s => (∃ p, Fits s p) ∧ Waits s) ⟨?_, ?_⟩ hs
  · rintro _ rfl
    exact ⟨⟨.idle, fits_start⟩, nofun, nofun, nofun⟩
  · rintro s a s' - - hstep ⟨⟨p, hfits⟩, hwaits⟩
    have hmoves : Moves s a s' := step_moves hstep
    exact ⟨hfits.step hmoves fun th hth => (hwaits.sleep th hth).1, hwaits.step hfits hmoves⟩

/-- A thread that delivers onStopRequested is the one of the phase. -/
theorem Fits.delivers (h : Fits s p) (th : Th) (hth : (s.call th).inStopCallback = true) :
    s.mCallbacksInProgress = 1 ∧ ∀ th', (s.call th').inStopCallback = true → th' = th := by
  have hpinned {th : Th} (hth : (s.call th).inStopCallback = true) : Pinned p th (s.call th) := by
    refine h.agrees.pinned rfl ?_
    cases hcall : s.call th <;> simp [hcall, Call.inStopCallback] at hth
    rfl
  have hself := hpinned hth
  rw [h.callbacks]
  cases hcall : s.call th <;> simp [hcall, Call.inStopCallback] at hth
  rw [hcall] at hself
  cases hself with
  | live w t r n k pt =>
    refine ⟨rfl, fun th' hth' => ?_⟩
    have hother := hpinned hth'
    generalize s.call th' = c at hother
    cases hother
    rfl
  | joinedUnder w h' op n k pt hne =>
    refine ⟨rfl, fun th' hth' => ?_⟩
    have hother := hpinned hth'
    generalize s.call th' = c at hother hth'
    cases hother
    · cases hth'
    · rfl

/-- mCallbacksInProgress is the number of the threads in onStopRequested. -/
theorem Fits.callbacks_eq (h : Fits s p) : (s.mCallbacksInProgress : ℕ∞) =
    {th | (s.call th).inStopCallback = true}.encard := by
  by_cases hany : ∃ th, (s.call th).inStopCallback = true
  · obtain ⟨th, hth⟩ := hany
    obtain ⟨hone, hunique⟩ := h.delivers th hth
    have hset : {th | (s.call th).inStopCallback = true} = {th} :=
      Set.ext fun th' => ⟨hunique th', fun heq => by rw [heq]; exact hth⟩
    rw [hset, Set.encard_singleton, hone]
    rfl
  · have hset : {th | (s.call th).inStopCallback = true} = ∅ :=
      Set.eq_empty_of_forall_notMem fun th hth => hany ⟨th, hth⟩
    have hnone {w : W} {stop : Delivery Th}
        (hpoint : ∀ n k pt, stop = .under n k pt → p.point n = some (.onStopRequested k w pt)) :
        stop.callbacks = 0 := by
      cases stop with
      | none | done => rfl
      | under n k pt =>
        have hallows := h.agrees.allows n
        rw [Phase.Allows, hpoint n k pt rfl] at hallows
        exact absurd ⟨n, by rw [hallows]; rfl⟩ hany
    have hzero : p.callbacks = 0 := by
      cases p with
      | live w t r stop =>
        refine hnone (w := w) fun n k pt hstop => ?_
        rw [hstop]
        exact if_pos rfl
      | joined w h' op stop =>
        refine hnone (w := w) fun n k pt hstop => ?_
        have hne : n ≠ h' := fun heq => h.handshake k pt (heq ▸ hstop)
        rw [hstop]
        simp [Phase.point, Delivery.point, hne]
      | idle | preparing | opening | failed | cleaning | closing => rfl
    rw [hset, Set.encard_empty, h.callbacks, hzero]
    rfl

/-- A section that stores 0 to mCallbacksInProgress finds 0 there. -/
theorem Fits.resets (h : Fits s p) (hth : (s.call th).resets s.mState = true) :
    s.mCallbacksInProgress = 0 := by
  rw [h.callbacks]
  cases hcall : s.call th with
  | start w pt =>
    cases pt with
    | claim =>
      have hidle : s.mState = .idle := by simpa [hcall, Call.resets] using hth
      rw [h.idle hidle th (by rw [hcall]; rfl) (by rw [hcall]; rfl)]
      rfl
    | prepare pt =>
      obtain rfl := h.preparing hcall
      rfl
    | handshake createdId | cleanup inside =>
      rw [hcall] at hth
      cases hth
  | joinLocked op pt =>
    cases pt with
    | reset =>
      cases h.agrees.pinned hcall rfl
      rfl
    | read | pthreadJoin threadId | await | cleanup w inside =>
      rw [hcall] at hth
      cases hth
  | none | isCurrentThread | lockLifecycle | load | requestStop | onStopRequested | unlock
  | msleep =>
    rw [hcall] at hth
    cases hth

/-- When nobody is in a function and the state is Idle, the last session is over. -/
theorem Fits.closed (h : Fits s p) (hidle : s.mState = .idle)
    (hout : ∀ th, s.call th = .none) : Protocol.read s.log = some .closed := by
  rw [h.state] at hidle
  cases p with
  | idle => exact h.log
  | failed w h' inside =>
    have hallows := h.agrees.allows h'
    simp [Phase.Allows, Phase.point, hout] at hallows
  | live w t r stop => cases r <;> cases stop <;> cases hidle
  | preparing | opening | joined | cleaning | closing => cases hidle

section Protocol

variable {s : State W Th}

/-- The events of all sessions come in the order of the protocol, a session is complete when it
is over, and mCallbacksInProgress is never decremented at 0 and never reset while it counts. -/
theorem callback_protocol (hs : (machine W Th).Reachable Machine.anyStep s) :
    (∃ stage, Protocol.read s.log = some stage) ∧
      (s.mState = .idle → (∀ th, s.call th = .none) → Protocol.read s.log = some .closed) ∧
      (s.mCallbacksInProgress : ℕ∞) = {th | (s.call th).inStopCallback = true}.encard ∧
      (∀ th k w, s.call th = .onStopRequested k w .leave → 0 < s.mCallbacksInProgress) ∧
      ∀ th, (s.call th).resets s.mState = true → s.mCallbacksInProgress = 0 := by
  obtain ⟨⟨p, hfits⟩, -⟩ := fits_and_waits hs
  refine ⟨⟨_, hfits.log⟩, hfits.closed, hfits.callbacks_eq, fun th k w hcall => ?_,
    fun th hth => hfits.resets hth⟩
  rw [(hfits.delivers th (by rw [hcall]; rfl)).1]
  exact Nat.one_pos

/-- A section of a thread, from getting the lock to its end. -/
def inLock (th : Bool) : List (Action Bool Bool) := [.lock th, .resume th .yes]

def claimed : List (Action Bool Bool) :=
  [.call false (.start true), .resume false .yes, .resume false .yes] ++ inLock false

/-- start() creates the thread `true` and runs to its end. -/
def started : List (Action Bool Bool) :=
  claimed ++ [.resume false .yes, .resume false .yes, .resume false .yes,
    .resume false (.thread true)] ++ inLock false ++ inLock true ++ inLock false ++
    [.resume false .yes]

/-- requestStop() stops the session, and onStopRequested has returned. -/
def stopped : List (Action Bool Bool) :=
  started ++ [.call false .requestStop] ++ inLock false ++ [.resume false .yes, .resume false .yes]

theorem callback_protocol_stopped : ∃ s : State Bool Bool,
    s.log = [.starting true, .prepareBegin true, .prepareEnd true true, .created true, .stopping,
      .stopBegin true, .stopEnd true] ∧
    (∃ stage, Protocol.read s.log = some stage) ∧ 0 < s.mCallbacksInProgress := by
  have hs : (machine Bool Bool).Reachable Machine.anyStep
      ((machine Bool Bool).after Machine.anyStep start stopped) :=
    Machine.reachable_after rfl (by decide +kernel)
  have hprotocol := callback_protocol hs
  refine ⟨_, by decide +kernel, hprotocol.1, hprotocol.2.2.2.1 false (.requestStop .user) true ?_⟩
  rfl

/-- When pthread_attr_init() fails, a session that has reached Starting ends without onPrepare. -/
theorem session_without_prepare : ∃ s : State Bool Bool,
    (machine Bool Bool).Reachable Machine.anyStep s ∧ s.mState = .idle ∧
      (∀ th, s.call th = .none) ∧ s.log = [.starting true, .attrInitFailed] := by
  have hs : (machine Bool Bool).Reachable Machine.anyStep
      ((machine Bool Bool).after Machine.anyStep start
        (claimed ++ [.resume false .no] ++ inLock false ++ [.resume false .yes])) :=
    Machine.reachable_after rfl (by decide +kernel)
  exact ⟨_, hs, by decide +kernel, fun th => isNone_iff.mp (by revert th; decide +kernel),
    by decide +kernel⟩

end Protocol

end CWrapper.WorkerThread
