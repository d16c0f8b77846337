import CWrapper.Timer

/-!
The life of one timer, seen from the two parties that can move it: the loop thread while
it holds the pointer, and the control call that is in progress. The list is only present
as membership, and the other timers not at all. The section that is open under mTimerLock
appears as a guard: no call enters it while the loop thread is inside, and conversely.
Every step keeps the state word, the membership and both program points consistent.
-/
namespace CWrapper.TimerLife

open Timer (Object Call Control Exec History State)

structure Life where
  now : ℕ
  o : Object
  history : History
  listed : Prop
  exec : Option Exec
  control : Option Control

/-- Who moves, and for a call that begins, which one. -/
inductive Actor
  | control
  | loop
  | begins (k : Call)
  | environment

/-- The loop thread is inside a section of mTimerLock for this timer. -/
def locked : Option Exec → Prop
  | some .exchange | some .clearRequest | some (.popFront _) | some (.requeueScan _) => True
  | _ => False

def scanning : Option Control → Prop
  | some (.addScan _) => True
  | _ => False

/-- broadcast on mStateChanged, for the call that may be blocked on it. -/
def wake : Control → Control
  | .blocked k => .relock k
  | c => c

/-- Steps of a call that leave the object and the list alone. -/
inductive Advance : Control → Control → Prop
  | removeWake (k : Call) : Advance (.removeWake k) (.broadcast k)
  | broadcast (k : Call) : Advance (.broadcast k) (Timer.afterStop k)
  | lockWait (k : Call) : Advance (.lockWait k) (.test k)
  | block (k : Call) : Advance (.block k) (.blocked k)
  | spurious (k : Call) : Advance (.blocked k) (.relock k)
  | relock (k : Call) : Advance (.relock k) (.test k)
  | addScan (i : ℕ) : Advance (.addScan i) (.addScan (i + 1))
  | addWake : Advance .addWake .returnStart

/-- The same for the loop thread. -/
inductive ExecAdvance : Exec → Exec → Prop
  | requeueScan (i : ℕ) : ExecAdvance (.requeueScan i) (.requeueScan (i + 1))
  | requeueWake : ExecAdvance .requeueWake .requeueTestAgain
  | requeueRemoveWake : ExecAdvance .requeueRemoveWake .storeStopped

inductive LastBroadcast : Exec → Prop
  | stopped : LastBroadcast .broadcastStopped
  | requeue : LastBroadcast .requeueBroadcast
  | queued : LastBroadcast .broadcastQueued

inductive LifeStep : Actor → Life → Life → Prop
  | idle (a : Actor) (v : Life) : LifeStep a v v
  | tick {v : Life} (d : ℕ) (hd : v.now + d ≤ Timer.MaxTick) :
      LifeStep .environment v { v with now := v.now + d }
  | config {v : Life} (o' : Object) (hstate : o'.mState = v.o.mState)
      (hstop : o'.mStopRequested = v.o.mStopRequested) (hexpiry : o'.mExpiry = v.o.mExpiry) :
      LifeStep .environment v { v with o := o' }
  | begins {v : Life} (k : Call) (hc : v.control = none) :
      LifeStep (.begins k) v { v with control := some (.load k) }
  | object {v : Life} {c c' : Control} {o' : Object} {again : Bool}
      (hc : v.control = some c) (hstep : Timer.controlStep v.o v.now again c = some (o', c')) :
      LifeStep .control v
        { v with o := o', control := some c', history := v.history.control v.now c }
  | advance {v : Life} {c c' : Control} (hc : v.control = some c) (hstep : Advance c c') :
      LifeStep .control v { v with control := some c' }
  | test {v : Life} {k : Call} (hc : v.control = some (.test k)) :
      LifeStep .control v
        { v with control := some (if Timer.released v.o.mState then .load k else .block k) }
  | remove {v : Life} {k : Call} (hc : v.control = some (.remove k)) (hfree : ¬ locked v.exec) :
      LifeStep .control v { v with listed := False, control := some (.removeWake k) }
  | addFound {v : Life} (hc : v.control = some .addLock) (hl : v.listed) :
      LifeStep .control v { v with control := some .addWake }
  | addLock {v : Life} (hc : v.control = some .addLock) (hfree : ¬ locked v.exec) :
      LifeStep .control v { v with control := some (.addScan 0) }
  | insert {v : Life} {i n : ℕ} (hc : v.control = some (.addScan i)) :
      LifeStep .control v { v with
        listed := True, control := some .addWake, history := { v.history with stamp := n } }
  | leave {v : Life} {c : Control} (hc : v.control = some c)
      (hret : c = .returnStop ∨ c = .returnStart) :
      LifeStep .control v { v with control := none }
  | take {v : Life} (he : v.exec = none) (hl : v.listed) (hfree : ¬ scanning v.control)
      (hexp : v.o.mExpiry ≤ v.now) :
      LifeStep .loop v { v with exec := some .exchange }
  | execute {v : Life} {e e' : Exec} {o' : Object} {keep : Bool}
      (he : v.exec = some e) (hstep : Timer.executeStep v.o v.now keep e = some (o', e')) :
      LifeStep .loop v
        { v with o := o', exec := some e', history := v.history.execute v.now e }
  | execAdvance {v : Life} {e e' : Exec} (he : v.exec = some e) (hstep : ExecAdvance e e') :
      LifeStep .loop v { v with exec := some e' }
  | popFront {v : Life} {b : Bool} (he : v.exec = some (.popFront b)) :
      LifeStep .loop v
        { v with listed := False, exec := if b then some .readHandler else none }
  | broadcastPending {v : Life} (he : v.exec = some .broadcastPending) :
      LifeStep .loop v { v with exec := some .requeueLoad, control := v.control.map wake }
  | broadcastLast {v : Life} {e : Exec} (he : v.exec = some e) (hlast : LastBroadcast e) :
      LifeStep .loop v { v with exec := none, control := v.control.map wake }
  | requeueFound {v : Life} (he : v.exec = some .requeueLock) (hl : v.listed) :
      LifeStep .loop v { v with exec := some .requeueWake }
  | requeueLock {v : Life} (he : v.exec = some .requeueLock) (hfree : ¬ scanning v.control) :
      LifeStep .loop v { v with exec := some (.requeueScan 0) }
  | requeueInsert {v : Life} {i n : ℕ} (he : v.exec = some (.requeueScan i)) :
      LifeStep .loop v { v with
        listed := True, exec := some .requeueWake, history := { v.history with stamp := n } }
  | requeueRemove {v : Life} (he : v.exec = some .requeueRemove) (hfree : ¬ scanning v.control) :
      LifeStep .loop v { v with listed := False, exec := some .requeueRemoveWake }

theorem LifeStep.to {a : Actor} {v w v' : Life} (h : LifeStep a v w) (hw : v' = w) :
    LifeStep a v v' := hw ▸ h

theorem LifeStep.of_eq {v v' : Life} (a : Actor) (hv : v' = v) : LifeStep a v v' :=
  (LifeStep.idle a v).to hv

inductive Phase
  | away
  | front
  | refused
  | taken
  | running
  | stopping
  | unlisted
  | relisted
  | never
  deriving DecidableEq

/-- After the last state store the loop thread has only a broadcast left, and the timer
may already begin another life: it is away. -/
def phase : Option Exec → Phase
  | none | some .broadcastStopped | some .broadcastQueued => .away
  | some .exchange => .front
  | some (.popFront false) => .refused
  | some .clearRequest | some (.popFront true) => .taken
  | some .readHandler | some .call | some .callback | some (.readConfig _)
  | some (.testStop ..) | some (.readTick _) | some (.storeExpiry _)
  | some .storePending => .running
  | some .storeStopped => .stopping
  | some .broadcastPending | some .requeueLoad | some .requeueTest | some .requeueLock
  | some (.requeueScan _) | some .requeueRemoveWake => .unlisted
  | some .requeueWake | some .requeueTestAgain | some .requeueRemove
  | some .storeQueued => .relisted
  | some .requeueBroadcast => .never

/-- What a control call may rely on at its program point. -/
inductive Claim
  | nothing
  | exchanged
  | cleared
  | adding
  deriving DecidableEq

def claim : Option Control → Claim
  | some (.requestQueued _) | some (.remove _) => .exchanged
  | some (.removeWake _) | some (.broadcast _) | some (.configure ..) | some .clearRequest
  | some .queue | some .returnDestroy => .cleared
  | some .addLock | some (.addScan _) => .adding
  | _ => .nothing

/-- The state word and the membership that go with a phase and a claim. -/
def Fits (p : Phase) (c : Claim) (st : State) (listed : Prop) : Prop :=
  (match c with
    | .nothing => True
    | .exchanged => st = .stopped
    | .cleared => st = .stopped ∧ ¬ listed
    | .adding => st = .queued ∧ ¬ listed) ∧
  match p with
  | .away => (st = .stopped ∨ st = .queued) ∧ (st = .queued → listed ∨ c = .adding) ∧
      (listed → st = .queued ∨ c = .exchanged)
  | .front => listed ∧ (st = .queued ∨ st = .stopped ∧ c = .exchanged)
  | .refused => listed ∧ st = .stopped ∧ c = .exchanged
  | .taken => listed ∧ st = .executing
  | .running => ¬ listed ∧ st = .executing
  | .stopping => ¬ listed ∧ (st = .executing ∨ st = .requeuePending)
  | .unlisted => ¬ listed ∧ st = .requeuePending
  | .relisted => listed ∧ st = .requeuePending
  | .never => False

def Consistent (v : Life) : Prop :=
  Fits (phase v.exec) (claim v.control) v.o.mState v.listed

section Fits

attribute [grind =] Fits

variable {p : Phase} {c : Claim} {st : State} {listed : Prop}

theorem Fits.relax (h : Fits p c st listed) (hc : c = .nothing ∨ c = .cleared) :
    Fits p .nothing st listed := by
  rcases hc with rfl | rfl <;> cases p <;> grind

theorem Fits.found_stopped (h : Fits p .nothing .stopped listed) :
    Fits p .cleared .stopped listed := by
  cases p <;> grind

theorem Fits.exchanged (h : Fits p .nothing .queued listed) :
    Fits p .exchanged .stopped listed := by
  cases p <;> grind

theorem Fits.removed (h : Fits p .exchanged st listed)
    (hp : p ≠ .front ∧ p ≠ .taken ∧ p ≠ .refused) : Fits p .cleared st False := by
  cases p <;> grind

theorem Fits.queue (h : Fits p .cleared st listed) : Fits p .adding .queued listed := by
  cases p <;> grind

theorem Fits.not_listed (h : Fits p .adding st listed) : ¬ listed := h.1.2

theorem Fits.inserted (h : Fits p .adding st listed) : Fits p .nothing st True := by
  cases p <;> grind

theorem Fits.take (h : Fits .away c st listed) (hl : listed) : Fits .front c st listed := by
  cases c <;> grind

theorem Fits.begin_execute (h : Fits .front c .queued listed) :
    Fits .taken c .executing listed := by
  cases c <;> grind

theorem Fits.refuse (h : Fits .front c st listed) (hst : st ≠ .queued) :
    Fits .refused c st listed := by
  cases c <;> grind

theorem Fits.pop (h : Fits .taken c st listed) : Fits .running c st False := by
  cases c <;> grind

theorem Fits.pop_refused (h : Fits .refused c st listed) : Fits .away c st False := by
  cases c <;> grind

theorem Fits.give_up (h : Fits p c st listed) (hp : p = .running ∨ p = .unlisted) :
    Fits .stopping c st listed := by
  rcases hp with rfl | rfl <;> cases c <;> grind

theorem Fits.stop (h : Fits .stopping c st listed) : Fits .away c .stopped listed := by
  cases c <;> grind

theorem Fits.pend (h : Fits .running c st listed) : Fits .unlisted c .requeuePending listed := by
  cases c <;> grind

theorem Fits.relist (h : Fits .unlisted c st listed) : Fits .relisted c st True := by
  cases c <;> grind

theorem Fits.unlist (h : Fits .relisted c st listed) : Fits .unlisted c st False := by
  cases c <;> grind

theorem Fits.requeue (h : Fits .relisted c st listed) : Fits .away c .queued listed := by
  cases c <;> grind

end Fits

theorem claim_afterStop (k : Call) :
    claim (some (Timer.afterStop k)) = .nothing ∨ claim (some (Timer.afterStop k)) = .cleared := by
  cases k with
  | stop => exact Or.inl rfl
  | start msec rep =>
    simp only [Timer.afterStop]
    split
    · exact Or.inl rfl
    · exact Or.inr rfl
  | destroy => exact Or.inr rfl

theorem claim_wake (c : Option Control) : claim (c.map wake) = claim c := by
  cases c with
  | none => rfl
  | some c => cases c <;> rfl

theorem Fits.after_stop (k : Call) {p : Phase} {listed : Prop}
    (h : Fits p .cleared .stopped listed) :
    Fits p (claim (some (Timer.afterStop k))) .stopped listed := by
  rcases claim_afterStop k with hk | hk <;> rw [hk]
  · exact h.relax (Or.inr rfl)
  · exact h

theorem consistent_object {v : Life} {c c' : Control} {o' : Object} {now : ℕ} {again : Bool}
    (h : Consistent v) (hc : v.control = some c)
    (hstep : Timer.controlStep v.o now again c = some (o', c')) (w : History) :
    Consistent { v with o := o', control := some c', history := w } := by
  unfold Consistent at h ⊢
  rw [hc] at h
  cases c with
  | load k =>
    cases hs : v.o.mState <;> simp only [Timer.controlStep, hs] at hstep <;> cases hstep <;>
      simp only [hs] at h ⊢
    · exact h.found_stopped.after_stop k
    · exact h
    · exact h
    · exact h
  | exchange k =>
    simp only [Timer.controlStep] at hstep
    split at hstep
    · rename_i hq
      cases hstep
      rw [hq.1] at h
      exact h.exchanged
    · cases hstep
      exact h
  | requestQueued k => cases hstep; exact h
  | requestRunning k => cases k <;> cases hstep <;> exact h
  | configure msec rep => cases hstep; exact h
  | clearRequest => cases hstep; exact h
  | queue => cases hstep; exact h.queue
  | _ => simp [Timer.controlStep] at hstep

theorem consistent_execute {v : Life} {e e' : Exec} {o' : Object} {now : ℕ} {keep : Bool}
    (h : Consistent v) (he : v.exec = some e)
    (hstep : Timer.executeStep v.o now keep e = some (o', e')) (w : History) :
    Consistent { v with o := o', exec := some e', history := w } := by
  unfold Consistent at h ⊢
  rw [he] at h
  cases e with
  | exchange =>
    simp only [Timer.executeStep] at hstep
    split at hstep
    · rename_i hq
      cases hstep
      rw [hq] at h
      exact h.begin_execute
    · rename_i hq
      cases hstep
      exact h.refuse hq
  | clearRequest => cases hstep; exact h
  | readHandler =>
    simp only [Timer.executeStep] at hstep
    cases hstep
    split <;> exact h
  | call | callback | readConfig => cases hstep; exact h
  | testStop k i r hh =>
    simp only [Timer.executeStep] at hstep
    cases hstep
    split
    · exact h
    · exact h.give_up (Or.inl rfl)
  | storeStopped => cases hstep; exact h.stop
  | readTick | storeExpiry => cases hstep; exact h
  | storePending => cases hstep; exact h.pend
  | requeueLoad =>
    have hst : v.o.mState = .requeuePending := h.2.2
    simp only [Timer.executeStep, hst] at hstep
    cases hstep
    exact h
  | requeueTest =>
    simp only [Timer.executeStep] at hstep
    cases hstep
    split
    · exact h.give_up (Or.inr rfl)
    · exact h
  | requeueTestAgain =>
    simp only [Timer.executeStep] at hstep
    cases hstep
    split <;> exact h
  | storeQueued => cases hstep; exact h.requeue
  | _ => simp [Timer.executeStep] at hstep

theorem not_locked_phase {e : Option Exec} (h : ¬ locked e) :
    phase e ≠ .front ∧ phase e ≠ .taken ∧ phase e ≠ .refused := by
  cases e with
  | none => simp [phase]
  | some e => cases e <;> simp_all [locked, phase]

/-- One step of either party keeps the timer consistent. -/
theorem step_consistent {a : Actor} {v v' : Life} (hstep : LifeStep a v v')
    (h : Consistent v) : Consistent v' := by
  cases hstep with
  | idle => exact h
  | tick d hd => exact h
  | config o' hstate hstop hexpiry => simpa only [Consistent, hstate] using h
  | begins k hc => simpa only [Consistent, hc, claim] using h
  | object hc hstep => exact consistent_object h hc hstep _
  | advance hc hstep =>
    unfold Consistent at h ⊢
    rw [hc] at h
    cases hstep with
    | broadcast k =>
      have hst : v.o.mState = .stopped := h.1.1
      rw [hst] at h ⊢
      exact h.after_stop k
    | _ => exact h
  | test hc =>
    unfold Consistent at h ⊢
    rw [hc] at h
    simp only
    split <;> exact h
  | remove hc hfree =>
    unfold Consistent at h ⊢
    rw [hc] at h
    exact h.removed (not_locked_phase hfree)
  | addFound hc hl =>
    unfold Consistent at h
    rw [hc] at h
    exact absurd hl h.not_listed
  | addLock hc hfree =>
    unfold Consistent at h ⊢
    rw [hc] at h
    exact h
  | insert hc =>
    unfold Consistent at h ⊢
    rw [hc] at h
    exact h.inserted
  | leave hc hret =>
    unfold Consistent at h ⊢
    rw [hc] at h
    rcases hret with rfl | rfl <;> exact h
  | take he hl hfree hexp =>
    unfold Consistent at h ⊢
    rw [he] at h
    exact h.take hl
  | execute he hstep => exact consistent_execute h he hstep _
  | execAdvance he hstep =>
    unfold Consistent at h ⊢
    rw [he] at h
    cases hstep with
    | requeueScan i => exact h
    | requeueWake => exact h
    | requeueRemoveWake => exact h.give_up (Or.inr rfl)
  | @popFront _ b he =>
    unfold Consistent at h ⊢
    rw [he] at h
    cases b with
    | true => exact h.pop
    | false => exact h.pop_refused
  | broadcastPending he =>
    unfold Consistent at h ⊢
    rw [he, ← claim_wake] at h
    exact h
  | broadcastLast he hlast =>
    unfold Consistent at h ⊢
    rw [he, ← claim_wake] at h
    cases hlast with
    | stopped => exact h
    | requeue => exact absurd h.2 (by simp [phase])
    | queued => exact h
  | requeueFound he hl =>
    unfold Consistent at h
    rw [he] at h
    exact absurd hl h.2.1
  | requeueLock he hfree =>
    unfold Consistent at h ⊢
    rw [he] at h
    exact h
  | requeueInsert he =>
    unfold Consistent at h ⊢
    rw [he] at h
    exact h.relist
  | requeueRemove he hfree =>
    unfold Consistent at h ⊢
    rw [he] at h
    exact h.unlist

end CWrapper.TimerLife
