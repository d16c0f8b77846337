import CWrapper.Transition
import CWrapper.WorkerNesting

/-!
Which thread is the worker thread, and which one joinLocked joins. The record says what the object
has done with threads: a session has begun, a thread has been created, a thread has been joined.
-/
namespace CWrapper.WorkerThread

open Transition

variable {W Th : Type}

inductive Handover (Th : Type)
  | session
  | created (id : Th)
  | joined (id : Th)
  deriving DecidableEq

section Ledger

variable [DecidableEq Th]

/-- The argument is the thread that has been created and not joined. A thread is joined once, and
before the next session and the next pthread_create; otherwise there is no result. -/
def Handover.next : Option Th → Handover Th → Option (Option Th)
  | none, .session => some none
  | none, .created id => some (some id)
  | some t, .joined id => if t = id then some none else none
  | _, _ => none

def unjoined (ledger : List (Handover Th)) : Option (Option Th) :=
  ledger.foldlM Handover.next none

theorem unjoined_concat {ledger : List (Handover Th)} {u : Option Th} {e : Handover Th}
    (h : unjoined ledger = some u) : unjoined (ledger ++ [e]) = Handover.next u e := by
  unfold unjoined at h ⊢
  rw [List.foldlM_append, h]
  cases hnext : Handover.next u e <;> simp [List.foldlM, hnext]

end Ledger

/-- A session begins, pthread_create succeeds, or pthread_join does. -/
def noteHandover (s : State W Th) (a : Action W Th) (_ : State W Th)
    (ledger : List (Handover Th)) : List (Handover Th) :=
  match a with
  | .resume th answer =>
      match s.call th, answer with
      | .start _ .claim, _ => if s.mState = .idle then ledger ++ [.session] else ledger
      | .start _ (.prepare .create), .thread id => ledger ++ [.created id]
      | .joinLocked _ (.pthreadJoin (some id)), .yes => ledger ++ [.joined id]
      | _, _ => ledger
  | _ => ledger

variable {s s' : State W Th} {th : Th} {w : W} {answer : Answer Th} {ledger : List (Handover Th)}

section Record

/-- A step that only logs leaves the record as it is. -/
theorem noteHandover_logs {c c' : Call W Th} {e : Event W Th} (hcall : s.call th = c)
    (h : Logs answer c e c') : noteHandover s (.resume th answer) s' ledger = ledger := by
  cases h with
  | createFailed w hanswer => simp only [noteHandover, hcall, hanswer]
  | attrInitFailed | prepareBegin | prepared | prepareFailed | failedBegin | failedEnd
  | stopBegin | stopEnd | cleanupBegin | cleanupEnd => simp only [noteHandover, hcall]

theorem noteHandover_resets {c c' : Call W Th} (hcall : s.call th = c) (h : Resets c c') :
    noteHandover s (.resume th answer) s' ledger = ledger := by
  cases h <;> simp only [noteHandover, hcall]

theorem noteHandover_leads [DecidableEq Th] {c c' : Call W Th} (hcall : s.call th = c)
    (h : Leads s th answer c c') : noteHandover s (.resume th answer) s' ledger = ledger := by
  cases h with
  | claim w hclaimed => simp only [noteHandover, hcall, if_neg hclaimed]
  | joinFails op threadId hanswer => simp only [noteHandover, hcall, hanswer]
  | isCurrentThread | load | attrInit | request | readNone | read | noWorker | msleep =>
    simp only [noteHandover, hcall]

end Record

variable [DecidableEq Th]

/-- The thread that is created and not joined is the one in taskEntry. -/
def Owned (s : State W Th) (ledger : List (Handover Th)) : Prop :=
  ∃ u, unjoined ledger = some u ∧ ∀ t, (s.task t).isNone = false ↔ u = some t

theorem Owned.keep (h : Owned s ledger) (htask : ∀ t, (s'.task t).isNone = (s.task t).isNone) :
    Owned s' ledger := by
  obtain ⟨u, hu, hown⟩ := h
  exact ⟨u, hu, fun t => by rw [htask t, hown t]⟩

theorem Owned.of_task (h : Owned s ledger) (htask : s'.task = s.task) : Owned s' ledger :=
  h.keep fun t => by rw [htask]

/-- No thread is owned when none is in taskEntry. -/
theorem Owned.nobody (h : Owned s ledger) (hnone : ∀ t, s.task t = .none) :
    unjoined ledger = some none := by
  obtain ⟨u, hu, hown⟩ := h
  cases u with
  | none => exact hu
  | some t =>
    have hsome := (hown t).mpr rfl
    rw [hnone t] at hsome
    cases hsome

theorem Owned.session (h : Owned s ledger) (hnone : ∀ t, s.task t = .none)
    (htask : s'.task = s.task) : Owned s' (ledger ++ [.session]) := by
  refine ⟨none, unjoined_concat (h.nobody hnone), fun t => ?_⟩
  rw [htask, hnone t]
  simp [Task.isNone]

section Steps

/-- A thread is created when the one before it has been joined. -/
theorem Owned.created (h : Owned s ledger) (hnone : ∀ t, s.task t = .none) {id : Th}
    (htask : s'.task = Function.update s.task id .entry) :
    Owned s' (ledger ++ [.created id]) := by
  refine ⟨some id, unjoined_concat (h.nobody hnone), fun t => ?_⟩
  rw [htask]
  by_cases heq : t = id
  · subst heq
    simp [Task.isNone]
  · rw [Function.update_of_ne heq, hnone t]
    simp [Task.isNone, Ne.symm heq]

/-- A join is for the thread that is created and not joined. -/
theorem Owned.joined (h : Owned s ledger) {id : Th} (hid : (s.task id).isNone = false)
    (htask : s'.task = Function.update s.task id .none) : Owned s' (ledger ++ [.joined id]) := by
  obtain ⟨u, hu, hown⟩ := h
  obtain rfl : u = some id := (hown id).mp hid
  refine ⟨none, ?_, fun t => ?_⟩
  · rw [unjoined_concat hu]
    exact if_pos rfl
  · rw [htask]
    by_cases heq : t = id
    · subst heq
      simp [Task.isNone]
    · rw [Function.update_of_ne heq, hown t]
      simp [Ne.symm heq]

/-- A thread in taskEntry goes on and stays in it. -/
theorem Owned.gotoTask (h : Owned s ledger) (hth : s.task th ≠ .none) {t : Task W}
    (ht : t.isNone = false) (htask : s'.task = Function.update s.task th t) :
    Owned s' ledger := by
  refine h.keep fun u => ?_
  rw [htask]
  by_cases heq : u = th
  · subst heq
    rw [Function.update_self, ht]
    cases hu : s.task u <;> first | rfl | exact absurd hu hth
  · rw [Function.update_of_ne heq]

end Steps

theorem notify_task (k : Notifier) : (s.notify th k).task = s.task := by
  unfold State.notify
  split <;> rfl

theorem awaitRelease_task (s : State W Th) (th : Th) : ∃ t : Task W, t.isNone = false ∧
    (awaitRelease s th).task = Function.update s.task th t := by
  unfold awaitRelease
  split
  · exact ⟨.released s.mWorker, rfl, rfl⟩
  · exact ⟨.await, rfl, rfl⟩

theorem Owned.taskDoes {t : Task W} (h : Owned s ledger) (ht : s.task th = t)
    (hdoes : TaskDoes s th t s') : Owned s' ledger := by
  cases hdoes with
  | entry | await =>
    obtain ⟨t, ht', hs⟩ := awaitRelease_task _ th
    exact h.gotoTask (by rw [ht]; nofun) ht' hs
  | skip | exit => exact h.gotoTask (by rw [ht]; nofun) rfl rfl
  | run hlogs => exact h.gotoTask (ht ▸ hlogs.inTask.1) hlogs.inTask.2 rfl

variable [DecidableEq W] {p : Phase W Th}

theorem Owned.callDoes {c : Call W Th} (h : Owned s ledger) (hfits : Fits s p)
    (hcall : s.call th = c) (hdoes : CallDoes s th answer c s') :
    Owned s' (noteHandover s (.resume th answer) s' ledger) := by
  cases hdoes with
  | goes hleads =>
    rw [noteHandover_leads hcall hleads]
    exact h.of_task rfl
  | logs hlogs =>
    rw [noteHandover_logs hcall hlogs]
    exact h.of_task rfl
  | resets hresets =>
    rw [noteHandover_resets hcall hresets]
    exact h.of_task rfl
  | claim w hidle =>
    obtain rfl := hfits.idle hidle th (by rw [hcall]; rfl) (by rw [hcall]; rfl)
    simp only [noteHandover, hcall, if_pos hidle]
    exact h.session (fun t => by rw [hfits.task]; rfl) rfl
  | create w id hanswer _ _ =>
    obtain rfl := hfits.preparing hcall
    simp only [noteHandover, hcall, hanswer]
    exact h.created (fun t => by rw [hfits.task]; rfl) rfl
  | join op id hanswer hexited =>
    simp only [noteHandover, hcall, hanswer]
    exact h.joined (by rw [hexited]; rfl) rfl
  | handshakeStop | stop =>
    simp only [noteHandover, hcall]
    exact h.of_task (notify_task _)
  | acquire | release | handshakeBlock | handshakeRun | request | delivered | joinBlock | take
  | sleepBlock | sleepEnd =>
    simp only [noteHandover, hcall]
    exact h.of_task rfl

theorem Owned.does (h : Owned s ledger) (hfits : Fits s p) (hdoes : Does s th answer s') :
    Owned s' (noteHandover s (.resume th answer) s' ledger) := by
  cases hdoes with
  | call hcall hdoes => exact h.callDoes hfits hcall hdoes
  | task hcall ht hdoes =>
    simp only [noteHandover, hcall]
    exact h.taskDoes ht hdoes

/-- A step creates a thread, joins one, or leaves both records as they are. -/
theorem Owned.step (h : Owned s ledger) (hfits : Fits s p) {a : Action W Th}
    (hmoves : Moves s a s') : Owned s' (noteHandover s a s' ledger) := by
  cases hmoves with
  | call _ _ | lock _ _ _ | wakeup | expire _ => exact h.of_task rfl
  | inside _ _ hdoes =>
    have hfits' := hfits.waits none s.mStateCv s.mSleepCv s.mStopRequested s.mWakeupRequested
    exact Owned.does (s := { s with mStateLock := none }) (h.of_task rfl) hfits' hdoes
  | outside _ hdoes => exact h.does hfits hdoes

/-- The object and its threads, with the record of the threads that it creates and joins. -/
def ledgered (W Th : Type) [DecidableEq Th] :
    Machine (State W Th × List (Handover Th)) (Action W Th) :=
  (machine W Th).recorded [] noteHandover

/-- In every reachable state the thread that is created and not joined is the one in taskEntry. -/
theorem owned_reachable {r : State W Th × List (Handover Th)}
    (hr : (ledgered W Th).Reachable Machine.anyStep r) : Owned r.1 r.2 := by
  refine Machine.Invariant.reachable (J := fun r => ∃ p, Fits r.1 p)
    (I := fun r => Owned r.1 r.2) ⟨?_, ?_⟩ (fun r hr => (fits_and_waits hr.forget).1) hr
  · rintro ⟨s, ledger⟩ ⟨hs, hledger⟩
    obtain rfl : s = WorkerThread.start := hs
    obtain rfl : ledger = [] := hledger
    exact ⟨none, rfl, fun t => by simp [WorkerThread.start, Task.isNone]⟩
  · rintro r a r' - ⟨p, hfits⟩ hstep hown
    obtain ⟨hs, hnote⟩ := Machine.recorded_step_iff.mp hstep
    rw [hnote]
    exact hown.step hfits (step_moves hs)

/-- Outside taskEntry isCurrentThread answers false. -/
theorem Fits.isCurrentThread_outside (h : Fits s p) (hth : s.task th = .none) :
    s.isCurrentThread th = false := by
  by_contra htrue
  rw [Bool.not_eq_false, State.isCurrentThread, Bool.and_eq_true, Bool.or_eq_true,
    decide_eq_true_eq, decide_eq_true_eq, decide_eq_true_eq, h.state] at htrue
  obtain ⟨hstate, hid⟩ := htrue
  cases p with
  | live w t r stop =>
    obtain rfl : t = th := Option.some.inj (h.handshake.2.1.symm.trans hid)
    rw [h.task] at hth
    have hr : r = .none := by simpa [Phase.task] using hth
    obtain ⟨-, -, hr' | hr' | hr' | hr' | hr'⟩ := h.handshake <;> rw [hr] at hr' <;> cases hr'
  | idle | preparing | opening | failed | joined | cleaning | closing =>
    rcases hstate with hstate | hstate <;> cases hstate

/-- Whoever is at a call of a function, the worker thread in run() answers true to
isCurrentThread() and all other threads answer false; joinLocked joins the thread that the session
has created; each thread is joined once, and before another is created; and joinLocked never finds
the state Starting. -/
theorem worker_identity {r : State W Th × List (Handover Th)}
    (hr : (ledgered W Th).Reachable Machine.anyStep r) :
    (∀ th, (r.1.task th).mayCall = true →
      (r.1.isCurrentThread th = true ↔ ∃ w, r.1.task th = .run w)) ∧
    (∀ th op threadId, r.1.call th = .joinLocked op (.pthreadJoin threadId) →
      threadId.isSome = true ∧ unjoined r.2 = some threadId) ∧
    (∃ u, unjoined r.2 = some u) ∧
    ∀ th op, r.1.call th = .joinLocked op .read → r.1.mState ≠ .starting := by
  obtain ⟨p, hfits⟩ := (fits_and_waits hr.forget).1
  obtain ⟨u, hu, hown⟩ := owned_reachable hr
  refine ⟨fun th hmay => ?_, fun th op threadId hcall => ?_, ⟨u, hu⟩, fun th op hcall => ?_⟩
  · constructor
    · intro htrue
      cases hth : r.1.task th with
      | none =>
        rw [hfits.isCurrentThread_outside hth] at htrue
        cases htrue
      | run w => exact ⟨w, rfl⟩
      | entry | await | released | exit | exited =>
        rw [hth] at hmay
        cases hmay
    · rintro ⟨w, hth⟩
      exact hfits.isCurrentThread hth
  · have hjoin := hfits.agrees.joining th threadId (by rw [hcall]; rfl)
    cases p with
    | live w t k stop =>
      obtain rfl : some t = threadId := Option.some.inj hjoin
      have htask : r.1.task t = k := by
        rw [hfits.task]
        simp [Phase.task]
      have hrun : k.isNone = false := by
        obtain ⟨-, -, hk | hk | hk | hk | hk⟩ := hfits.handshake <;> rw [hk] <;> rfl
      exact ⟨rfl, by rw [hu, (hown t).mp (by rw [htask, hrun])]⟩
    | idle | preparing | opening | failed | joined | cleaning | closing => cases hjoin
  · obtain rfl | ⟨w, t, k, stop, rfl⟩ :=
      hfits.idle_or_live th (by rw [hcall]; rfl) (by rw [hcall]; rfl)
    · rw [hfits.state]
      simp [Phase.state]
    · rw [hfits.state]
      cases k <;> cases stop <;> simp [Phase.state]

def insideRun : State Bool Bool × List (Handover Bool) :=
  (ledgered Bool Bool).after Machine.anyStep (start, [])
    (started ++ inLock true ++ [.resume true .yes])

/-- `true` has returned from run(), and join() has read its identity and is about to join it. -/
def toJoin : State Bool Bool × List (Handover Bool) :=
  (ledgered Bool Bool).after Machine.anyStep (start, [])
    (started ++ inLock true ++ [.resume true .yes, .resume true .yes] ++ inLock true ++
      [.call false .join] ++ inLock false ++ [.resume false .yes, .resume false .yes] ++
      inLock false)

theorem worker_identity_joining :
    (insideRun.1.isCurrentThread true = true ↔ ∃ w, insideRun.1.task true = .run w) ∧
    (some true : Option Bool).isSome = true ∧ unjoined toJoin.2 = some (some true) :=
  have hinside : (ledgered Bool Bool).Reachable Machine.anyStep insideRun :=
    Machine.reachable_after ⟨rfl, rfl⟩ (by decide +kernel)
  have hjoin : (ledgered Bool Bool).Reachable Machine.anyStep toJoin :=
    Machine.reachable_after ⟨rfl, rfl⟩ (by decide +kernel)
  ⟨(worker_identity hinside).1 true (by decide +kernel),
    (worker_identity hjoin).2.1 false .join (some true) (by rfl)⟩

end CWrapper.WorkerThread
