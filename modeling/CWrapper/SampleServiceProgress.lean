import CWrapper.SampleServiceRuns

/-!
What the threads of a SampleService wait for when none of them can go on: the callback for a
message, or request() for a cell that no callback will free. While mEOS is set there is no such
state.
-/
namespace CWrapper.SampleService

open Transition SyncQueue

variable {Th : Type} {s : State Th} {th u : Th} {c : Call} {pt : LoopPoint}

def State.inside (s : State Th) (th : Th) : Bool := s.call th ≠ .none || s.mThread.inside th

/-- The next step of this thread, in a function that it has called or in the callback. -/
def Action.isBy [DecidableEq Th] (th : Th) : Action Th → Bool
  | .next u | .loop u | .queue (.resume u _) => u = th
  | .thread a => a.isBy th
  | _ => false

def State.canStep [DecidableEq Th] (s : State Th) (th : Th) : Prop :=
  ∃ a : Action Th, a.isBy th = true ∧ (step s a).isSome = true

section Queue

variable {q : SyncQueue.State Msg Th messages}

theorem mayChoose_zero (waiters : List Th) : mayChoose waiters 0 = true := by
  cases waiters <;> simp [mayChoose]

theorem Stands.waits_full (h : Stands c pt (q.thread th))
    (hwaits : (q.thread th).waits .full = true) : c = .request := by
  generalize q.thread th = p at h hwaits
  cases h with
  | put => rfl
  | get | free | stored | thread | requested | shouldRun | log | done | store | broadcastFull
  | broadcastEmpty => cases hwaits

theorem Stands.waits_empty (h : Stands c pt (q.thread th))
    (hwaits : (q.thread th).waits .empty = true) : pt = .get := by
  generalize q.thread th = p at h hwaits
  cases h with
  | get => rfl
  | put | free | stored | thread | requested | shouldRun | log | done | store | broadcastFull
  | broadcastEmpty => cases hwaits

/-- Nobody is between a wait and mLock, or owes a broadcast, but the threads that go on. -/
theorem Stands.settled (h : Stands c pt (q.thread th))
    (hstuck : q.thread th ≠ .idle → ∃ d, (q.thread th).waits d = true) :
    (q.thread th).woken = false ∧ ∀ d, (q.thread th).owes d = false := by
  generalize q.thread th = p at h hstuck
  cases h with
  | free | stored | thread | requested | shouldRun | log | done =>
    exact ⟨rfl, fun d => by cases d <;> rfl⟩
  | store | broadcastFull | broadcastEmpty =>
    obtain ⟨d, hd⟩ := hstuck (by simp)
    cases d <;> cases hd
  | @put msg point hpoint | @get point hpoint =>
    obtain ⟨d, hd⟩ := hstuck (by simp)
    cases point with
    | blocked => exact ⟨rfl, fun d => by cases d <;> rfl⟩
    | enter | woken => cases d <;> cases hd

variable [DecidableEq Th]

theorem putSection_isSome (msg : Msg) (ms : ℤ) : (putSection id q th msg ms 0).isSome = true := by
  unfold putSection
  split
  · split
    · rfl
    · split <;> rfl
  · split
    · rfl
    · split
      · rfl
      · rw [if_pos (mayChoose_zero _)]
        rfl

theorem getSection_isSome (msg : Option Msg) (ms : ℤ) :
    (getSection id q th msg ms 0).isSome = true := by
  unfold getSection
  split
  · split
    · rfl
    · split <;> rfl
  · split
    · rfl
    · split
      · rfl
      · rw [if_pos (mayChoose_zero _)]
        rfl

/-- A thread in mMsgQ that does not wait goes on there. -/
theorem Stands.resume_isSome (h : Stands c pt (q.thread th)) (hidle : q.thread th ≠ .idle)
    (hwaits : ∀ d, (q.thread th).waits d = false) :
    (SyncQueue.step id q (.resume th 0)).isSome = true := by
  show (threadStep id q th 0).isSome = true
  unfold threadStep
  generalize q.thread th = p at h hidle hwaits ⊢
  cases h with
  | free | stored | thread | requested | shouldRun | log | done => exact absurd rfl hidle
  | store | broadcastFull | broadcastEmpty => rfl
  | @put msg point hpoint =>
    cases point with
    | enter => exact putSection_isSome msg INFINITE
    | blocked => cases hwaits .full
    | woken timedOut =>
      cases timedOut with
      | false => exact putSection_isSome msg INFINITE
      | true => rfl
  | @get point hpoint =>
    cases point with
    | enter => exact getSection_isSome (some default) INFINITE
    | blocked => cases hwaits .empty
    | woken timedOut =>
      cases timedOut with
      | false => exact getSection_isSome (some default) INFINITE
      | true => rfl

end Queue

section Threads

theorem inside_of_call (hcall : s.call th ≠ .none) : s.inside th = true := by
  simp [State.inside, hcall]

theorem inside_of_thread (hin : s.mThread.inside th = true) : s.inside th = true := by
  simp [State.inside, hin]

variable [DecidableEq Th]

/-- The callback is called in taskEntry. -/
theorem inside_of_loop (hs : (machine Th).Reachable Machine.anyStep s)
    (hloop : s.loop th ≠ .outside) : s.mThread.inside th = true := by
  have hrun := ((consistent_reachable hs).inside th).mp hloop
  have hsessions := AsyncThread.sessions_reachable (thread_part.reachable hs)
  obtain ⟨callback, hserves⟩ := hsessions.serves th (task_of_loop hs hloop)
  have hrunning := hserves.running
  rw [hrun] at hrunning
  have hended : (s.mThread.mThreadEngine.task th).ended = false := by
    generalize s.mThread.mThreadEngine.task th = r at hrunning
    generalize AsyncThread.sessionLog callback.id s.mThread.log = events at hrunning
    cases hrunning with
    | inside => rfl
  rw [AsyncThread.State.inside, WorkerThread.inside_of_task hended, Bool.or_true]

/-- A thread in mMsgQ that does not wait can take a step. -/
theorem queue_goes_on (hs : (machine Th).Reachable Machine.anyStep s)
    (hidle : s.mMsgQ.thread th ≠ .idle) (hwaits : ∀ d, (s.mMsgQ.thread th).waits d = false) :
    s.inside th = true ∧ s.canStep th := by
  have hst := (consistent_reachable hs).stands th
  refine ⟨?_, .queue (.resume th 0), by simp [Action.isBy], ?_⟩
  · by_cases hcall : s.call th = .none
    · refine inside_of_thread (inside_of_loop hs fun hout => hidle ?_)
      rw [hcall, hout] at hst
      exact hst.idle (by simp)
    · exact inside_of_call hcall
  · obtain ⟨q, hq⟩ := Option.isSome_iff_exists.mp (hst.resume_isSome hidle hwaits)
    simp [step, inQueue, State.queueStep, hq]

/-- The callback goes on, unless it waits for a message. -/
theorem callback_goes_on (hs : (machine Th).Reachable Machine.anyStep s)
    (hloop : s.loop th ≠ .outside) (hdone : s.loop th ≠ .done)
    (hwaits : ∀ d, (s.mMsgQ.thread th).waits d = false) : s.canStep th := by
  have hst := (consistent_reachable hs).stands th
  have hstep (hsome : (loopStep s th (s.loop th)).isSome = true) : s.canStep th :=
    ⟨.loop th, by simp [Action.isBy], hsome⟩
  generalize hc : s.call th = c at hst
  generalize hp : s.mMsgQ.thread th = p at hst
  generalize hl : s.loop th = pt at hst
  cases hst with
  | free | store | broadcastFull | broadcastEmpty | stored | thread | put | requested =>
    exact absurd hl hloop
  | done => exact absurd hl hdone
  | shouldRun =>
    refine hstep ?_
    rw [hl]
    simp only [loopStep]
    split
    · simp [State.queueStep, SyncQueue.step, SyncQueue.State.call, State.gotoLoop, hp]
    · rfl
  | log msg =>
    refine hstep ?_
    rw [hl]
    rfl
  | get => exact (queue_goes_on hs (by rw [hp]; simp) hwaits).2

/-- A thread in mThread goes on where it is not blocked, unless it waits for a message. -/
theorem thread_goes_on (hs : (machine Th).Reachable Machine.anyStep s)
    (hin : s.mThread.inside th = true) (hfree : ¬ AsyncThread.Blocked s.mThread th)
    (hwaits : s.loop th = .get → ∀ d, (s.mMsgQ.thread th).waits d = false) : s.canStep th := by
  obtain ⟨a, hby, hthread, hsome⟩ := AsyncThread.goes_on (thread_part.reachable hs) hin hfree
  have hcons := consistent_reachable hs
  have hadmitted (hadmits : s.admits a = true) : s.canStep th := by
    obtain ⟨t, ht⟩ := Option.isSome_iff_exists.mp hsome
    exact ⟨.thread a, hby, by simp [step, hadmits, State.threadStep, ht]⟩
  cases a with
  | start | stop => cases hby
  | resume => exact hadmitted rfl
  | run u =>
    obtain rfl : u = th := by simpa [AsyncThread.Action.isBy] using hby
    by_cases hdone : s.loop u = .done
    · exact hadmitted (by simp [State.admits, hdone])
    · by_cases hrun : s.mThread.run u = .inside
      · have hloop := (hcons.inside u).mpr hrun
        refine callback_goes_on hs hloop hdone fun d => ?_
        by_cases hget : s.loop u = .get
        · exact hwaits hget d
        · by_contra hd
          have hst := hcons.stands u
          have hcall : s.call u = .none := by
            by_contra hne
            have htask := hcons.outside u hne
            rw [(AsyncThread.sessions_reachable (thread_part.reachable hs)).outside u htask] at hrun
            cases hrun
          rw [hcall] at hst
          rw [hst.idle hget] at hd
          cases d <;> exact hd rfl
      · exact hadmitted (by simp [State.admits, hrun])
  | engine a =>
    cases a with
    | call => cases hby
    | lock | wakeup | expire => exact hadmitted rfl
    | resume u answer =>
      cases answer with
      | yes | no => exact hadmitted rfl
      | thread id => exact absurd rfl (hthread u id)

/-- Where nobody is in mThread, a thread in start() or stop() goes on, and one in request() unless
it waits for a cell. -/
theorem caller_goes_on (hs : (machine Th).Reachable Machine.anyStep s) (hcall : s.call th ≠ .none)
    (hnobody : ∀ u, s.mThread.inside u = false)
    (hwaits : ∀ d, (s.mMsgQ.thread th).waits d = false) : s.canStep th := by
  by_cases hidle : s.mMsgQ.thread th = .idle
  · refine ⟨.next th, by simp [Action.isBy], ?_⟩
    have hout := hnobody th
    rw [AsyncThread.State.inside, Bool.or_eq_false_iff, Bool.not_eq_false'] at hout
    simp only [step]
    cases hc : s.call th with
    | none => exact absurd hc hcall
    | setEOS op =>
      have hengine : (s.mThread.mThreadEngine.call th).isNone = true := by
        have hin := hout.2
        rw [WorkerThread.State.inside, Bool.not_eq_false', Bool.and_eq_true] at hin
        exact hin.1
      have htask := (consistent_reachable hs).outside th hcall
      have hfree : s.mThread.isFree th = true := by
        simp [AsyncThread.State.isFree, hout.1, hengine, htask, WorkerThread.Task.isNone]
      cases op <;> simp [nextStep, hidle, State.threadStep, State.goto, Operation.inThread,
        AsyncThread.step, hfree]
    | thread op => simp [nextStep, hout.1]
    | request => simp [nextStep, hidle]
  · exact (queue_goes_on hs hidle hwaits).2

end Threads

section Stuck

variable [DecidableEq Th]

/-- Where no thread can go on, those in mMsgQ wait there. -/
theorem quiescent_of_stuck (hs : (machine Th).Reachable Machine.anyStep s)
    (hstuck : ∀ u, s.inside u = true → ¬ s.canStep u) : Quiescent s.mMsgQ := by
  intro u
  refine ((consistent_reachable hs).stands u).settled fun hidle => ?_
  by_contra hno
  obtain ⟨hin, hstep⟩ := queue_goes_on hs hidle fun d => by
    by_contra hd
    exact hno ⟨d, by simpa using hd⟩
  exact hstuck u hin hstep

/-- Where no thread can go on and one waits for a message, nobody is in request(). -/
theorem no_request_of_stuck (hs : (machine Th).Reachable Machine.anyStep s)
    (hstuck : ∀ u, s.inside u = true → ¬ s.canStep u) {u : Th}
    (hu : (s.mMsgQ.thread u).waits .empty = true) :
    s.mMsgQ.mEOS = false ∧ s.mMsgQ.mQueue.isEmpty = true ∧ ∀ v, s.call v ≠ .request := by
  have hquiet := quiescent_of_stuck hs hstuck
  have hattended (d : Condition) := attended_reachable (queue_part.reachable hs) d
  obtain ⟨heos, hunits⟩ := (hattended .empty).settled hquiet hu
  have hempty : s.mMsgQ.mQueue.mSize = 0 := hunits
  refine ⟨heos, by simp [CircularQueue.isEmpty, hempty], fun v hv => ?_⟩
  have hin : s.inside v = true := inside_of_call (by simp [hv])
  by_cases hidle : s.mMsgQ.thread v = .idle
  · exact hstuck v hin ⟨.next v, by simp [Action.isBy], by simp [step, hv, nextStep, hidle]⟩
  · refine hstuck v hin (queue_goes_on hs hidle fun d => ?_).2
    by_contra hd
    have hd : (s.mMsgQ.thread v).waits d = true := by simpa using hd
    have hnone := ((hattended d).settled hquiet hd).2
    cases d with
    | full =>
      have hpos : 0 < (messages : ℕ) := messages.pos
      have hfull : (messages : ℕ) - s.mMsgQ.mQueue.mSize = 0 := hnone
      omega
    | empty =>
      have hst := (consistent_reachable hs).stands v
      rw [hv, hst.waits_empty hd] at hst
      generalize s.mMsgQ.thread v = p at hst
      cases hst

/-- Where no thread can go on and none waits for a message, nobody is in mThread. -/
theorem nobody_of_stuck (hs : (machine Th).Reachable Machine.anyStep s)
    (hstuck : ∀ u, s.inside u = true → ¬ s.canStep u)
    (hget : ∀ u, (s.mMsgQ.thread u).waits .empty = false) (u : Th) :
    s.mThread.inside u = false := by
  rw [← Bool.not_eq_true]
  intro hu
  obtain ⟨th', hin', hfree⟩ := AsyncThread.free_thread (thread_part.reachable hs) hu
  refine hstuck th' (inside_of_thread hin') (thread_goes_on hs hin' hfree fun hloop d => ?_)
  cases d with
  | empty => exact hget th'
  | full =>
    rw [← Bool.not_eq_true]
    intro hd
    have hst := (consistent_reachable hs).stands th'
    rw [hst.waits_full hd, hloop] at hst
    generalize s.mMsgQ.thread th' = p at hst
    cases hst

/-- While a thread is in a SampleService, one of them can take a step, or mEOS is not set, and they
wait for the callback, which waits for a message in get(); or there is no callback, and all of them
wait in request() for a cell of the full queue. -/
theorem service_goes_on (hs : (machine Th).Reachable Machine.anyStep s)
    (hin : s.inside th = true) :
    (∃ th', s.inside th' = true ∧ s.canStep th') ∨
      s.mMsgQ.mEOS = false ∧
        (s.mMsgQ.mQueue.isEmpty = true ∧ (∀ u, s.call u ≠ .request) ∧
            (∃ th', s.loop th' = .get ∧ (s.mMsgQ.thread th').waits .empty = true) ∨
          s.mMsgQ.mQueue.isFull = true ∧ ∀ u, s.loop u = .outside ∧
            (s.inside u = true → s.call u = .request ∧
              (s.mMsgQ.thread u).waits .full = true)) := by
  by_cases hgo : ∃ th', s.inside th' = true ∧ s.canStep th'
  · exact Or.inl hgo
  refine Or.inr ?_
  have hstuck (u : Th) (hu : s.inside u = true) : ¬ s.canStep u := fun hstep => hgo ⟨u, hu, hstep⟩
  have hcons := consistent_reachable hs
  by_cases hget : ∃ u, (s.mMsgQ.thread u).waits .empty = true
  · obtain ⟨u, hu⟩ := hget
    obtain ⟨heos, hempty, hrequest⟩ := no_request_of_stuck hs hstuck hu
    exact ⟨heos, Or.inl ⟨hempty, hrequest, u, (hcons.stands u).waits_empty hu, hu⟩⟩
  · have hget (u : Th) : (s.mMsgQ.thread u).waits .empty = false := by
      rw [← Bool.not_eq_true]
      exact fun hu => hget ⟨u, hu⟩
    have hnobody := nobody_of_stuck hs hstuck hget
    have hcaller (u : Th) (hu : s.inside u = true) : (s.mMsgQ.thread u).waits .full = true := by
      by_contra hd
      have hcall : s.call u ≠ .none := by simpa [State.inside, hnobody u] using hu
      refine hstuck u hu (caller_goes_on hs hcall hnobody fun d => ?_)
      cases d with
      | empty => exact hget u
      | full => simpa using hd
    have hattended := attended_reachable (queue_part.reachable hs) Condition.full
    obtain ⟨heos, hunits⟩ := hattended.settled (quiescent_of_stuck hs hstuck) (hcaller th hin)
    have hfull : (messages : ℕ) - s.mMsgQ.mQueue.mSize = 0 := hunits
    refine ⟨heos, Or.inr ⟨?_, fun u => ⟨?_, fun hu => ?_⟩⟩⟩
    · simpa [CircularQueue.isFull, Nat.sub_eq_zero_iff_le] using hfull
    · by_contra hloop
      have hthread := inside_of_loop hs hloop
      rw [hnobody u] at hthread
      cases hthread
    · exact ⟨(hcons.stands u).waits_full (hcaller u hu), hcaller u hu⟩

def inEngineLock (th : Bool) : List (Action Bool) :=
  [.thread (.engine (.lock th)), .thread (.engine (.resume th .yes))]

/-- `n` steps of a thread in mThread, or in its engine. -/
def inThread (n : ℕ) (th : Bool) : List (Action Bool) := .replicate n (.thread (.resume th))

def inEngine (n : ℕ) (th : Bool) : List (Action Bool) :=
  .replicate n (.thread (.engine (.resume th .yes)))

/-- The thread `false` calls start(), and `true` waits in get() for a message. -/
def awaiting : State Bool :=
  (machine Bool).after Machine.anyStep (start 0)
    ([.start false, .queue (.resume false 0), .queue (.resume false 0), .queue (.resume false 0),
        .next false] ++ inThread 4 false ++ inEngineLock false ++ inEngine 1 false ++
      inEngineLock false ++ inEngine 2 false ++ inThread 3 false ++ inEngine 2 false ++
      inEngineLock false ++ inEngine 3 false ++
      [.thread (.engine (.resume false (.thread true)))] ++ inEngineLock true ++
      inEngineLock false ++ inEngine 1 false ++ inThread 2 false ++ inEngineLock true ++
      inEngine 1 true ++
      [.thread (.run true), .thread (.run true), .next false, .loop true, .queue (.resume true 0)])

theorem awaiting_reachable : (machine Bool).Reachable Machine.anyStep awaiting :=
  Machine.reachable_after ⟨0, rfl⟩ (by decide +kernel)

theorem service_goes_on_awaiting :
    awaiting.call false = .none ∧ awaiting.loop true = .get ∧
      ((∃ th', awaiting.inside th' = true ∧ awaiting.canStep th') ∨
        awaiting.mMsgQ.mEOS = false ∧
          (awaiting.mMsgQ.mQueue.isEmpty = true ∧ (∀ u, awaiting.call u ≠ .request) ∧
              (∃ th', awaiting.loop th' = .get ∧
                (awaiting.mMsgQ.thread th').waits .empty = true) ∨
            awaiting.mMsgQ.mQueue.isFull = true ∧ ∀ u, awaiting.loop u = .outside ∧
              (awaiting.inside u = true → awaiting.call u = .request ∧
                (awaiting.mMsgQ.thread u).waits .full = true))) := by
  have hin : awaiting.inside true = true := by decide +kernel
  exact ⟨by decide +kernel, by decide +kernel, service_goes_on awaiting_reachable hin⟩

end Stuck

end CWrapper.SampleService
