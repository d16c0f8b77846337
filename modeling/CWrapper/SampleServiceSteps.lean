import CWrapper.AsyncFrames
import CWrapper.SampleService
import CWrapper.SyncQueueThreads

/-!
The threads of a SampleService are in its two members as its functions and the callback say. Each
member moves as it does when it is used by itself.
-/
namespace CWrapper.SampleService

open Transition SyncQueue

variable {Th : Type}

/-- The point of a thread in a function or in the callback, with its point in mMsgQ. -/
inductive Stands : Call → LoopPoint → ThreadPoint Msg → Prop
  | free : Stands .none .outside .idle
  | store (op : Operation) : Stands (.setEOS op) .outside (.setEOS op.eos)
  | broadcastFull (op : Operation) : Stands (.setEOS op) .outside .broadcastFull
  | broadcastEmpty (op : Operation) : Stands (.setEOS op) .outside .broadcastEmpty
  | stored (op : Operation) : Stands (.setEOS op) .outside .idle
  | thread (op : Operation) : Stands (.thread op) .outside .idle
  | put (msg : Msg) {point : WaitPoint} (hpoint : point.untimed = true) :
      Stands .request .outside (.put msg INFINITE point)
  | requested : Stands .request .outside .idle
  | shouldRun : Stands .none .shouldRun .idle
  | get {point : WaitPoint} (hpoint : point.untimed = true) :
      Stands .none .get (.get (some default) INFINITE point)
  | log (msg : Msg) : Stands .none (.log msg) .idle
  | done : Stands .none .done .idle

structure Consistent (s : State Th) : Prop where
  stands : ∀ th, Stands (s.call th) (s.loop th) (s.mMsgQ.thread th)
  outside : ∀ th, s.call th ≠ .none → s.mThread.mThreadEngine.task th = .none
  inside : ∀ th, s.loop th ≠ .outside ↔ s.mThread.run th = .inside

variable {s s' : State Th} {th u : Th} {c : Call} {pt : LoopPoint} {p : ThreadPoint Msg}

theorem Stands.idle (h : Stands .none pt p) (hpt : pt ≠ .get) : p = .idle := by
  cases h with
  | get => exact absurd rfl hpt
  | free | shouldRun | log | done => rfl

theorem Stands.wake {p' : ThreadPoint Msg} (h : Stands c pt p) (hwake : MayWake p p') :
    Stands c pt p' := by
  obtain rfl | rfl := hwake
  · exact h
  · cases h with
    | put msg hpoint => exact .put msg (untimed_wake hpoint)
    | get hpoint => exact .get (untimed_wake hpoint)
    | free => exact .free
    | store op => exact .store op
    | broadcastFull op => exact .broadcastFull op
    | broadcastEmpty op => exact .broadcastEmpty op
    | stored op => exact .stored op
    | thread op => exact .thread op
    | requested => exact .requested
    | shouldRun => exact .shouldRun
    | log msg => exact .log msg
    | done => exact .done

theorem isFree_iff : s.isFree th = true ↔ s.call th = .none ∧ s.mThread.isFree th = true := by
  rw [State.isFree, Bool.and_eq_true, decide_eq_true_eq]

/-- mThread goes on, outside the callback. -/
theorem Consistent.ofThread (h : Consistent s) {t : AsyncThread.State Unit Th}
    (htask : ∀ u, s.call u ≠ .none → s.mThread.mThreadEngine.task u = .none →
      t.mThreadEngine.task u = .none)
    (hrun : ∀ u, t.run u = .inside ↔ s.mThread.run u = .inside) :
    Consistent { s with mThread := t } :=
  ⟨h.stands, fun u hu => htask u hu (h.outside u hu), fun u => (h.inside u).trans (hrun u).symm⟩

variable [DecidableEq Th]

section Parts

theorem queueStep_eq {a : SyncQueue.Action Msg Th} (hstep : s.queueStep a = some s') :
    ∃ q, SyncQueue.step id s.mMsgQ a = some q ∧ s' = { s with mMsgQ := q } := by
  obtain ⟨q, hq, heq⟩ := Option.map_eq_some_iff.mp hstep
  exact ⟨q, hq, heq.symm⟩

theorem threadStep_eq {a : AsyncThread.Action Unit Th} (hstep : s.threadStep a = some s') :
    ∃ t, AsyncThread.step s.mThread a = some t ∧ s' = { s with mThread := t } := by
  obtain ⟨t, ht, heq⟩ := Option.map_eq_some_iff.mp hstep
  exact ⟨t, ht, heq.symm⟩

theorem receive_fields (s : State Th) (a : SyncQueue.Action Msg Th) :
    ∃ loop, s.receive a = { s with loop := loop } := by
  unfold State.receive
  split
  · split
    · exact ⟨_, rfl⟩
    · exact ⟨_, rfl⟩
  · exact ⟨_, rfl⟩

theorem follow_fields (s s' : State Th) (a : AsyncThread.Action Unit Th) :
    ∃ loop, s.follow s' a = { s' with loop := loop } := by
  unfold State.follow
  split
  · split
    · exact ⟨_, rfl⟩
    · exact ⟨_, rfl⟩
    · exact ⟨_, rfl⟩
  · exact ⟨_, rfl⟩

def Operation.action (th : Th) : Operation → Action Th
  | .start => .start th
  | .stop => .stop th

inductive Moves (s : State Th) : Action Th → State Th → Prop
  /-- start() or stop() begins, in mMsgQ.setEOS(). -/
  | enter {th : Th} (op : Operation) {q : SyncQueue.State Msg Th messages}
      (hfree : s.isFree th = true)
      (hq : SyncQueue.step id s.mMsgQ (.setEOS th op.eos) = some q) :
      Moves s (op.action th) { s.goto th (.setEOS op) with mMsgQ := q }
  | request {th : Th} {what : ℤ} {q : SyncQueue.State Msg Th messages}
      (hfree : s.isFree th = true)
      (hq : SyncQueue.step id s.mMsgQ (.put th ⟨what, 0, 0, 0⟩ INFINITE) = some q) :
      Moves s (.request th what) { s.goto th .request with mMsgQ := q }
  /-- start() or stop() goes on in mThread. -/
  | stored {th : Th} {op : Operation} {t : AsyncThread.State Unit Th}
      (hcall : s.call th = .setEOS op) (hidle : s.mMsgQ.thread th = .idle)
      (ht : AsyncThread.step s.mThread (op.inThread th) = some t) :
      Moves s (.next th) { s.goto th (.thread op) with mThread := t }
  | return {th : Th} (hidle : s.call th = .request → s.mMsgQ.thread th = .idle)
      (hcall : s.call th = .request ∨
        (∃ op, s.call th = .thread op) ∧ s.mThread.call th = .none) :
      Moves s (.next th) (s.goto th .none)
  /-- The callback calls mMsgQ.get(). -/
  | get {th : Th} {q : SyncQueue.State Msg Th messages} (hloop : s.loop th = .shouldRun)
      (hq : SyncQueue.step id s.mMsgQ (.get th (some default) INFINITE) = some q) :
      Moves s (.loop th) { s.gotoLoop th .get with mMsgQ := q }
  | finish {th : Th} (hloop : s.loop th = .shouldRun) : Moves s (.loop th) (s.gotoLoop th .done)
  | log {th : Th} {msg : Msg} (hloop : s.loop th = .log msg) :
      Moves s (.loop th) ({ s with logged := s.logged ++ [msg] }.gotoLoop th .shouldRun)
  | queue {a : SyncQueue.Action Msg Th} {q : SyncQueue.State Msg Th messages}
      (hin : inQueue a = true) (hq : SyncQueue.step id s.mMsgQ a = some q) :
      Moves s (.queue a) (State.receive { s with mMsgQ := q } a)
  | thread {a : AsyncThread.Action Unit Th} {t : AsyncThread.State Unit Th}
      (hadmits : s.admits a = true) (ht : AsyncThread.step s.mThread a = some t) :
      Moves s (.thread a) (s.follow { s with mThread := t } a)

/-- start() and stop() begin from outside the three objects. -/
theorem enter_moves (op : Operation) (hstep : s.enter th op = some s') :
    Moves s (op.action th) s' := by
  obtain ⟨hfree, hstep⟩ := Option.ite_none_right_eq_some.mp hstep
  obtain ⟨q, hq, rfl⟩ := queueStep_eq hstep
  exact .enter op hfree hq

/-- The case analysis of the steps of start() and stop(). -/
theorem nextStep_moves (hcall : s.call th = c) (hstep : nextStep s th c = some s') :
    Moves s (.next th) s' := by
  cases c with
  | none => cases hstep
  | setEOS op =>
    obtain ⟨hidle, hstep⟩ := Option.ite_none_right_eq_some.mp hstep
    obtain ⟨t, ht, rfl⟩ := threadStep_eq hstep
    exact .stored hcall hidle ht
  | thread op =>
    obtain ⟨hnone, hstep⟩ := Option.ite_none_right_eq_some.mp hstep
    obtain rfl := Option.some.inj hstep
    exact .return (by simp [hcall]) (Or.inr ⟨⟨op, hcall⟩, AsyncThread.call_isNone_iff.mp hnone⟩)
  | request =>
    obtain ⟨hidle, hstep⟩ := Option.ite_none_right_eq_some.mp hstep
    obtain rfl := Option.some.inj hstep
    exact .return (fun _ => hidle) (Or.inl hcall)

/-- The case analysis of the steps of the callback. -/
theorem loopStep_moves (hloop : s.loop th = pt) (hstep : loopStep s th pt = some s') :
    Moves s (.loop th) s' := by
  cases pt with
  | outside | get | done => cases hstep
  | shouldRun =>
    simp only [loopStep] at hstep
    split at hstep
    · obtain ⟨q, hq, rfl⟩ := queueStep_eq hstep
      exact .get hloop hq
    · obtain rfl := Option.some.inj hstep
      exact .finish hloop
  | log msg =>
    obtain rfl := Option.some.inj hstep
    exact .log hloop

/-- The case analysis of the steps, done once. -/
theorem step_moves {a : Action Th} (hstep : step s a = some s') : Moves s a s' := by
  cases a with
  | start th => exact enter_moves .start hstep
  | stop th => exact enter_moves .stop hstep
  | request th what =>
    obtain ⟨hfree, hstep⟩ := Option.ite_none_right_eq_some.mp hstep
    obtain ⟨q, hq, rfl⟩ := queueStep_eq hstep
    exact .request hfree hq
  | next th => exact nextStep_moves rfl hstep
  | loop th => exact loopStep_moves rfl hstep
  | queue a =>
    obtain ⟨hin, hstep⟩ := Option.ite_none_right_eq_some.mp hstep
    obtain ⟨s₁, hqueue, rfl⟩ := Option.map_eq_some_iff.mp hstep
    obtain ⟨q, hq, rfl⟩ := queueStep_eq hqueue
    exact .queue hin hq
  | thread a =>
    obtain ⟨hadmits, hstep⟩ := Option.ite_none_right_eq_some.mp hstep
    obtain ⟨s₁, hthread, rfl⟩ := Option.map_eq_some_iff.mp hstep
    obtain ⟨t, ht, rfl⟩ := threadStep_eq hthread
    exact .thread hadmits ht

/-- Seen from mMsgQ, a step is a step of mMsgQ or none. -/
theorem queue_part : Machine.Part (machine Th) (SyncQueue.system Msg Th messages id)
    Machine.anyStep Machine.anyStep (fun s => s.mMsgQ) where
  init s hinit := by
    obtain ⟨now, rfl⟩ := hinit
    exact ⟨now, rfl⟩
  step s a s' _ _ hstep := by
    have hstep : step s a = some s' := hstep
    cases step_moves hstep with
    | enter _ _ hq => exact Or.inr ⟨.setEOS _ _, trivial, hq⟩
    | request _ hq => exact Or.inr ⟨.put _ _ _, trivial, hq⟩
    | get _ hq => exact Or.inr ⟨.get _ _ _, trivial, hq⟩
    | stored | «return» | finish | log => exact Or.inl rfl
    | @queue a q _ hq =>
      obtain ⟨loop, hreceive⟩ := receive_fields { s with mMsgQ := q } a
      rw [hreceive]
      exact Or.inr ⟨a, trivial, hq⟩
    | @thread a t _ ht =>
      obtain ⟨loop, hfollow⟩ := follow_fields s { s with mThread := t } a
      rw [hfollow]
      exact Or.inl rfl

/-- Seen from mThread, a step is a step of mThread or none. -/
theorem thread_part : Machine.Part (machine Th) (AsyncThread.machine Unit Th)
    Machine.anyStep Machine.anyStep (fun s => s.mThread) where
  init s hinit := by
    obtain ⟨now, rfl⟩ := hinit
    rfl
  step s a s' _ _ hstep := by
    have hstep : step s a = some s' := hstep
    cases step_moves hstep with
    | @stored th op _ _ _ ht => exact Or.inr ⟨op.inThread th, trivial, ht⟩
    | enter | request | get | «return» | finish | log => exact Or.inl rfl
    | @queue a q _ hq =>
      obtain ⟨loop, hreceive⟩ := receive_fields { s with mMsgQ := q } a
      rw [hreceive]
      exact Or.inl rfl
    | @thread a t _ ht =>
      obtain ⟨loop, hfollow⟩ := follow_fields s { s with mThread := t } a
      rw [hfollow]
      exact Or.inr ⟨a, trivial, ht⟩

end Parts

section Turns

variable {q q' : SyncQueue.State Msg Th messages} {choice : ℕ}

/-- What a section of mMsgQ does that a thread of a SampleService is in. -/
inductive Turn (q : SyncQueue.State Msg Th messages) (th : Th) :
    ThreadPoint Msg → SyncQueue.State Msg Th messages → Prop
  | refuse {msg : Msg} {point : WaitPoint} (heos : q.mEOS = true) :
      Turn q th (.put msg INFINITE point) (q.return th (.put false))
  | putWait {msg : Msg} {point : WaitPoint} :
      Turn q th (.put msg INFINITE point)
        { q.goto th (.put msg INFINITE (.blocked none)) with mCvFull := q.mCvFull ++ [th] }
  | put {msg : Msg} {point : WaitPoint} (choice : ℕ) (hroom : q.mQueue.isFull = false)
      (heos : q.mEOS = false) :
      Turn q th (.put msg INFINITE point)
        (((q.enqueue id msg).signalEmpty choice).return th (.put true))
  | closed {point : WaitPoint} : Turn q th (.get (some default) INFINITE point)
      (q.return th (.get false (some default)))
  | getWait {point : WaitPoint} : Turn q th (.get (some default) INFINITE point)
      { q.goto th (.get (some default) INFINITE (.blocked none)) with
        mCvEmpty := q.mCvEmpty ++ [th] }
  | get {point : WaitPoint} (choice : ℕ) : Turn q th (.get (some default) INFINITE point)
      (((q.dequeue id (some default) .got).signalFull choice).return th
        (.get true (some q.front)))
  | store {eos : Bool} : Turn q th (.setEOS eos) ({ q with mEOS := eos }.goto th .broadcastFull)
  | broadcastFull : Turn q th .broadcastFull
      ({ q with mCvFull := [], thread := wakeAll q.mCvFull q.thread }.goto th .broadcastEmpty)
  | broadcastEmpty : Turn q th .broadcastEmpty
      ({ q with mCvEmpty := [], thread := wakeAll q.mCvEmpty q.thread }.return th .setEOS)

/-- A section of mMsgQ that a thread of a SampleService is in; none of them has a timeout. -/
theorem Stands.turn (h : Stands c pt (q.thread th))
    (hstep : SyncQueue.step id q (.resume th choice) = some q') :
    Turn q th (q.thread th) q' := by
  have hforever {t : ℕ} {e : Option ℕ}
      (he : ∀ expireTime ∈ e, 0 < INFINITE ∧ expireTime = t + INFINITE.toNat) : e = none := by
    refine Option.eq_none_iff_forall_not_mem.mpr fun expireTime hmem => ?_
    exact absurd (he expireTime hmem).1 (by decide)
  cases SyncQueue.step_moves hstep with
  | call _ _ hother | putLeave _ hother | getLeave _ hother => exact absurd rfl (hother th choice)
  | putFail hth hfails =>
    rw [hth] at h ⊢
    cases h with
    | put msg hpoint =>
      obtain rfl | ⟨-, ⟨-, hms⟩ | heos⟩ := hfails
      · cases hpoint
      · cases hms
      · exact .refuse heos
  | putBlock hth _ _ _ he =>
    rw [hth] at h ⊢
    cases h with
    | put msg hpoint =>
      obtain rfl := hforever he
      exact .putWait
  | put hth _ hroom heos =>
    rw [hth] at h ⊢
    cases h with
    | put msg hpoint => exact .put choice hroom heos
  | getFail hth =>
    rw [hth] at h ⊢
    cases h with
    | get hpoint => exact .closed
  | getBlock hth _ _ _ he =>
    rw [hth] at h ⊢
    cases h with
    | get hpoint =>
      obtain rfl := hforever he
      exact .getWait
  | get hth =>
    rw [hth] at h ⊢
    cases h with
    | get hpoint => exact .get choice
  | storeEOS hth =>
    rw [hth]
    exact .store
  | broadcastFull hth =>
    rw [hth]
    exact .broadcastFull
  | broadcastEmpty hth =>
    rw [hth]
    exact .broadcastEmpty
  | putForceFail hth | putForce hth | evict hth | putForceDispose hth | flushEnd hth
  | flushItem hth | flushDispose hth | flushBroadcast hth =>
    rw [hth] at h
    cases h

/-- The other threads are woken at most. -/
theorem Turn.others (h : Turn q th p q') (hu : u ≠ th) :
    MayWake (q.thread u) (q'.thread u) := by
  have hgoto {thread : Th → ThreadPoint Msg} {p' : ThreadPoint Msg}
      (hwake : MayWake (q.thread u) (thread u)) :
      MayWake (q.thread u) (Function.update thread th p' u) := by
    rwa [Function.update_of_ne hu]
  cases h with
  | refuse | putWait | closed | getWait | store => exact hgoto (Or.inl rfl)
  | put => exact hgoto signalEmpty_wakes
  | get => exact hgoto signalFull_wakes
  | broadcastFull | broadcastEmpty => exact hgoto (wakeAll_wakes ..)

end Turns

end CWrapper.SampleService
