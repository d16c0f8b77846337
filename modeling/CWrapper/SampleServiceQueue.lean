import CWrapper.SampleServiceRuns

/-!
What a step of a SampleService does in mMsgQ: who stores mEOS there, and which message comes in.
-/
namespace CWrapper.SampleService

open Transition SyncQueue

variable {Th : Type} {q q' : SyncQueue.State Msg Th messages} {c : Call} {pt : LoopPoint}
  {p p' : ThreadPoint Msg}

def message : ThreadPoint Msg → Option Msg
  | .put msg _ _ => some msg
  | _ => none

/-- mEOS is left alone, and so are the threads that are about to store it. -/
def KeepsEOS (q q' : SyncQueue.State Msg Th messages) : Prop :=
  q'.mEOS = q.mEOS ∧ ∀ u eos, q.thread u = .setEOS eos → q'.thread u = .setEOS eos

/-- Nothing is put in, and a thread in get() may take something out, or one thread leaves put(); it
has put its message in, or mEOS is set. -/
inductive Puts (q q' : SyncQueue.State Msg Th messages) : Prop
  | none (henqueued : q'.enqueued = q.enqueued)
      (hqueue : q'.mQueue = q.mQueue ∨
        ∃ th point, q.thread th = .get (some default) INFINITE point)
      (hmessage : ∀ u, message (q'.thread u) = message (q.thread u))
  | put {th : Th} {msg : Msg} (hmsg : message (q.thread th) = some msg)
      (hself : message (q'.thread th) = .none)
      (hmessage : ∀ u, u ≠ th → message (q'.thread u) = message (q.thread u))
      (henqueued : q.mEOS = true ∨
        q.mQueue.isFull = false ∧ q'.enqueued = q.enqueued ++ [msg])

theorem setEOS_of_mayWake (h : MayWake p p') {eos : Bool} (hp : p = .setEOS eos) :
    p' = .setEOS eos := by
  obtain rfl | rfl := h
  · exact hp
  · rw [hp]
    rfl

theorem message_of_mayWake (h : MayWake p p') : message p' = message p := by
  obtain rfl | rfl := h
  · rfl
  · cases p <;> rfl

variable [DecidableEq Th] {s s' : State Th} {a : Action Th} {th : Th}

inductive QueueUse (s : State Th) (a : Action Th) (q' : SyncQueue.State Msg Th messages) : Prop
  | same (hq : q' = s.mMsgQ)
  | tick (d : ℕ) (hq : q' = { s.mMsgQ with now := s.mMsgQ.now + d })
  | call {th : Th} {p : ThreadPoint Msg} (hidle : s.mMsgQ.thread th = .idle)
      (hp : message p = none ∨ ∃ what, a = .request th what ∧ message p = some ⟨what, 0, 0, 0⟩)
      (hq : q' = s.mMsgQ.goto th p)
  | turn {th : Th} (h : Turn s.mMsgQ th (s.mMsgQ.thread th) q')
  | leave (th : Th) (timedOut : Bool) (hq : q' = s.mMsgQ.leaveWait th timedOut)

section Moves

theorem QueueUse.of_call
    (hp : message p = none ∨ ∃ what, a = .request th what ∧ message p = some ⟨what, 0, 0, 0⟩)
    (hq : s.mMsgQ.call th p = some q') : QueueUse s a q' := by
  obtain ⟨hidle, rfl⟩ := SyncQueue.call_eq hq
  exact .call hidle hp rfl

/-- The steps of mMsgQ in a SampleService, by what they do to its messages. -/
theorem Consistent.queueUse (h : Consistent s) (hm : Moves s a s') : QueueUse s a s'.mMsgQ := by
  cases hm with
  | enter _ _ hq => exact .of_call (Or.inl rfl) hq
  | request _ hq => exact .of_call (Or.inr ⟨_, rfl, rfl⟩) hq
  | get _ hq => exact .of_call (Or.inl rfl) hq
  | stored | «return» | finish | log => exact .same rfl
  | @thread a t =>
    obtain ⟨loop, hfollow⟩ := follow_fields s { s with mThread := t } a
    exact .same (by rw [hfollow])
  | @queue a q hin hq =>
    obtain ⟨loop, hreceive⟩ := receive_fields { s with mMsgQ := q } a
    rw [hreceive]
    cases a with
    | put | get | putForce | flush | setEOS => cases hin
    | tick d => exact .tick d (Option.some.inj hq).symm
    | resume th choice => exact .turn ((h.stands th).turn hq)
    | spurious th =>
      simp only [SyncQueue.step] at hq
      split at hq
      · exact .leave th false (Option.some.inj hq).symm
      · exact .leave th false (Option.some.inj hq).symm
      · cases hq
    | timeout th =>
      simp only [SyncQueue.step] at hq
      split at hq
      · obtain ⟨-, hq⟩ := Option.ite_none_right_eq_some.mp hq
        exact .leave th true (Option.some.inj hq).symm
      · obtain ⟨-, hq⟩ := Option.ite_none_right_eq_some.mp hq
        exact .leave th true (Option.some.inj hq).symm
      · cases hq

end Moves

section Eos

theorem Turn.eos (h : Turn q th p q') (hp : q.thread th = p) (hst : Stands c pt p) :
    KeepsEOS q q' ∨ ∃ op, c = .setEOS op ∧ q'.mEOS = op.eos := by
  have hkeeps (hne : ∀ eos, p ≠ .setEOS eos) (heos : q'.mEOS = q.mEOS) :
      KeepsEOS q q' ∨ ∃ op, c = .setEOS op ∧ q'.mEOS = op.eos := by
    refine Or.inl ⟨heos, fun u eos hu => ?_⟩
    by_cases heq : u = th
    · exact absurd (hp.symm.trans (heq ▸ hu)) (hne eos)
    · exact setEOS_of_mayWake (h.others heq) hu
  cases h with
  | refuse | putWait | closed | getWait | broadcastFull | broadcastEmpty =>
    exact hkeeps (by simp) rfl
  | put => exact hkeeps (by simp) signalEmpty_same.2.2.2.2.1
  | get => exact hkeeps (by simp) signalFull_same.2.2.2.2.1
  | store =>
    cases hst with
    | store op => exact Or.inr ⟨op, rfl, rfl⟩

theorem call_keepsEOS (hidle : q.thread th = .idle) : KeepsEOS q (q.goto th p) := by
  refine ⟨rfl, fun u eos hu => ?_⟩
  have hne : u ≠ th := by
    intro heq
    rw [heq, hidle] at hu
    cases hu
  exact (Function.update_of_ne hne ..).trans hu

theorem leaveWait_keepsEOS (th : Th) (timedOut : Bool) :
    KeepsEOS q (q.leaveWait th timedOut) := by
  refine ⟨rfl, fun u eos hu => ?_⟩
  by_cases heq : u = th
  · rw [heq] at hu
    simp [SyncQueue.State.leaveWait, heq, hu, ThreadPoint.wake]
  · exact (Function.update_of_ne heq ..).trans hu

/-- A thread in start() or stop() alone stores mEOS. -/
theorem Consistent.eos (h : Consistent s) (hm : Moves s a s') :
    KeepsEOS s.mMsgQ s'.mMsgQ ∨ ∃ th op, s.call th = .setEOS op ∧ s'.mMsgQ.mEOS = op.eos := by
  cases h.queueUse hm with
  | same hq | tick _ hq => exact Or.inl (by rw [hq]; exact ⟨rfl, fun _ _ hu => hu⟩)
  | call hidle _ hq => exact Or.inl (hq ▸ call_keepsEOS hidle)
  | @turn th hturn =>
    obtain hkeeps | ⟨op, hcall, heos⟩ := hturn.eos rfl (h.stands th)
    · exact Or.inl hkeeps
    · exact Or.inr ⟨th, op, hcall, heos⟩
  | leave th timedOut hq => exact Or.inl (hq ▸ leaveWait_keepsEOS th timedOut)

end Eos

section Messages

theorem Turn.message (h : Turn q th p q') (hp : q.thread th = p) :
    q'.enqueued = q.enqueued ∧ message (q'.thread th) = message p ∧
        (q'.mQueue = q.mQueue ∨ ∃ point, p = .get (some default) INFINITE point) ∨
      ∃ msg, message p = some msg ∧ message (q'.thread th) = none ∧
        (q.mEOS = true ∨ q.mQueue.isFull = false ∧ q'.enqueued = q.enqueued ++ [msg]) := by
  have hself (thread : Th → ThreadPoint Msg) (p' : ThreadPoint Msg) :
      SampleService.message (Function.update thread th p' th) = SampleService.message p' := by
    rw [Function.update_self]
  cases h with
  | refuse heos => exact Or.inr ⟨_, rfl, hself .., Or.inl heos⟩
  | putWait | closed | getWait | store | broadcastFull | broadcastEmpty =>
    exact Or.inl ⟨rfl, hself .., Or.inl rfl⟩
  | put choice hroom =>
    refine Or.inr ⟨_, rfl, hself .., Or.inr ⟨hroom, ?_⟩⟩
    show (State.signalEmpty _ choice).enqueued = _
    rw [signalEmpty_same.2.1]
    rfl
  | get choice =>
    refine Or.inl ⟨?_, hself .., Or.inr ⟨_, rfl⟩⟩
    show (State.signalFull _ choice).enqueued = _
    rw [signalFull_same.2.1]
    rfl

/-- A step other than the beginning of request() puts nothing in, or one thread leaves put(). -/
theorem Consistent.puts (h : Consistent s) (hm : Moves s a s')
    (hnot : ∀ th what, a ≠ .request th what) : Puts s.mMsgQ s'.mMsgQ := by
  cases h.queueUse hm with
  | same hq | tick _ hq => exact .none (by rw [hq]) (Or.inl (by rw [hq])) fun u => by rw [hq]
  | @call th p hidle hp hq =>
    have hp : message p = none := hp.resolve_right fun ⟨what, heq, _⟩ => hnot _ _ heq
    refine .none (by rw [hq]; rfl) (Or.inl (by rw [hq]; rfl)) fun u => ?_
    rw [hq]
    by_cases hu : u = th
    · simp only [SyncQueue.State.goto, hu, Function.update_self]
      rw [hp, hidle]
      rfl
    · simp only [SyncQueue.State.goto, Function.update_of_ne hu]
  | @turn th hturn =>
    have hothers (u : Th) (hu : u ≠ th) := message_of_mayWake (hturn.others hu)
    obtain ⟨henqueued, hself, hqueue⟩ | ⟨msg, hmsg, hself, henqueued⟩ := hturn.message rfl
    · refine .none henqueued (hqueue.imp_right fun hget => ⟨th, hget⟩) fun u => ?_
      by_cases hu : u = th
      · rw [hu, hself]
      · exact hothers u hu
    · exact .put hmsg hself hothers henqueued
  | leave th timedOut hq =>
    refine .none (by rw [hq]; rfl) (Or.inl (by rw [hq]; rfl)) fun u => ?_
    rw [hq]
    by_cases hu : u = th
    · simp only [SyncQueue.State.leaveWait, hu, Function.update_self]
      cases s.mMsgQ.thread th <;> rfl
    · simp only [SyncQueue.State.leaveWait, Function.update_of_ne hu]

end Messages

end CWrapper.SampleService
