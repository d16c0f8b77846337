import CWrapper.AsyncEntries
import CWrapper.SampleServiceProgress
import CWrapper.SampleServiceQueue

/-!
A thread is in mThread of a SampleService where start() or stop() has called it. The thread of a
session is made in start(), and when stop() of mThread has returned, there is none.
-/
namespace CWrapper.SampleService

open Transition

variable {Th : Type}

/-- The point of a thread in a function, with its point in mThread. -/
inductive Calls : Call → AsyncThread.Call Unit → Prop
  | outside (c : Call) : Calls c .none
  | start {c : AsyncThread.Call Unit} (hc : c.isStart = true) : Calls (.thread .start) c
  | stop {c : AsyncThread.Call Unit} (hc : c.isStop = true) : Calls (.thread .stop) c

structure Entries (s : State Th) : Prop where
  calls : ∀ th, Calls (s.call th) (s.mThread.call th)
  awake : ∀ th pt, s.mThread.mThreadEngine.call th ≠ .msleep pt

theorem Calls.along {c : Call} {d d' : AsyncThread.Call Unit} (h : Calls c d)
    (halong : d.Along d') : Calls c d' := by
  cases halong with
  | same => exact h
  | start hd hd' =>
    cases h with
    | outside => cases hd
    | start => exact .start hd'
    | stop hc =>
      rw [AsyncThread.Call.not_isStop hd] at hc
      cases hc
  | stop hd hd' =>
    cases h with
    | outside => cases hd
    | start hc =>
      rw [AsyncThread.Call.not_isStop hc] at hd
      cases hd
    | stop => exact .stop hd'

theorem Calls.none {c : Call} {d : AsyncThread.Call Unit} (h : Calls c d)
    (hc : ∀ op, c ≠ .thread op) : d = .none := by
  cases h with
  | outside => rfl
  | start | stop => exact absurd rfl (hc _)

variable [DecidableEq Th] {s s' : State Th} {th u : Th} {a : Action Th}

/-- A thread moves along the function that it has entered. -/
theorem Entries.step (h : Entries s)
    (hthread : (AsyncThread.machine Unit Th).Reachable Machine.anyStep s.mThread)
    (hm : Moves s a s') : Entries s' := by
  have hgoto {th : Th} {c : Call} (hself : Calls c (s.mThread.call th)) (u : Th) :
      Calls ((s.goto th c).call u) (s.mThread.call u) := by
    by_cases hu : u = th
    · simp only [State.goto, hu, Function.update_self]
      exact hself
    · simp only [State.goto, Function.update_of_ne hu]
      exact h.calls u
  have hbegin {th : Th} (hfree : s.isFree th = true) (c : Call) :
      Calls c (s.mThread.call th) := by
    rw [(AsyncThread.isFree_iff.mp (isFree_iff.mp hfree).2).1]
    exact .outside c
  cases hm with
  | enter op hfree => exact ⟨hgoto (hbegin hfree _), h.awake⟩
  | request hfree => exact ⟨hgoto (hbegin hfree _), h.awake⟩
  | @stored th op t hcall hidle ht =>
    have hnone : s.mThread.call th = .none := (h.calls th).none (by simp [hcall])
    refine ⟨fun u => ?_, AsyncThread.step_not_sleeping hthread ?_ ht h.awake⟩
    · obtain halong | ⟨heq, -⟩ | ⟨⟨type, heq⟩, hc⟩ | ⟨heq, hc⟩ :=
        AsyncThread.step_call hthread ht u
      · by_cases hu : u = th
        · rw [hu, hnone] at halong
          rw [hu, halong.none_iff.mpr rfl]
          exact .outside _
        · simp only [State.goto, Function.update_of_ne hu]
          exact (h.calls u).along halong
      · cases op <;> cases heq
      · cases op <;> cases heq
        simp only [State.goto, Function.update_self]
        exact .start hc
      · cases op <;> cases heq
        simp only [State.goto, Function.update_self]
        exact .stop hc
    · cases op <;> simp [Operation.inThread]
  | @«return» th hidle hcall =>
    refine ⟨hgoto ?_, h.awake⟩
    obtain hcall | ⟨-, hnone⟩ := hcall
    · rw [(h.calls th).none (by simp [hcall])]
      exact .outside _
    · rw [hnone]
      exact .outside _
  | get | finish | log => exact ⟨h.calls, h.awake⟩
  | @queue a q =>
    obtain ⟨loop, hreceive⟩ := receive_fields { s with mMsgQ := q } a
    rw [hreceive]
    exact ⟨h.calls, h.awake⟩
  | @thread a t hadmits ht =>
    obtain ⟨loop, hfollow⟩ := follow_fields s { s with mThread := t } a
    rw [hfollow]
    refine ⟨fun u => ?_, AsyncThread.step_not_sleeping hthread ?_ ht h.awake⟩
    · obtain halong | ⟨-, hnone⟩ | ⟨⟨type, rfl⟩, -⟩ | ⟨rfl, -⟩ :=
        AsyncThread.step_call hthread ht u
      · exact (h.calls u).along halong
      · show Calls (s.call u) (t.call u)
        rw [hnone]
        exact .outside _
      · cases hadmits
      · cases hadmits
    · intro th heq
      rw [heq] at hadmits
      cases hadmits

/-- The points in a function and in mThread belong together, in every reachable state. -/
theorem entries_reachable (hs : (machine Th).Reachable Machine.anyStep s) : Entries s := by
  refine Machine.Invariant.reachable (I := Entries) ⟨?_, ?_⟩
    (fun s hs => thread_part.reachable hs) hs
  · intro s hinit
    obtain ⟨now, rfl⟩ := hinit
    exact ⟨fun _ => .outside _, fun _ _ hcall => by cases hcall⟩
  · intro s a s' _ hthread hstep h
    exact h.step hthread (step_moves hstep)

section Sessions

/-- A thread that is in no function, and not in taskEntry, may call one. -/
theorem isFree_of_none (hs : (machine Th).Reachable Machine.anyStep s)
    (hcall : s.call th = .none) (htask : s.mThread.mThreadEngine.task th = .none) :
    s.isFree th = true := by
  have h := entries_reachable hs
  have hnone : s.mThread.call th = .none := (h.calls th).none (by simp [hcall])
  have hengine := AsyncThread.engine_none (thread_part.reachable hs) (Or.inl hnone) (h.awake th)
  exact isFree_iff.mpr ⟨hcall, AsyncThread.isFree_iff.mpr ⟨hnone, hengine, htask⟩⟩

/-- A thread that comes to be in taskEntry has been created in start(). -/
theorem Moves.created (hm : Moves s a s') (hs : (machine Th).Reachable Machine.anyStep s)
    (hu : s.mThread.mThreadEngine.task u = .none)
    (hu' : s'.mThread.mThreadEngine.task u ≠ .none) :
    ∃ th callback, a = .thread (.engine (.resume th (.thread u))) ∧ s.call th = .thread .start ∧
      s'.call = s.call ∧ s'.mThread.call th = .starting callback false := by
  cases hm with
  | enter | request | «return» | get | finish | log => exact absurd hu hu'
  | @stored th op t hcall hidle ht =>
    obtain hnone | ⟨th', heq⟩ := AsyncThread.step_tasks ht hu
    · exact absurd hnone hu'
    · cases op <;> cases heq
  | @queue b q =>
    obtain ⟨loop, hreceive⟩ := receive_fields { s with mMsgQ := q } b
    rw [hreceive] at hu'
    exact absurd hu hu'
  | @thread b t hadmits ht =>
    obtain ⟨loop, hfollow⟩ := follow_fields s { s with mThread := t } b
    rw [hfollow] at hu' ⊢
    obtain ⟨th, callback, rfl, hcall, hcalls⟩ :=
      AsyncThread.step_created (thread_part.reachable hs) ht hu hu'
    have hstart : s.call th = .thread .start := by
      have hcalls := (entries_reachable hs).calls th
      rw [hcall] at hcalls
      generalize s.call th = c at hcalls ⊢
      cases hcalls with
      | start => rfl
      | stop hc => cases hc
    exact ⟨th, callback, rfl, hstart, rfl, (congrFun hcalls th).trans hcall⟩

def Action.enters : Action Th → Bool
  | .start _ | .stop _ | .request _ _ => true
  | _ => false

/-- A thread goes on in its function, or leaves it. -/
theorem Moves.call (hm : Moves s a s') (ha : a.enters = false) (u : Th) :
    s'.call u = s.call u ∨
      s'.call u = .none ∧ (s.call u = .request ∨
        (∃ op, s.call u = .thread op) ∧ s.mThread.call u = .none) ∨
      ∃ op, s.call u = .setEOS op ∧ s'.call u = .thread op ∧ s.mMsgQ.thread u = .idle ∧
        (op = .stop → (s'.mThread.call u).isStop = true) := by
  cases hm with
  | enter op => cases op <;> cases ha
  | request => cases ha
  | @stored th op t hcall hidle ht =>
    by_cases hu : u = th
    · subst hu
      refine Or.inr (Or.inr ⟨op, hcall, Function.update_self .., hidle, fun hstop => ?_⟩)
      subst hstop
      obtain ⟨-, ht⟩ := Option.ite_none_right_eq_some.mp ht
      obtain rfl := Option.some.inj ht
      simp [AsyncThread.State.goto, AsyncThread.Call.isStop]
    · exact Or.inl (Function.update_of_ne hu ..)
  | @«return» th hidle hcall =>
    by_cases hu : u = th
    · exact Or.inr (Or.inl ⟨by simp [State.goto, hu], hu ▸ hcall⟩)
    · exact Or.inl (Function.update_of_ne hu ..)
  | get | finish | log => exact Or.inl rfl
  | @queue b q =>
    obtain ⟨loop, hreceive⟩ := receive_fields { s with mMsgQ := q } b
    exact Or.inl (by rw [hreceive])
  | @thread b t =>
    obtain ⟨loop, hfollow⟩ := follow_fields s { s with mThread := t } b
    exact Or.inl (by rw [hfollow])

/-- A thread goes on in mThread, or leaves it, or start() or stop() calls it there. -/
theorem Moves.inThread (hm : Moves s a s') (hs : (machine Th).Reachable Machine.anyStep s)
    (u : Th) : (s.mThread.call u).Along (s'.mThread.call u) ∨ s'.mThread.call u = .none ∨
      ∃ op, s.call u = .setEOS op := by
  have hthread := thread_part.reachable hs
  cases hm with
  | enter | request | «return» | get | finish | log => exact Or.inl (.same _)
  | @stored th op t hcall hidle ht =>
    by_cases hu : u = th
    · exact Or.inr (Or.inr ⟨op, hu ▸ hcall⟩)
    · obtain halong | ⟨heq, -⟩ | ⟨⟨type, heq⟩, -⟩ | ⟨heq, -⟩ :=
        AsyncThread.step_call hthread ht u
      · exact Or.inl halong
      · cases op <;> cases heq
      · cases op <;> cases heq
        exact absurd rfl hu
      · cases op <;> cases heq
        exact absurd rfl hu
  | @queue b q =>
    obtain ⟨loop, hreceive⟩ := receive_fields { s with mMsgQ := q } b
    rw [hreceive]
    exact Or.inl (.same _)
  | @thread b t hadmits ht =>
    obtain ⟨loop, hfollow⟩ := follow_fields s { s with mThread := t } b
    rw [hfollow]
    obtain halong | ⟨-, hnone⟩ | ⟨⟨type, rfl⟩, -⟩ | ⟨rfl, -⟩ :=
      AsyncThread.step_call hthread ht u
    · exact Or.inl halong
    · exact Or.inr (Or.inl hnone)
    · cases hadmits
    · cases hadmits

/-- A thread that is in stop() of mThread stays there, or nobody is in taskEntry. -/
theorem Moves.stops (hm : Moves s a s') (hs : (machine Th).Reachable Machine.anyStep s)
    (hstop : (s.mThread.call th).isStop = true) :
    (s'.mThread.call th).isStop = true ∨ ∀ u, s'.mThread.mThreadEngine.task u = .none := by
  have hends {b : AsyncThread.Action Unit Th} {t : AsyncThread.State Unit Th}
      (ht : AsyncThread.step s.mThread b = some t) :
      (t.call th).isStop = true ∨ ∀ u, t.mThreadEngine.task u = .none := by
    obtain hstop | ⟨hnobody, hsame⟩ := AsyncThread.stop_ends (thread_part.reachable hs) ht hstop
    · exact Or.inl hstop
    · exact Or.inr fun u => by rw [hsame, hnobody u]
  cases hm with
  | enter | request | «return» | get | finish | log => exact Or.inl hstop
  | stored _ _ ht => exact hends ht
  | @queue b q =>
    obtain ⟨loop, hreceive⟩ := receive_fields { s with mMsgQ := q } b
    rw [hreceive]
    exact Or.inl hstop
  | @thread b t hadmits ht =>
    obtain ⟨loop, hfollow⟩ := follow_fields s { s with mThread := t } b
    rw [hfollow]
    exact hends ht

end Sessions

end CWrapper.SampleService
