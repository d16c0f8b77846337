import CWrapper.AppStop

/-!
The messages of the program. run() counts them from 0 on in each session, and none of them is
dropped, since mEOS is not set while the worker thread is in run().
-/
namespace CWrapper.App

open Transition SampleService

variable {Th : Type}

def messagesOf (n : ℕ) : List Msg := (List.range n).map fun k => ⟨k, 0, 0, 0⟩

/-- The messages of some sessions, and then `n` messages. -/
def EndsWith (enqueued : List Msg) (n : ℕ) : Prop :=
  ∃ ks : List ℕ, enqueued = ks.flatMap messagesOf ++ messagesOf n

/-- Where the worker thread is in run(), with the message that it has in put(). -/
inductive Counted (enqueued : List Msg) : RunPoint → Option Msg → Prop
  | outside (m : Option Msg) : Counted enqueued .outside m
  | leave (m : Option Msg) : Counted enqueued .leave m
  | shouldRun {n : ℕ} (m : Option Msg) (hends : EndsWith enqueued n) :
      Counted enqueued (.shouldRun n) m
  | callMsleep {n : ℕ} (m : Option Msg) (hends : EndsWith enqueued n) :
      Counted enqueued (.callMsleep n) m
  | msleep {n : ℕ} (m : Option Msg) (hends : EndsWith enqueued n) :
      Counted enqueued (.msleep n) m
  | callRequest {n : ℕ} (m : Option Msg) (hends : EndsWith enqueued n) :
      Counted enqueued (.callRequest n) m
  | putting {n : ℕ} (hends : EndsWith enqueued n) :
      Counted enqueued (.request n) (some ⟨n, 0, 0, 0⟩)
  | put {n : ℕ} (hends : EndsWith enqueued (n + 1)) : Counted enqueued (.request n) none

/-- How many requests run() has made in its session; the one under way counts when its message has
been put in. -/
def requestsMade : RunPoint → Option Msg → Option ℕ
  | .shouldRun n, _ | .callMsleep n, _ | .msleep n, _ | .callRequest n, _ => some n
  | .request n, some _ => some n
  | .request n, none => some (n + 1)
  | .outside, _ | .leave, _ => none

structure Numbered (s : State Th) : Prop where
  sent : ∃ ks : List ℕ, s.mService.mMsgQ.enqueued = ks.flatMap messagesOf
  counted : ∀ th, Counted s.mService.mMsgQ.enqueued (s.run th)
    (message (s.mService.mMsgQ.thread th))

variable {enqueued : List Msg} {n : ℕ}

section Count

theorem messagesOf_succ (n : ℕ) : messagesOf (n + 1) = messagesOf n ++ [⟨n, 0, 0, 0⟩] := by
  simp [messagesOf, List.range_succ]

/-- After the first `n` messages of a session comes the one with the number `n`. -/
theorem EndsWith.next (h : EndsWith enqueued n) :
    EndsWith (enqueued ++ [⟨n, 0, 0, 0⟩]) (n + 1) := by
  obtain ⟨ks, rfl⟩ := h
  exact ⟨ks, by rw [messagesOf_succ, List.append_assoc]⟩

/-- When a session ends after `n` messages, all that was put in is made up of sessions. -/
theorem EndsWith.sent (h : EndsWith enqueued n) :
    ∃ ks : List ℕ, enqueued = ks.flatMap messagesOf := by
  obtain ⟨ks, rfl⟩ := h
  exact ⟨ks ++ [n], by simp⟩

theorem endsWith_zero (h : ∃ ks : List ℕ, enqueued = ks.flatMap messagesOf) :
    EndsWith enqueued 0 := by
  obtain ⟨ks, rfl⟩ := h
  exact ⟨ks, by simp [messagesOf]⟩

theorem Counted.endsWith {pt : RunPoint} {m : Option Msg} (h : Counted enqueued pt m)
    (hn : requestsMade pt m = some n) : EndsWith enqueued n := by
  cases h with
  | outside | leave => cases hn
  | shouldRun _ hends | callMsleep _ hends | msleep _ hends | callRequest _ hends =>
    obtain rfl := Option.some.inj hn
    exact hends
  | putting hends | put hends =>
    obtain rfl := Option.some.inj hn
    exact hends

end Count

variable [DecidableEq Th] {runner : Th} {capacity : ℕ+} {s s' : State Th} {th u : Th}

section Runs

/-- A thread that has a message in put() is in request(), which run() has called. -/
theorem asks_of_message (h : Consistent runner s)
    (hservice : SampleService.Consistent s.mService) {msg : Msg}
    (hmsg : message (s.mService.mMsgQ.thread th) = some msg) : ∃ n, s.run th = .request n := by
  have hcall : s.mService.call th = .request := by
    have hstands := hservice.stands th
    generalize s.mService.mMsgQ.thread th = p at hstands hmsg
    generalize s.mService.loop th = pt at hstands
    generalize s.mService.call th = c at hstands ⊢
    cases hstands with
    | put => rfl
    | free | store | broadcastFull | broadcastEmpty | stored | thread | requested | shouldRun
    | get | log | done => cases hmsg
  have hinside := h.service th
  rw [hcall] at hinside
  cases hinside with
  | request hn => exact ⟨_, hn⟩

theorem follow_run (s' : State Th) (a : WorkerThread.Action Unit Th) :
    (s.follow s' a).run = s'.run ∨ ∃ th pt, (pt = .shouldRun 0 ∨ pt = .outside) ∧
      (s.follow s' a).run = Function.update s'.run th pt := by
  unfold State.follow
  split
  · split
    · exact Or.inr ⟨_, _, Or.inl rfl, rfl⟩
    · exact Or.inr ⟨_, _, Or.inr rfl, rfl⟩
    · split <;> exact Or.inl rfl
  · exact Or.inl rfl

end Runs

section Steps

/-- run() may go to a point at which it has the same count of messages. -/
theorem Numbered.runTo (hi : Numbered s) {pt : RunPoint} (hservice : s'.mService = s.mService)
    (hrun : s'.run = Function.update s.run th pt)
    (hcounted : Counted s.mService.mMsgQ.enqueued pt (message (s.mService.mMsgQ.thread th))) :
    Numbered s' := by
  refine ⟨hservice ▸ hi.sent, fun u => ?_⟩
  rw [hservice, hrun]
  by_cases hu : u = th
  · rw [hu, Function.update_self]
    exact hcounted
  · rw [Function.update_of_ne hu]
    exact hi.counted u

/-- mService goes on, and the message of the worker thread may be put in. -/
theorem Numbered.puts (hi : Numbered s) (h : Consistent runner s)
    (hservice : SampleService.Consistent s.mService)
    (hone : ∀ t u, s.run t ≠ .outside → s.run u ≠ .outside → t = u)
    (heos : ∀ th, s.run th ≠ .outside → s.mService.mMsgQ.mEOS = false)
    (hrun : s'.run = s.run) (hputs : Puts s.mService.mMsgQ s'.mService.mMsgQ) : Numbered s' := by
  cases hputs with
  | none henqueued _ hmessage =>
    refine ⟨henqueued ▸ hi.sent, fun u => ?_⟩
    rw [henqueued, hrun, hmessage]
    exact hi.counted u
  | @put th msg hmsg hself hmessage henqueued =>
    obtain ⟨n, hn⟩ := asks_of_message h hservice hmsg
    have hout : s.run th ≠ .outside := by simp [hn]
    obtain ⟨rfl, hends⟩ : msg = ⟨n, 0, 0, 0⟩ ∧ EndsWith s.mService.mMsgQ.enqueued n := by
      have hcounted := hi.counted th
      rw [hn, hmsg] at hcounted
      cases hcounted with
      | putting hends => exact ⟨rfl, hends⟩
    obtain ⟨-, henqueued⟩ := henqueued.resolve_left (by simp [heos th hout])
    refine ⟨henqueued ▸ hends.next.sent, fun u => ?_⟩
    rw [henqueued, hrun]
    by_cases hu : u = th
    · rw [hu, hn, hself]
      exact .put hends.next
    · have hout' : s.run u = .outside := by
        by_contra hne
        exact hu (hone u th hne hout)
      rw [hout']
      exact .outside _

/-- One step keeps the messages numbered: a put appends the message that its call of request() has
brought. -/
theorem Numbered.step (hi : Numbered s) (h : Consistent runner s)
    (hservice : SampleService.Consistent s.mService)
    (hone : ∀ t u, s.run t ≠ .outside → s.run u ≠ .outside → t = u)
    (heos : ∀ th, s.run th ≠ .outside → s.mService.mMsgQ.mEOS = false)
    (hm : Moves runner capacity s s') : Numbered s' := by
  have hcounted {th : Th} {pt : RunPoint} (hrun : s.run th = pt) :
      Counted s.mService.mMsgQ.enqueued pt (message (s.mService.mMsgQ.thread th)) :=
    hrun ▸ hi.counted th
  cases hm with
  | start | stop | callTimer | callThread | post => exact ⟨hi.sent, hi.counted⟩
  | @«return» op m =>
    obtain ⟨c, started, hleave, -⟩ := leave_fields s op m
    rw [hleave]
    exact ⟨hi.sent, hi.counted⟩
  | @loop a l =>
    obtain ⟨posted, hhandle⟩ := handle_fields { s with mLoop := l } a
    rw [hhandle]
    exact ⟨hi.sent, hi.counted⟩
  | @thread a t =>
    have hsame : (s.follow { s with mThread := t } a).mService = s.mService := by
      obtain ⟨run, result, hfollow⟩ := follow_fields s { s with mThread := t } a
      rw [hfollow]
    obtain hrun | ⟨th, pt, hpt, hrun⟩ := follow_run (s := s) { s with mThread := t } a
    · exact ⟨by rw [hsame]; exact hi.sent, fun u => by rw [hsame, hrun]; exact hi.counted u⟩
    · refine hi.runTo hsame hrun ?_
      obtain rfl | rfl := hpt
      · exact .shouldRun _ (endsWith_zero hi.sent)
      · exact .outside _
  | @callService op _ hcall hv =>
    refine hi.puts h hservice hone heos rfl (hservice.puts (SampleService.step_moves hv) ?_)
    intro th what heq
    cases op <;> cases heq
  | @service a _ hadmits hv =>
    refine hi.puts h hservice hone heos rfl (hservice.puts (SampleService.step_moves hv) ?_)
    intro th what heq
    rw [heq] at hadmits
    cases hadmits
  | @shouldRun th n hrun =>
    refine hi.runTo rfl rfl ?_
    cases hcounted hrun with
    | shouldRun _ hends =>
      split
      · exact .callMsleep _ hends
      · exact .leave _
  | @callMsleep th n t hrun =>
    refine hi.runTo rfl (Eq.refl (Function.update s.run th (.msleep n))) ?_
    cases hcounted hrun with
    | callMsleep _ hends => exact .msleep _ hends
  | @slept th n hrun =>
    refine hi.runTo rfl rfl ?_
    cases hcounted hrun with
    | msleep _ hends => exact .callRequest _ hends
  | @callRequest th n v hrun hv =>
    obtain ⟨-, hv⟩ := Option.ite_none_right_eq_some.mp hv
    obtain ⟨q, hq, rfl⟩ := queueStep_eq hv
    have hq : s.mService.mMsgQ.call th (.put ⟨n, 0, 0, 0⟩ SyncQueue.INFINITE .enter) = some q := hq
    obtain ⟨-, rfl⟩ := SyncQueue.call_eq hq
    refine ⟨hi.sent, fun u => ?_⟩
    by_cases hu : u = th
    · simp only [State.gotoRun, SyncQueue.State.goto, hu, Function.update_self]
      cases hcounted hrun with
      | callRequest _ hends => exact .putting hends
    · simp only [State.gotoRun, SyncQueue.State.goto, Function.update_of_ne hu]
      exact hi.counted u
  | @requested th n hrun hnone =>
    refine hi.runTo rfl rfl ?_
    have hno : message (s.mService.mMsgQ.thread th) = none := by
      have hstands := hservice.stands th
      rw [hnone] at hstands
      generalize s.mService.mMsgQ.thread th = p at hstands ⊢
      generalize s.mService.loop th = pt at hstands
      cases hstands <;> rfl
    have hput := hcounted hrun
    rw [hno] at hput
    cases hput with
    | put hends => exact .shouldRun _ hends

/-- By induction over the steps, what has been put in is made up of whole sessions and the one under
way. -/
theorem numbered_reachable (hs : (machine runner capacity).Reachable Machine.anyStep s) :
    Numbered s := by
  refine Machine.Invariant.reachable (I := Numbered)
    (J := (machine runner capacity).Reachable Machine.anyStep) ⟨?_, ?_⟩ (fun s hs => hs) hs
  · intro s hinit
    obtain ⟨now, -, rfl⟩ := hinit
    exact ⟨⟨[], rfl⟩, fun _ => .outside _⟩
  · intro s a s' _ hs hstep hi
    have h := consistent_reachable hs
    exact hi.step h (SampleService.consistent_reachable (service_part.reachable hs))
      (fun t u => one_run hs) (fun th => (sessions_reachable hs).eos h) (step_moves hstep)

end Steps

section Order

/-- What the callback has logged, what it has in hand and what mMsgQ holds are the messages 0, 1, 2
and so on of the sessions of the App, with none left out; where run() has made `n` requests in its
session, the `n` messages are the last ones. While the worker thread is in run(), mEOS is not set:
request() waits for room at most. -/
theorem messages_numbered (hs : (machine runner capacity).Reachable Machine.anyStep s) :
    (∃ (ks : List ℕ) (msgs : List Msg), InHand s.mService.loop msgs ∧
      s.mService.logged ++ msgs ++ s.mService.mMsgQ.mQueue.contents = ks.flatMap messagesOf ∧
      ∀ th n, requestsMade (s.run th) (message (s.mService.mMsgQ.thread th)) = some n →
        ks.getLast? = some n) ∧
    ∀ th, s.run th ≠ .outside → s.mService.mMsgQ.mEOS = false := by
  have h := consistent_reachable hs
  have hi := numbered_reachable hs
  refine ⟨?_, fun th => (sessions_reachable hs).eos h⟩
  have hservice := service_part.reachable hs
  obtain ⟨msgs, hhand, htaken⟩ := taken_reachable hservice
  have horder : s.mService.mMsgQ.enqueued =
      s.mService.logged ++ msgs ++ s.mService.mMsgQ.mQueue.contents := by
    rw [(SyncQueue.lawful_reachable (SampleService.queue_part.reachable hservice)).order, htaken]
  have hrunning {u : Th} {n : ℕ}
      (hn : requestsMade (s.run u) (message (s.mService.mMsgQ.thread u)) = some n) :
      s.run u ≠ .outside := by
    intro hout
    rw [hout] at hn
    cases hn
  by_cases hcounts :
      ∃ th n, requestsMade (s.run th) (message (s.mService.mMsgQ.thread th)) = some n
  · obtain ⟨th, n, hn⟩ := hcounts
    obtain ⟨ks, hks⟩ := (hi.counted th).endsWith hn
    refine ⟨ks ++ [n], msgs, hhand, ?_, fun u k hk => ?_⟩
    · rw [← horder, hks]
      simp
    · obtain rfl := one_run hs (hrunning hn) (hrunning hk)
      obtain rfl := Option.some.inj (hn.symm.trans hk)
      simp
  · obtain ⟨ks, hks⟩ := hi.sent
    exact ⟨ks, msgs, hhand, horder ▸ hks, fun u k hk => absurd ⟨u, k, hk⟩ hcounts⟩

theorem messages_numbered_logged : logged.mService.logged = [⟨0, 0, 0, 0⟩] ∧
    logged.run 2 = .shouldRun 1 ∧ logged.mService.mMsgQ.mEOS = false := by
  have hrun : logged.run 2 = .shouldRun 1 := by decide +kernel
  exact ⟨by decide +kernel, hrun, (messages_numbered logged_reachable).2 2 (by simp [hrun])⟩

end Order

end CWrapper.App
