import CWrapper.SampleServiceProgress

/-!
The messages of a SampleService. What request() has put is what the callback has logged, what it has
in hand, and what is in the queue, in this order and over all sessions.
-/
namespace CWrapper.SampleService

open Transition SyncQueue

variable {Th : Type} {s s' : State Th}

/-- The messages that the callback has got and has not logged. -/
inductive InHand (loop : Th → LoopPoint) : List Msg → Prop
  | none (hno : ∀ th msg, loop th ≠ .log msg) : InHand loop []
  | one {th : Th} {msg : Msg} (hth : loop th = .log msg) : InHand loop [msg]

/-- What has left mMsgQ has been logged, or is in hand. -/
def Taken (s : State Th) : Prop :=
  ∃ msgs, InHand s.loop msgs ∧ s.mMsgQ.removed.map Prod.snd = s.logged ++ msgs

/-- Steps that take nothing out of mMsgQ. -/
theorem Taken.keep (h : Taken s) (hloop : s'.loop = s.loop)
    (hremoved : s'.mMsgQ.removed = s.mMsgQ.removed) (hlogged : s'.logged = s.logged) :
    Taken s' := by
  obtain ⟨msgs, hhand, htaken⟩ := h
  exact ⟨msgs, hloop ▸ hhand, by rw [hremoved, htaken, hlogged]⟩

section Hand

variable {loop : Th → LoopPoint} {msgs : List Msg} {th : Th} {msg : Msg} {pt : LoopPoint}

theorem InHand.of_log (h : InHand loop msgs) (hth : loop th = .log msg)
    (hone : ∀ u, loop u ≠ .outside → u = th) : msgs = [msg] := by
  cases h with
  | none hno => exact absurd hth (hno th msg)
  | @one u msg' hu =>
    obtain rfl := hone u (by simp [hu])
    rw [hth] at hu
    cases hu
    rfl

/-- Where another thread would have a message in hand, nobody has. -/
theorem InHand.of_other (h : InHand loop msgs) (hth : ∀ msg, loop th ≠ .log msg)
    (hone : ∀ u, loop u ≠ .outside → u = th) : msgs = [] := by
  cases h with
  | none => rfl
  | @one u msg hu =>
    obtain rfl := hone u (by simp [hu])
    exact absurd hu (hth msg)

variable [DecidableEq Th]

theorem InHand.update (h : InHand loop msgs) (hth : ∀ msg, loop th ≠ .log msg)
    (hpt : ∀ msg, pt ≠ .log msg) : InHand (Function.update loop th pt) msgs := by
  cases h with
  | none hno =>
    refine .none fun u msg => ?_
    by_cases hu : u = th
    · rw [hu, Function.update_self]
      exact hpt msg
    · rw [Function.update_of_ne hu]
      exact hno u msg
  | @one u msg hu =>
    have hne : u ≠ th := by
      intro heq
      exact hth msg (heq ▸ hu)
    exact .one ((Function.update_of_ne hne ..).trans hu)

end Hand

variable [DecidableEq Th] {th : Th}

section Steps

theorem Taken.gotoLoop (h : Taken s) {pt : LoopPoint} (hth : ∀ msg, s.loop th ≠ .log msg)
    (hpt : ∀ msg, pt ≠ .log msg) (hloop : s'.loop = Function.update s.loop th pt)
    (hremoved : s'.mMsgQ.removed = s.mMsgQ.removed) (hlogged : s'.logged = s.logged) :
    Taken s' := by
  obtain ⟨msgs, hhand, htaken⟩ := h
  exact ⟨msgs, hloop ▸ hhand.update hth hpt, by rw [hremoved, htaken, hlogged]⟩

/-- The beginning of a call moves no item. -/
theorem call_same {p : ThreadPoint Msg} {q : SyncQueue.State Msg Th messages}
    (hq : s.mMsgQ.call th p = some q) :
    q.removed = s.mMsgQ.removed ∧ q.enqueued = s.mMsgQ.enqueued := by
  obtain ⟨-, rfl⟩ := SyncQueue.call_eq hq
  exact ⟨rfl, rfl⟩

/-- A message leaves mMsgQ by the worker thread only, which logs it before it gets the next one. -/
theorem Taken.step (h : Taken s) (hcons : Consistent s)
    (hone : ∀ th u, s.loop th ≠ .outside → s.loop u ≠ .outside → u = th) {a : Action Th}
    (hm : Moves s a s') :
    Taken s' := by
  cases hm with
  | enter op hfree hq => exact h.keep rfl (call_same hq).1 rfl
  | request hfree hq => exact h.keep rfl (call_same hq).1 rfl
  | stored | «return» => exact h.keep rfl rfl rfl
  | get hloop hq =>
    exact h.gotoLoop (by simp [hloop]) (by simp) rfl (call_same hq).1 rfl
  | finish hloop => exact h.gotoLoop (by simp [hloop]) (by simp) rfl rfl rfl
  | @log th msg hloop =>
    obtain ⟨msgs, hhand, htaken⟩ := h
    have hself (u : Th) (hu : s.loop u ≠ .outside) : u = th := hone th u (by simp [hloop]) hu
    obtain rfl := hhand.of_log hloop hself
    refine ⟨[], .none fun u msg' => ?_, by rw [List.append_nil]; exact htaken⟩
    by_cases hu : u = th
    · simp [State.gotoLoop, hu]
    · simp only [State.gotoLoop, Function.update_of_ne hu]
      exact fun hlog => hu (hself u (by simp [hlog]))
  | @queue a q hin hq =>
    have hmoves := hcons.queue_moves hin hq
    generalize State.receive { s with mMsgQ := q } a = s' at hmoves ⊢
    cases hmoves with
    | stay hremoved => exact h.keep rfl hremoved rfl
    | closed hloop hremoved => exact h.gotoLoop (by simp [hloop]) (by simp) rfl hremoved rfl
    | @got th msg hloop hremoved =>
      obtain ⟨msgs, hhand, htaken⟩ := h
      obtain rfl := hhand.of_other (by simp [hloop]) (fun u hu => hone th u (by simp [hloop]) hu)
      have hhand' : InHand (Function.update s.loop th (.log msg)) [msg] :=
        .one (Function.update_self ..)
      refine ⟨[msg], hhand', ?_⟩
      show q.removed.map Prod.snd = s.logged ++ [msg]
      rw [hremoved, List.map_append, htaken, List.append_nil]
      rfl
  | @thread a t hadmits ht =>
    cases a with
    | start | stop | resume | engine => exact h.keep rfl rfl rfl
    | run th =>
      simp only [State.follow]
      split
      · rename_i hrun
        have hout : s.loop th = .outside := by
          by_contra hne
          have hinside := (hcons.inside th).mp hne
          rw [hrun] at hinside
          cases hinside
        exact h.gotoLoop (by simp [hout]) (by simp) rfl rfl rfl
      · rename_i hrun
        have hdone : s.loop th = .done := by simpa [State.admits, hrun] using hadmits
        exact h.gotoLoop (by simp [hdone]) (by simp) rfl rfl rfl
      · exact h.keep rfl rfl rfl

/-- What has left mMsgQ has been logged in the same order, but for the message in hand. -/
theorem taken_reachable (hs : (machine Th).Reachable Machine.anyStep s) : Taken s := by
  refine Machine.Invariant.reachable (I := Taken)
    (J := fun s => Consistent s ∧ ∀ th u, s.loop th ≠ .outside → s.loop u ≠ .outside → u = th)
    ⟨?_, ?_⟩ (fun s hs => ⟨consistent_reachable hs, fun _ _ => one_callback hs⟩) hs
  · intro s hinit
    obtain ⟨now, rfl⟩ := hinit
    exact ⟨[], .none (by simp [start]), rfl⟩
  · intro s a s' _ hJ hstep h
    exact h.step hJ.1 hJ.2 (step_moves hstep)

end Steps

section Order

/-- The section of request() in which it returns. -/
theorem request_returns (hcons : Consistent s) {msg : Msg} {ms : ℤ} {point : WaitPoint}
    (hth : s.mMsgQ.thread th = .put msg ms point) {choice : ℕ}
    (hstep : step s (.queue (.resume th choice)) = some s')
    (hidle : s'.mMsgQ.thread th = .idle) :
    s.mMsgQ.mEOS = true ∧ s'.mMsgQ.enqueued = s.mMsgQ.enqueued ∨
      s.mMsgQ.mEOS = false ∧ s'.mMsgQ.enqueued = s.mMsgQ.enqueued ++ [msg] := by
  obtain ⟨s₁, hqueue, rfl⟩ : ∃ s₁, s.queueStep (.resume th choice) = some s₁ ∧
      s₁.receive (.resume th choice) = s' := Option.map_eq_some_iff.mp hstep
  obtain ⟨q, hq, rfl⟩ := queueStep_eq hqueue
  obtain ⟨loop, hreceive⟩ := receive_fields { s with mMsgQ := q } (.resume th choice)
  rw [hreceive] at hidle ⊢
  have hturn := (hcons.stands th).turn hq
  rw [hth] at hturn
  cases hturn with
  | refuse heos => exact Or.inl ⟨heos, rfl⟩
  | putWait => simp [SyncQueue.State.goto] at hidle
  | put choice _ heos =>
    refine Or.inr ⟨heos, ?_⟩
    show (State.signalEmpty _ choice).enqueued = _
    rw [signalEmpty_same.2.1]
    rfl

/-- A section of mMsgQ that appends a message is the one in which a put() returns. -/
theorem Turn.appends {q q' : SyncQueue.State Msg Th messages} {p : ThreadPoint Msg}
    (h : Turn q th p q') (hne : q'.enqueued ≠ q.enqueued) :
    (∃ msg ms point, p = .put msg ms point) ∧ q'.thread th = .idle := by
  cases h with
  | put => exact ⟨⟨_, _, _, rfl⟩, Function.update_self ..⟩
  | get => exact absurd signalFull_same.2.1 hne
  | _ => exact absurd rfl hne

/-- Nothing but a put() that returns appends a message. -/
theorem Consistent.appends (h : Consistent s) {a : Action Th} (hm : Moves s a s')
    (hne : s'.mMsgQ.enqueued ≠ s.mMsgQ.enqueued) :
    ∃ th choice msg ms point, a = .queue (.resume th choice) ∧
      s.mMsgQ.thread th = .put msg ms point ∧ s'.mMsgQ.thread th = .idle := by
  cases hm with
  | enter _ _ hq | request _ hq | get _ hq => exact absurd (call_same hq).2 hne
  | stored | «return» | finish | log => exact absurd rfl hne
  | @thread a t =>
    obtain ⟨loop, hfollow⟩ := follow_fields s { s with mThread := t } a
    rw [hfollow] at hne
    exact absurd rfl hne
  | @queue a q hin hq =>
    obtain ⟨loop, hreceive⟩ := receive_fields { s with mMsgQ := q } a
    rw [hreceive] at hne ⊢
    cases a with
    | resume th choice =>
      obtain ⟨⟨msg, ms, point, hput⟩, hidle⟩ := ((h.stands th).turn hq).appends hne
      exact ⟨th, choice, msg, ms, point, rfl, hput, hidle⟩
    | _ =>
      have hgrown := (SyncQueue.step_moves hq).records.enqueued
      rw [List.append_nil] at hgrown
      exact absurd hgrown hne

/-- One thread at most is in the callback, and what request() has put in is what the callback has
logged, what it has in hand and what mMsgQ holds, in this order. A request() that returns drops its
message if mEOS is set, and else has put it in; nothing else puts anything in. -/
theorem messages_in_order (hs : (machine Th).Reachable Machine.anyStep s) :
    (∃ msgs, InHand s.loop msgs ∧
      s.mMsgQ.enqueued = s.logged ++ msgs ++ s.mMsgQ.mQueue.contents) ∧
    (∀ th u, s.loop th ≠ .outside → s.loop u ≠ .outside → u = th) ∧
    (∀ th msg ms point choice s', s.mMsgQ.thread th = .put msg ms point →
      step s (.queue (.resume th choice)) = some s' → s'.mMsgQ.thread th = .idle →
      s.mMsgQ.mEOS = true ∧ s'.mMsgQ.enqueued = s.mMsgQ.enqueued ∨
        s.mMsgQ.mEOS = false ∧ s'.mMsgQ.enqueued = s.mMsgQ.enqueued ++ [msg]) ∧
    ∀ a s', step s a = some s' → s'.mMsgQ.enqueued ≠ s.mMsgQ.enqueued →
      ∃ th choice msg ms point, a = .queue (.resume th choice) ∧
        s.mMsgQ.thread th = .put msg ms point ∧ s'.mMsgQ.thread th = .idle := by
  have hcons := consistent_reachable hs
  obtain ⟨msgs, hhand, htaken⟩ := taken_reachable hs
  refine ⟨⟨msgs, hhand, ?_⟩, fun th u => one_callback hs, ?_, ?_⟩
  · rw [(lawful_reachable (queue_part.reachable hs)).order, htaken]
  · intro th msg ms point choice s' hth
    exact request_returns hcons hth
  · intro a s' hstep
    exact hcons.appends (step_moves hstep)

def delivering : State Bool :=
  (machine Bool).after Machine.anyStep awaiting
    [.request false 7, .queue (.resume false 0), .next false, .queue (.resume true 0),
      .request false 8, .queue (.resume false 0)]

theorem messages_in_order_delivering :
    delivering.loop true = .log ⟨7, 0, 0, 0⟩ ∧
      delivering.mMsgQ.mQueue.contents = [⟨8, 0, 0, 0⟩] ∧
      ∃ msgs, InHand delivering.loop msgs ∧
        delivering.mMsgQ.enqueued =
          delivering.logged ++ msgs ++ delivering.mMsgQ.mQueue.contents := by
  have hs : (machine Bool).Reachable Machine.anyStep delivering :=
    awaiting_reachable.path (Machine.path_after (by decide +kernel))
  exact ⟨by decide +kernel, by decide +kernel, (messages_in_order hs).1⟩

end Order

end CWrapper.SampleService
