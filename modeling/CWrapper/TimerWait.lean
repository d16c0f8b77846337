import CWrapper.TimerStop

/-!
What stopAndWait() can rely on. The loop thread publishes the end of an execution in
mState and broadcasts afterwards, without mWaitLock. So the destructor may return between
the store and the broadcast, and a waiter that has tested the old state may block after
both of them.
-/
set_option linter.unusedSectionVars false

namespace CWrapper.TimerLife

open Timer (Object Call Control Exec State)

/-- The destructor is at its end, and the loop thread is nowhere near the timer. -/
structure Gone (v : Life) : Prop where
  control : v.control = some .returnDestroy
  unlisted : ¬ v.listed
  away : v.exec = none

/-- Nothing happens to a timer after its destructor. -/
theorem gone_step {a : Actor} {v v' : Life} (hstep : LifeStep a v v') (h : Gone v) : Gone v' := by
  obtain ⟨hcontrol, hl, he⟩ := h
  cases hstep with
  | idle | tick | config => exact ⟨hcontrol, hl, he⟩
  | take he' hl' hfree hexp => exact absurd hl' hl
  | begins k hc => rw [hcontrol] at hc; cases hc
  | object hc hstep =>
    rw [hcontrol] at hc
    cases hc
    cases hstep
  | advance hc hstep =>
    rw [hcontrol] at hc
    cases hc
    cases hstep
  | leave hc hret =>
    rw [hcontrol] at hc
    cases hc
    simp at hret
  | test hc => rw [hcontrol] at hc; cases hc
  | remove hc hfree => rw [hcontrol] at hc; cases hc
  | addFound hc hl' => rw [hcontrol] at hc; cases hc
  | addLock hc hfree => rw [hcontrol] at hc; cases hc
  | insert hc => rw [hcontrol] at hc; cases hc
  | execute he' | execAdvance he' | popFront he' | broadcastPending he' | broadcastLast he'
  | requeueFound he' | requeueLock he' | requeueInsert he' | requeueRemove he' =>
    rw [he] at he'
    cases he'

/-- The broadcast that is owed after mState.store(Stopped) or mState.store(Queued). -/
def owes : Exec → Bool
  | .broadcastStopped | .broadcastQueued => true
  | _ => false

theorem Consistent.unlisted {v : Life} (h : Consistent v) (hc : v.control = some .returnDestroy) :
    ¬ v.listed := by
  unfold Consistent at h
  rw [hc] at h
  exact h.1.2

theorem Consistent.away_or_owes {v : Life} (h : Consistent v)
    (hc : v.control = some .returnDestroy) : v.exec = none ∨ v.exec.any owes = true := by
  have hquiet : Quiet v := by
    unfold Consistent at h
    rw [hc] at h
    exact h.1
  have haway := hquiet.away h
  cases he : v.exec with
  | none => exact Or.inl rfl
  | some e =>
    rw [he] at haway
    cases e with
    | broadcastStopped => exact Or.inr rfl
    | broadcastQueued => exact Or.inr rfl
    | popFront b => cases b <;> cases haway
    | _ => cases haway

/-- The call has tested the state and is blocked or about to block. -/
def waits : Control → Bool
  | .block _ | .blocked _ => true
  | _ => false

def blocking : Control → Bool
  | .block _ => true
  | _ => false

/-- The wait is justified: the state is not released, or a broadcast is owed. -/
def Justified (v : Life) : Prop :=
  v.control.any waits = true → Timer.released v.o.mState = false ∨ v.exec.any owes = true

theorem controlStep_not_waits {o o' : Object} {now : ℕ} {again : Bool} {c c' : Control}
    (h : Timer.controlStep o now again c = some (o', c')) : waits c' = false := by
  have hafter : ∀ k, waits (Timer.afterStop k) = false := by
    intro k
    cases k with
    | start msec rep =>
      simp only [Timer.afterStop]
      split <;> rfl
    | _ => rfl
  cases c with
  | load k =>
    simp only [Timer.controlStep, Option.some.injEq, Prod.mk.injEq] at h
    rw [← h.2]
    split
    · exact hafter k
    · rfl
    · rfl
    · rfl
  | exchange k =>
    simp only [Timer.controlStep] at h
    split at h <;> cases h <;> rfl
  | requestRunning k => cases k <;> cases h <;> rfl
  | requestQueued k => cases h; rfl
  | configure msec rep => cases h; rfl
  | clearRequest => cases h; rfl
  | queue => cases h; rfl
  | _ => cases h

/-- The loop thread leaves Executing and RequeuePending only by a store that is followed
by its last broadcast. -/
theorem executeStep_released {o o' : Object} {now : ℕ} {keep : Bool} {e e' : Exec}
    (h : Timer.executeStep o now keep e = some (o', e')) (hst : Timer.released o.mState = false) :
    Timer.released o'.mState = false ∨ owes e' = true := by
  cases e with
  | exchange =>
    simp only [Timer.executeStep] at h
    split at h <;> cases h
    · exact Or.inl rfl
    · exact Or.inl hst
  | storeStopped => cases h; exact Or.inr rfl
  | storePending => cases h; exact Or.inl rfl
  | storeQueued => cases h; exact Or.inr rfl
  | clearRequest | readHandler | call | callback | readConfig | testStop | readTick | storeExpiry
  | requeueLoad | requeueTest | requeueTestAgain =>
    cases h
    exact Or.inl hst
  | _ => cases h

theorem waits_wake {c : Option Control} (h : (c.map wake).any waits = true) :
    c.any blocking = true := by
  cases c with
  | none => cases h
  | some c => cases c <;> first | rfl | cases h

theorem waits_of_blocking {c : Option Control} (h : c.any blocking = true) :
    c.any waits = true := by
  cases c with
  | none => cases h
  | some c => cases c <;> first | rfl | cases h

theorem Justified.held {v : Life} (h : Justified v) (hw : v.control.any waits = true)
    (howes : v.exec.any owes = false) : Timer.released v.o.mState = false := by
  rcases h hw with hst | hexec
  · exact hst
  · rw [howes] at hexec
    cases hexec

/-- The last broadcast finds no call between its test and its block. -/
theorem justified_step {a : Actor} {v v' : Life} (hstep : LifeStep a v v') (hcons : Consistent v)
    (hblock : a = .loop → v.exec.any owes = true → v.control.any blocking = false)
    (h : Justified v) : Justified v' := by
  cases hstep with
  | config o' hstate hstop hexpiry => simpa only [Justified, hstate] using h
  | begins k hc => intro hw; cases hw
  | object hc hstep =>
    intro hw
    simp [controlStep_not_waits hstep] at hw
  | advance hc hstep =>
    intro hw
    cases hstep with
    | block k => exact h (by rw [hc]; rfl)
    | broadcast k =>
      cases k with
      | start msec rep =>
        simp only [Timer.afterStop] at hw
        split at hw <;> cases hw
      | _ => cases hw
    | _ => cases hw
  | test hc =>
    intro hw
    simp only at hw ⊢
    split at hw
    · cases hw
    · exact Or.inl (by simp_all)
  | remove | addFound | addLock | insert | leave => intro hw; cases hw
  | @execute _ e e' o' keep he hstep =>
    intro hw
    have howes : owes e = false := by
      cases e with
      | broadcastStopped => cases hstep
      | broadcastQueued => cases hstep
      | _ => rfl
    exact executeStep_released hstep (h.held hw (by rw [he]; exact howes))
  | execAdvance he hstep =>
    intro hw
    exact Or.inl (h.held hw (by rw [he]; cases hstep <;> rfl))
  | broadcastPending he =>
    intro hw
    exact Or.inl (h.held (waits_of_blocking (waits_wake hw)) (by rw [he]; rfl))
  | broadcastLast he hlast =>
    intro hw
    have hb := waits_wake hw
    cases hlast with
    | requeue =>
      unfold Consistent at hcons
      rw [he] at hcons
      exact absurd hcons.2 (by simp [phase])
    | _ =>
      have hnot := hblock rfl (by rw [he]; rfl)
      rw [hb] at hnot
      cases hnot
  | take he | popFront he | requeueFound he | requeueLock he | requeueInsert he
  | requeueRemove he =>
    intro hw
    exact Or.inl (h.held hw (by rw [he]; rfl))
  | _ => exact h

end CWrapper.TimerLife

namespace CWrapper.MainLoop

open Timer (Control Exec)
open TimerLife Transition

variable {T Th F : Type} [DecidableEq T] [DecidableEq Th]

/-- Steps on the timer itself. The others of an execution are steps of the list, of the
pipe, or the callback. -/
def accessesTimer : Exec → Bool
  | .popFront _ | .call | .callback | .requeueLock | .requeueWake | .requeueRemove
  | .requeueRemoveWake => false
  | _ => true

/-- The next step of the loop thread in runTimers reads or writes a member of `t`: of the
timer it holds, of the first in the list, or of the one an insertion compares with. -/
def State.accesses (s : State T Th F) (t : T) : Bool :=
  match s.loop with
  | .readFront _ | .nextTimeout => decide (s.mTimers.head? = some t)
  | .exec u (.requeueScan i) => decide (u = t ∨ s.mTimers[i]? = some t)
  | .exec u e => decide (u = t) && accessesTimer e
  | _ => false

/-- The loop thread is inside runTimers and does not return from it by this step. -/
def InRunTimers (s : State T Th F) : Action T Th F → Prop
  | .loop _ => match s.loop with
      | .takeTimer | .readFront _ | .exec _ _ => True
      | _ => False
  | _ => match s.loop with
      | .takeTimer | .readFront _ | .exec _ _ | .nextTimeout => True
      | _ => False

/-- No step that remains in the current call of runTimers accesses the timer. -/
def LoopDone (capacity : ℕ+) (s : State T Th F) (t : T) : Prop :=
  ∀ as s', (system T Th F capacity).Path InRunTimers s as s' → s'.accesses t = false

def DestroyReturns (t : T) (s : State T Th F) (a : Action T Th F) (s' : State T Th F) : Prop :=
  ∃ th again, a = .thread th again ∧ s.thread th ≠ .timer t .returnDestroy ∧
    s'.thread th = .timer t .returnDestroy

variable {capacity : ℕ+} {s s' : State T Th F} {a : Action T Th F} {t : T}

theorem thread_step_loop {th : Th} {again : Bool} (hm : Moves capacity s (.thread th again) s') :
    s'.loop = s.loop := by
  cases hm <;> rfl

theorem gone_accesses (h : Gone (s.life t)) : s.accesses t = false := by
  have hl : t ∉ s.mTimers := h.unlisted
  have hhead : s.mTimers.head? ≠ some t := fun he => hl (List.mem_of_mem_head? he)
  have hnone : s.loop.on t = none := h.away
  unfold State.accesses
  split
  · simpa using hhead
  · simpa using hhead
  · rename_i u i hloop
    have hu : u ≠ t := by
      rintro rfl
      simp [hloop, LoopPoint.on] at hnone
    have hi : s.mTimers[i]? ≠ some t := fun he => hl (List.mem_of_getElem? he)
    simpa using ⟨hu, hi⟩
  · rename_i u e hscan hloop
    have hu : u ≠ t := by
      rintro rfl
      simp [hloop, LoopPoint.on] at hnone
    simp [hu]
  · rfl

theorem gone_done (hd : Disciplined s) (h : Gone (s.life t)) : LoopDone capacity s t := by
  intro as s' hpath
  have hkeeps : Disciplined s' ∧ Gone (s'.life t) := by
    refine hpath.keeps (I := fun s => Disciplined s ∧ Gone (s.life t)) ?_ ⟨hd, h⟩
    rintro s a s' _ hstep ⟨hd, h⟩
    have hm := moves_of_step hstep
    exact ⟨disciplined_step hm hd,
      gone_step (hd.life_step hm t) h⟩
  exact gone_accesses hkeeps.2

theorem owes_loop : (s.loop.on t).any owes = true ↔
    s.loop = .exec t .broadcastStopped ∨ s.loop = .exec t .broadcastQueued := by
  constructor
  · intro h
    obtain ⟨e, he, howes⟩ := (Option.any_eq_true _ _).mp h
    rw [loop_of_on he]
    cases e with
    | broadcastStopped => exact Or.inl rfl
    | broadcastQueued => exact Or.inr rfl
    | _ => cases howes
  · rintro (h | h) <;> simp [h, LoopPoint.on, owes]

/-- When the destructor's stopAndWait() returns, MainLoop is done with the timer exactly
if it does not stand before the broadcast that follows its last store of mState. -/
theorem destroy_done_iff (hreach : (system T Th F capacity).Reachable Machine.anyStep s)
    (hstep : (system T Th F capacity).step s a = some s') (hret : DestroyReturns t s a s') :
    (t ∉ s'.mTimers ∧ LoopDone capacity s' t) ↔
      s.loop ≠ .exec t .broadcastStopped ∧ s.loop ≠ .exec t .broadcastQueued := by
  have hm := moves_of_step hstep
  have hd : Disciplined s' := disciplined_step hm (disciplined hreach)
  obtain ⟨th, again, rfl, _, hth⟩ := hret
  have hc : (s'.life t).control = some .returnDestroy := hd.owned.control_eq th t hth
  have hl : t ∉ s'.mTimers := (hd.consistent t).unlisted hc
  rw [← thread_step_loop hm]
  constructor
  · rintro ⟨_, hdone⟩
    have hnow := hdone [] s' (.nil s')
    constructor <;> intro hloop <;> simp [State.accesses, hloop, accessesTimer] at hnow
  · rintro ⟨hstopped, hqueued⟩
    refine ⟨hl, gone_done hd ⟨hc, hl, ?_⟩⟩
    rcases (hd.consistent t).away_or_owes hc with he | howes
    · exact he
    · rcases owes_loop.mp howes with he | he
      · exact absurd he hstopped
      · exact absurd he hqueued

section Runs

/-- The callback of a timer that runs returned false and mState.store(Stopped) is made. -/
def storedStopped : State Unit Unit Unit :=
  (system Unit Unit Unit oneSlot).after Machine.anyStep (State.start 0)
    (untilCallback ++ List.replicate 4 (.loop false) ++ [.destroy () ()])

/-- The same with the last broadcast made, too. -/
def broadcastMade : State Unit Unit Unit :=
  (system Unit Unit Unit oneSlot).after Machine.anyStep (State.start 0)
    (untilCallback ++ List.replicate 5 (.loop false) ++ [.destroy () ()])

def destroyAfterBroadcast : State Unit Unit Unit :=
  (system Unit Unit Unit oneSlot).next broadcastMade (.thread () false)

def destroyBeforeBroadcast : State Unit Unit Unit :=
  (system Unit Unit Unit oneSlot).next storedStopped (.thread () false)

theorem destroy_done_after_broadcast : () ∉ destroyAfterBroadcast.mTimers ∧
    LoopDone 1 destroyAfterBroadcast () :=
  (destroy_done_iff (Machine.reachable_after (initial_start oneSlot) (by decide +kernel))
    (Machine.step_next (by decide +kernel))
    ⟨(), false, rfl, by decide +kernel, by decide +kernel⟩).mpr
    ⟨by decide +kernel, by decide +kernel⟩

/-- The destructor returns while the broadcast on mStateChanged is still to be made. -/
theorem destroy_before_broadcast :
    ¬ ∀ (s s' : State Unit Unit Unit) (a : Action Unit Unit Unit),
      (system Unit Unit Unit oneSlot).Reachable Machine.anyStep s →
      (system Unit Unit Unit oneSlot).step s a = some s' → DestroyReturns () s a s' →
      () ∉ s'.mTimers ∧ LoopDone 1 s' () := by
  intro h
  have hdone := (h storedStopped destroyBeforeBroadcast (.thread () false)
    (Machine.reachable_after (initial_start oneSlot) (by decide +kernel))
    (Machine.step_next (by decide +kernel))
    ⟨(), false, rfl, by decide +kernel, by decide +kernel⟩).2 [] _ (.nil _)
  have haccess : destroyBeforeBroadcast.accesses () = true := by decide +kernel
  rw [haccess] at hdone
  cases hdone

end Runs

/-- No thread that is blocked in stopAndWait() on `t` has missed its wake-up. -/
def NeverMissed (capacity : ℕ+) (t : T) (ok : State T Th F → Action T Th F → Prop) : Prop :=
  ∀ (s : State T Th F), (system T Th F capacity).Reachable ok s →
    ∀ th k, s.thread th = .timer t (.blocked k) →
      (s.timer t).mState = .executing ∨ (s.timer t).mState = .requeuePending ∨
        s.loop.executes t = true

def ThreadPoint.blocks (t : T) : ThreadPoint T F → Bool
  | .timer u (.block _) => decide (u = t)
  | _ => false

def Action.isLoop : Action T Th F → Bool
  | .loop _ => true
  | _ => false

/-- The last broadcast of an execution of `t` finds no thread in stopAndWait() between its
test of the state and its block. -/
def NoBlockBetween (t : T) (s : State T Th F) (a : Action T Th F) : Prop :=
  a.isLoop = true → (s.loop.on t).any owes = true → ∀ th, (s.thread th).blocks t = false

instance [Fintype Th] (t : T) (s : State T Th F) (a : Action T Th F) :
    Decidable (NoBlockBetween t s a) :=
  inferInstanceAs (Decidable (_ → _ → _))

theorem blocking_control (h : (s.control t).any blocking = true) :
    ∃ th, (s.thread th).blocks t = true := by
  obtain ⟨c, hc, hblock⟩ := (Option.any_eq_true _ _).mp h
  cases c with
  | block k =>
    obtain ⟨th, hth⟩ := exists_thread_of_control hc (by simp)
    exact ⟨th, by simp [hth, ThreadPoint.blocks]⟩
  | _ => cases hblock

theorem actor_loop (h : actor s a t = .loop) : ∃ answer, a = .loop answer := by
  unfold actor at h
  cases a with
  | loop answer => exact ⟨answer, rfl⟩
  | thread th again =>
    simp only at h
    split at h <;> (try split at h) <;> cases h
  | _ =>
    simp only at h
    (try split at h) <;> cases h

/-- Whoever is blocked in stopAndWait() waits for an execution that is still to end or to broadcast.
-/
theorem justified_invariant (t : T) : (system T Th F capacity).Invariant (NoBlockBetween t)
    Disciplined (fun s => Justified (s.life t)) where
  init := by
    rintro s ⟨now, _, rfl⟩
    simp [Justified, State.life, State.start, State.control]
  step s a s' hok hd hstep h := by
    have hlife := hd.life_step (moves_of_step hstep) t
    refine justified_step hlife (hd.consistent t) ?_ h
    intro hactor howes
    obtain ⟨answer, rfl⟩ := actor_loop hactor
    refine Bool.eq_false_iff.mpr fun hblock => ?_
    obtain ⟨th, hth⟩ := blocking_control hblock
    simp [hok rfl howes th] at hth

/-- Under that condition a blocked thread has its wake-up still ahead. -/
theorem never_missed (t : T) :
    NeverMissed capacity t (NoBlockBetween t : State T Th F → Action T Th F → Prop) := by
  intro s hreach th k hth
  have hd := disciplined hreach
  have hc : (s.life t).control = some (.blocked k) := hd.owned.control_eq th t hth
  have hjust := (justified_invariant t).reachable (fun _ => disciplined) hreach
  rcases hjust (by rw [hc]; rfl) with hst | howes
  · change Timer.released (s.timer t).mState = false at hst
    cases hs : (s.timer t).mState with
    | executing => exact Or.inl rfl
    | requeuePending => exact Or.inr (Or.inl rfl)
    | _ =>
      rw [hs] at hst
      cases hst
  · refine Or.inr (Or.inr ?_)
    rcases owes_loop.mp howes with hloop | hloop <;> simp [hloop, LoopPoint.executes]

section Runs

/-- The destructor is called while the callback runs, and blocks. -/
def blockedInCallback : State Unit Unit Unit :=
  (system Unit Unit Unit oneSlot).after (NoBlockBetween ()) (State.start 0)
    (untilCallback ++ [.destroy () ()] ++ List.replicate 5 (.thread () false))

theorem never_missed_in_callback : (blockedInCallback.timer ()).mState = .executing ∨
    (blockedInCallback.timer ()).mState = .requeuePending ∨
      blockedInCallback.loop.executes () = true :=
  never_missed () blockedInCallback
    (Machine.reachable_after (initial_start oneSlot) (by decide +kernel)) () .destroy
    (by decide +kernel)

/-- The execution ends between the test of the predicate and the block. -/
def missed : State Unit Unit Unit :=
  (system Unit Unit Unit oneSlot).after Machine.anyStep (State.start 0)
    (untilCallback ++ [.destroy () ()] ++ List.replicate 4 (.thread () false) ++
      List.replicate 5 (.loop false) ++ [.thread () false])

/-- The broadcast comes while the destructor is about to block, and nobody makes another one. -/
theorem wakeup_missed : ¬ NeverMissed 1 ()
    (Machine.anyStep : State Unit Unit Unit → Action Unit Unit Unit → Prop) := by
  intro h
  have hmissed := h missed
    (Machine.reachable_after (initial_start oneSlot) (by decide +kernel)) () .destroy
    (by decide +kernel)
  exact absurd hmissed (by decide +kernel)

end Runs

end CWrapper.MainLoop
