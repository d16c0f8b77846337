import CWrapper.TimerPhase

/-!
A timer that repeats with the interval 0, in the timer phase of loopOnce. It is put back with the
current tick as its expiry, and the loop thread finds it due again before it comes to epoll_wait.
-/
namespace CWrapper.MainLoop

open Timer (Object Control Exec makeExpiry)
open TimerLife Transition

variable {T Th F : Type} [DecidableEq T] [DecidableEq Th] {capacity : ℕ+}
  {s₀ s s' : State T Th F} {t : T}

/-- The execution of a timer in the course that leads back to the list. -/
def Recurring (v : Life) : Exec → Prop
  | .exchange | .clearRequest | .storeQueued => True
  | .popFront canExecute => canExecute = true ∧ v.o.mStopRequested = false
  | .readConfig keepByHandler | .testStop keepByHandler _ _ _ =>
      keepByHandler = true ∧ v.o.mStopRequested = false
  | .storeStopped | .broadcastStopped | .requeueBroadcast | .requeueRemove
  | .requeueRemoveWake => False
  | .broadcastQueued => v.listed
  | _ => v.o.mStopRequested = false

/-- A timer that is due in the list, or on its way back to it. -/
structure Recurs (v : Life) : Prop where
  stays : v.listed ∨ v.exec ≠ none
  due : v.listed → v.o.mExpiry ≤ v.now
  course : ∀ e, v.exec = some e → Recurring v e

/-- The execution goes on, and the timer stays in its course. -/
theorem Recurs.advance {v v' : Life} {e e' : Exec} (h : Recurs v) (he : v.exec = some e)
    (he' : v'.exec = some e') (hdue : v'.listed → v'.o.mExpiry ≤ v'.now)
    (hcourse : Recurring v e → Recurring v' e') : Recurs v' := by
  refine ⟨Or.inr (by simp [he']), hdue, ?_⟩
  intro f hf
  obtain rfl := Option.some.inj (he'.symm.trans hf)
  exact hcourse (h.course e he)

structure Relentless (c : Object) : Prop where
  rep : c.mRepeat = true
  handler : c.mHandler = true
  interval : c.mInterval = 0

theorem InPhase.not_exchanged (h : InPhase s₀ s) (t : T) : claim (s.control t) ≠ .exchanged := by
  intro hclaim
  obtain ⟨k, hc | hc⟩ := claim_exchanged hclaim
  · obtain ⟨th, hth⟩ := exists_thread_of_control hc (by simp)
    exact h.calls th t _ hth
  · obtain ⟨th, hth⟩ := exists_thread_of_control hc (by simp)
    exact h.calls th t _ hth

/-- An execution goes on in this course as long as the callback answers true. -/
theorem recurring_execute {v : Life} {c : Object} {e e' : Exec} {o' : Object} {keep : Bool}
    (hcons : Consistent v) (hfree : claim v.control ≠ .exchanged) (he : v.exec = some e)
    (hserves : Serves c v.now v.o.mExpiry e) (hconfig : SameConfig v.o c) (hbad : Relentless c)
    (hkeep : e = .callback → keep = true)
    (hstep : Timer.executeStep v.o v.now keep e = some (o', e')) (h : Recurring v e) :
    Recurring { v with o := o', exec := some e', history := v.history.execute v.now e } e' := by
  obtain ⟨hrep, hhandler, hinterval⟩ := hbad
  have hfin : (0 : Timer.Msec) ≠ Timer.Infinite := by decide
  unfold Consistent at hcons
  rw [he] at hcons
  cases e with
  | exchange =>
    have hqueued : v.o.mState = .queued := by
      rcases hcons.2.2 with hst | ⟨-, hclaim⟩
      · exact hst
      · exact absurd hclaim hfree
    simp only [Timer.executeStep, hqueued, if_true] at hstep
    cases hstep
    trivial
  | requeueLoad =>
    have hpending : v.o.mState = .requeuePending := hcons.2.2
    simp only [Timer.executeStep, hpending, if_true] at hstep
    cases hstep
    exact h
  | testStop keepByHandler interval rep hasHandler =>
    obtain ⟨hkeep', hstop⟩ := h
    obtain ⟨rfl, rfl, rfl⟩ := hserves
    simp [Timer.executeStep, hkeep', hstop, hrep, hhandler, hinterval, hfin] at hstep
    obtain ⟨rfl, rfl⟩ := hstep
    exact hstop
  | storeQueued =>
    cases hstep
    exact hcons.2.1
  | clearRequest =>
    cases hstep
    exact ⟨rfl, rfl⟩
  | readHandler =>
    simp only [Timer.executeStep, hconfig.2.2.trans hhandler, if_true] at hstep
    cases hstep
    exact h
  | callback =>
    obtain rfl := hkeep rfl
    cases hstep
    exact ⟨rfl, h⟩
  | requeueTest =>
    have hstop : v.o.mStopRequested = false := h
    simp only [Timer.executeStep, hstop] at hstep
    cases hstep
    exact hstop
  | requeueTestAgain =>
    have hstop : v.o.mStopRequested = false := h
    simp only [Timer.executeStep, hstop] at hstep
    cases hstep
    trivial
  | storeStopped => exact h.elim
  | call | readConfig | readTick | storeExpiry | storePending =>
    cases hstep
    exact h
  | _ => cases hstep

/-- The answer of a callback that the loop thread has called. -/
theorem callback_answer {answer : Bool} (hm : Moves capacity s (.loop answer) s')
    (hloop : s.loop = .exec t .callback) {keep : Bool} {e' : Exec}
    (hexec : s'.loop = .exec t e') (hkeep : e' = .readConfig keep) : keep = answer := by
  subst hkeep
  cases hm with
  | stay => simp [hloop] at hexec
  | execute _ u e f o hloop' hstep =>
    obtain ⟨rfl, rfl⟩ := LoopPoint.exec.inj (hloop.symm.trans hloop')
    cases hstep
    cases hexec
    rfl
  | _ => simp_all

theorem recurs_life {v v' : Life} {c : Object} (hstep : LifeStep .loop v v')
    (hcons : Consistent v) (hfree : claim v.control ≠ .exchanged)
    (hserves : ∀ e, v.exec = some e → Serves c v.now v.o.mExpiry e) (hconfig : SameConfig v.o c)
    (hbad : Relentless c)
    (hanswer : ∀ keep, v.exec = some .callback → v'.exec = some (.readConfig keep) → keep = true)
    (h : Recurs v) : Recurs v' := by
  cases hstep with
  | idle => exact h
  | take he hl hlock hexp =>
    refine ⟨Or.inl hl, h.due, ?_⟩
    intro e hexec
    obtain rfl := Option.some.inj hexec
    trivial
  | @execute _ e e' o' keep he hexec =>
    refine h.advance he rfl ?_ fun hcourse => ?_
    · intro hl
      have hexpiry : o'.mExpiry = v.o.mExpiry :=
        TimerLife.expiry_step (.execute he hexec) hcons (Or.inl hl)
      exact hexpiry ▸ h.due hl
    · refine recurring_execute hcons hfree he (hserves e he) hconfig hbad ?_ hexec hcourse
      rintro rfl
      cases hexec
      exact hanswer keep he rfl
  | execAdvance he hadv =>
    refine h.advance he rfl h.due fun hcourse => ?_
    cases hadv with
    | requeueRemoveWake => exact hcourse.elim
    | requeueScan i => exact hcourse
    | requeueWake => exact hcourse
  | popFront he =>
    obtain ⟨rfl, hstop⟩ := h.course _ he
    exact h.advance he rfl (fun hl => hl.elim) fun _ => hstop
  | broadcastPending he | requeueFound he | requeueLock he => exact h.advance he rfl h.due id
  | broadcastLast he hlast =>
    have hcourse := h.course _ he
    cases hlast with
    | stopped => exact hcourse.elim
    | requeue => exact hcourse.elim
    | queued => exact ⟨Or.inl hcourse, h.due, by simp⟩
  | requeueInsert he =>
    obtain ⟨hexpiry, -, -⟩ := hserves _ he
    refine h.advance he rfl (fun _ => ?_) id
    show v.o.mExpiry ≤ v.now
    rw [hexpiry, hbad.interval]
    exact Nat.mod_le _ _
  | requeueRemove he => exact (h.course _ he).elim

/-- A step of the phase keeps the timer in its course. -/
theorem recurs_step {answer : Bool} (h : InPhase s₀ s) (hbad : Relentless (s₀.timer t))
    (hm : Moves capacity s (.loop answer) s')
    (hanswer : s.loop = .exec t .callback → answer = true) (hr : Recurs (s.life t)) :
    Recurs (s'.life t) := by
  refine recurs_life (h.disciplined.life_step hm t) (h.disciplined.consistent t)
    (h.not_exchanged t) ?_ (h.config t) hbad ?_ hr
  · intro e he
    obtain ⟨-, -, hserves⟩ := h.taken t e (loop_of_on he)
    rw [← h.now] at hserves
    exact hserves
  · intro keep he hread
    rw [callback_answer hm (loop_of_on he) (loop_of_on hread) rfl]
    exact hanswer (loop_of_on he)

/-- The loop thread comes to epoll_wait by finding no timer due. -/
theorem epollWait_front {answer : Bool} {now timeToWait : ℕ}
    (hm : Moves capacity s (.loop answer) s') (hnot : ∀ n w, s.loop ≠ .epollWait n w)
    (hwait : s'.loop = .epollWait now timeToWait) :
    s.loop = .nextTimeout ∧ s.frontDue = false := by
  cases hm with
  | stay => exact absurd hwait (hnot _ _)
  | nextTimeout _ hloop hlock =>
    refine ⟨hloop, ?_⟩
    dsimp only at hwait
    split at hwait
    · cases hwait
    · rename_i hlater
      rw [getNextTimerTimeout_eq_zero] at hlater
      exact eq_false_of_ne_true hlater
  | popFront =>
    dsimp only at hwait
    split at hwait <;> cases hwait
  | noFunction | testTerminated =>
    dsimp only at hwait
    split at hwait <;> cases hwait
  | _ => simp_all

theorem Recurs.front (hr : Recurs (s.life t)) (hsorted : Sorted s) (hloop : s.loop = .nextTimeout) :
    s.frontDue = true := by
  have hlisted : t ∈ s.mTimers := by
    refine hr.stays.resolve_right fun hne => hne ?_
    simp [State.life, hloop, LoopPoint.on]
  cases hlist : s.mTimers with
  | nil => simp [hlist] at hlisted
  | cons u rest =>
    have hle := hsorted.head_least u (by rw [hlist]; rfl) t hlisted
    rw [frontDue_cons hlist, due_iff]
    exact hle.trans (hr.due hlisted)

end CWrapper.MainLoop
