import CWrapper.TimerPhaseEnds
import CWrapper.TimerRecurs

/-!
The runs of the timer phase. They end, each timer having called its handler once at most, unless a
timer that is due repeats with the interval 0.
-/
namespace CWrapper.MainLoop

open Timer (Exec Object)
open TimerLife Transition

variable {T Th F : Type} [DecidableEq T] [DecidableEq Th] {capacity : ℕ+}
  {s₀ s s' : State T Th F} {as : List (Action T Th F)} {t : T}

def beforeCall : Exec → Bool
  | .exchange | .clearRequest | .popFront _ | .readHandler | .call => true
  | _ => false

/-- Of the callbacks of a timer at most one has begun since there were `b`, and none as long as
the timer is due in the list. -/
structure Once (b : ℕ) (v : Life) : Prop where
  bound : v.history.begun ≤ b + 1
  listed : v.listed → v.o.mExpiry ≤ v.now → v.history.begun = b
  pending : ∀ e, v.exec = some e → beforeCall e = true → v.history.begun = b

theorem once_begin (v : Life) (hexec : v.exec = none) : Once v.history.begun v where
  bound := Nat.le_succ _
  listed _ _ := rfl
  pending e he := by rw [hexec] at he; cases he

/-- The execution has gone past the callback. -/
theorem once_past {v : Life} {b : ℕ} {e : Exec} (he : v.exec = some e)
    (hpast : beforeCall e = false) (hbound : v.history.begun ≤ b + 1)
    (hlisted : v.listed → v.o.mExpiry ≤ v.now → v.history.begun = b) : Once b v := by
  refine ⟨hbound, hlisted, ?_⟩
  intro f hf hbefore
  obtain rfl := Option.some.inj (he.symm.trans hf)
  rw [hpast] at hbefore
  cases hbefore

theorem executeStep_beforeCall {o o' : Object} {now : ℕ} {keep : Bool} {e e' : Exec}
    (h : Timer.executeStep o now keep e = some (o', e')) (he : beforeCall e' = true) :
    beforeCall e = true ∧ e ≠ .call := by
  cases e <;> simp only [Timer.executeStep] at h <;> (try split at h) <;> cases h <;>
    simp_all [beforeCall]

theorem execute_begun (h : Timer.History) (now : ℕ) {e : Exec} (he : e ≠ .call) :
    (h.execute now e).begun = h.begun := by
  cases e <;> simp_all [Timer.History.execute]

theorem once_execute {v : Life} {b : ℕ} {e e' : Exec} {o' : Object} {keep : Bool}
    (hcons : Consistent v) (h : Once b v) (he : v.exec = some e)
    (hstep : Timer.executeStep v.o v.now keep e = some (o', e')) :
    Once b { v with o := o', exec := some e', history := v.history.execute v.now e } := by
  by_cases hcall : e = .call
  · subst hcall
    have hbegun : v.history.begun = b := h.pending _ he rfl
    have hout : ¬ v.listed := by
      unfold Consistent at hcons
      rw [he] at hcons
      exact hcons.2.1
    refine ⟨?_, fun hl => absurd hl hout, ?_⟩
    · show v.history.begun + 1 ≤ b + 1
      omega
    · intro f hf hbefore
      obtain rfl := Option.some.inj hf
      exact absurd rfl (executeStep_beforeCall hstep hbefore).2
  · have hbegun := execute_begun v.history v.now hcall
    have hexpiry (hl : v.listed) : o'.mExpiry = v.o.mExpiry :=
      TimerLife.expiry_step (.execute he hstep) hcons (Or.inl hl)
    refine ⟨?_, ?_, ?_⟩
    · show (v.history.execute v.now e).begun ≤ b + 1
      rw [hbegun]
      exact h.bound
    · intro hl hdue
      show (v.history.execute v.now e).begun = b
      rw [hbegun]
      exact h.listed hl ((hexpiry hl) ▸ hdue)
    · intro f hf hbefore
      obtain rfl := Option.some.inj hf
      show (v.history.execute v.now e).begun = b
      rw [hbegun]
      exact h.pending e he (executeStep_beforeCall hstep hbefore).1

/-- A timer that is put back for later gets no second callback in the phase. -/
theorem once_step {v v' : Life} {b : ℕ} (hstep : LifeStep .loop v v') (hcons : Consistent v)
    (hlater : ∀ i, v.exec = some (.requeueScan i) → v.now < v.o.mExpiry) (h : Once b v) :
    Once b v' := by
  cases hstep with
  | idle => exact h
  | take he hl hfree hexp => exact ⟨h.bound, h.listed, fun _ _ _ => h.listed hl hexp⟩
  | execute he hexec => exact once_execute hcons h he hexec
  | execAdvance he hadv => exact once_past rfl (by cases hadv <;> rfl) h.bound h.listed
  | popFront he => exact ⟨h.bound, fun hl => hl.elim, fun _ _ _ => h.pending _ he rfl⟩
  | broadcastPending | requeueFound | requeueLock => exact once_past rfl rfl h.bound h.listed
  | requeueRemove => exact once_past rfl rfl h.bound fun hl => hl.elim
  | broadcastLast => exact ⟨h.bound, h.listed, fun _ hf => by cases hf⟩
  | requeueInsert he =>
    exact once_past rfl rfl h.bound fun _ hdue => absurd hdue (not_le.mpr (hlater _ he))

/-- The phase that begins in `s` takes a bounded number of steps, ends at epoll_wait, and begins
no callback twice. -/
structure TimersEnd (capacity : ℕ+) (s : State T Th F) : Prop where
  bounded : ∃ n, ∀ as s', (system T Th F capacity).Path loopMoves s as s' → as.length ≤ n
  comes : ∀ as s', (system T Th F capacity).Path loopMoves s as s' →
    (∃ now timeToWait, s'.loop = .epollWait now timeToWait) ∨
      ∃ a s'', loopMoves s' a ∧ (system T Th F capacity).step s' a = some s''
  once : ∀ as s' t, (system T Th F capacity).Path loopMoves s as s' →
    (s'.history t).begun ≤ (s.history t).begun + 1

/-- By induction over the steps of the loop thread. -/
theorem phase_path (h : InPhase s₀ s) (hp : (system T Th F capacity).Path loopMoves s as s') :
    InPhase s₀ s' := by
  refine hp.keeps ?_ h
  rintro s a s' ⟨answer, rfl, -⟩ hstep hs
  exact inPhase_step (moves_of_step hstep) hs

theorem phase_comes (h : InPhase s₀ s) :
    (∃ now timeToWait, s.loop = .epollWait now timeToWait) ∨
      ∃ a s', loopMoves s a ∧ (system T Th F capacity).step s a = some s' := by
  refine (loop_enabled capacity h false).imp_right fun hsome => ?_
  obtain ⟨s', hs'⟩ := Option.isSome_iff_exists.mp hsome
  exact ⟨.loop false, s', ⟨false, rfl, fun _ => rfl⟩, hs'⟩

/-- The number of steps of a run of the phase is bounded by the measure at its beginning. -/
theorem phase_bounded
    (hgood : ∀ t ∈ s₀.mTimers, s₀.expiry t ≤ s₀.now → rearmsLater (s₀.timer t))
    (h : InPhase s₀ s)
    (hp : (system T Th F capacity).Path loopMoves s as s') :
    as.length + s'.measure s₀.mTimers.length ≤ s.measure s₀.mTimers.length := by
  induction hp with
  | nil s => exact (Nat.zero_add _).le
  | @cons s s' s'' a as ha hstep _ ih =>
    obtain ⟨answer, rfl, hwrites⟩ := ha
    have hloop : loopStep capacity s answer = some s' := hstep
    have hless := measure_decreases h rfl hgood hloop (loop_changes h hloop hwrites)
    have hrest := ih (inPhase_step (moves_of_step hstep) h)
    rw [List.length_cons]
    omega

theorem phase_once
    (hgood : ∀ t ∈ s₀.mTimers, s₀.expiry t ≤ s₀.now → rearmsLater (s₀.timer t))
    (h : InPhase s₀ s) {b : ℕ} (honce : Once b (s.life t))
    (hp : (system T Th F capacity).Path loopMoves s as s') : Once b (s'.life t) := by
  induction hp with
  | nil s => exact honce
  | @cons s s' s'' a as ha hstep _ ih =>
    obtain ⟨answer, rfl, -⟩ := ha
    have hm := moves_of_step hstep
    refine ih (inPhase_step hm h) ?_
    refine once_step (h.disciplined.life_step hm t) (h.disciplined.consistent t) ?_ honce
    intro i hi
    exact h.rearmed hgood (loop_of_on hi)

/-- Where every due timer is put back for later, the measure goes down with every removal. -/
theorem timersEnd_of_good
    (hgood : ∀ t ∈ s₀.mTimers, s₀.expiry t ≤ s₀.now → rearmsLater (s₀.timer t))
    (hbegin : TimersBegin s₀) (h : InPhase s₀ s₀) :
    TimersEnd capacity s₀ where
  bounded := by
    refine ⟨s₀.measure s₀.mTimers.length, fun as s' hp => ?_⟩
    have hle := phase_bounded hgood h hp
    omega
  comes as s' hp := phase_comes (phase_path h hp)
  once as s' t hp := by
    refine (phase_once hgood h (once_begin (s₀.life t) ?_) hp).bound
    simp [State.life, hbegin.loop, LoopPoint.on]

/-- A run of any length in which the timer does not leave this course. -/
theorem phase_unbounded (capacity : ℕ+) (h : InPhase s₀ s) (hbad : Relentless (s₀.timer t))
    (hr : Recurs (s.life t)) (hnot : ∀ n w, s.loop ≠ .epollWait n w) (n : ℕ) :
    ∃ as s', (system T Th F capacity).Path loopMoves s as s' ∧ as.length = n := by
  induction n generalizing s with
  | zero => exact ⟨[], s, .nil s, rfl⟩
  | succ n ih =>
    have hanswer : ∃ answer, (s.loop = .exec t .callback → answer = true) ∧
        (s.loop.writes = true → answer = false) := by
      by_cases hcall : s.loop = .exec t .callback
      · exact ⟨true, fun _ => rfl, by simp [hcall, LoopPoint.writes]⟩
      · exact ⟨false, fun hin => absurd hin hcall, fun _ => rfl⟩
    obtain ⟨answer, hcall, hwrites⟩ := hanswer
    rcases loop_enabled capacity h answer with ⟨now, wait, hwait⟩ | hsome
    · exact absurd hwait (hnot now wait)
    · obtain ⟨s', hstep⟩ := Option.isSome_iff_exists.mp hsome
      have hm := loopStep_cases hstep
      have hnot' : ∀ n w, s'.loop ≠ .epollWait n w := by
        intro m w hwait
        obtain ⟨hloop, hfront⟩ := epollWait_front hm hnot hwait
        rw [hr.front h.sorted hloop] at hfront
        cases hfront
      obtain ⟨as, s'', hp, hlen⟩ := ih (inPhase_step hm h) (recurs_step h hbad hm hcall hr) hnot'
      exact ⟨.loop answer :: as, s'', .cons ⟨answer, rfl, hwrites⟩ hstep hp, by simp [hlen]⟩

/-- With a due timer that repeats for ever, the phase has paths of any length. -/
theorem not_timersEnd (hbegin : TimersBegin s) (h : InPhase s s) (hmem : t ∈ s.mTimers)
    (hdue : s.expiry t ≤ s.now) (hbad : Relentless (s.timer t)) : ¬ TimersEnd capacity s := by
  intro hend
  obtain ⟨n, hn⟩ := hend.bounded
  have hr : Recurs (s.life t) := by
    refine ⟨Or.inl hmem, fun _ => hdue, ?_⟩
    intro e he
    simp [State.life, hbegin.loop, LoopPoint.on] at he
  obtain ⟨as, s', hp, hlen⟩ := phase_unbounded capacity h hbad hr (by simp [hbegin.loop]) (n + 1)
  have hle := hn as s' hp
  omega

/-- The timer phase ends if and only if no timer that is due when it begins has a handler and
repeats with the interval 0. -/
theorem timers_end_iff (hreach : (system T Th F capacity).Reachable Machine.anyStep s)
    (hbegin : TimersBegin s) : TimersEnd capacity s ↔
      ∀ t ∈ s.mTimers, (s.timer t).mExpiry ≤ s.now → (s.timer t).mRepeat = true →
        (s.timer t).mHandler = true → (s.timer t).mInterval ≠ 0 := by
  have h := inPhase_begin hbegin (disciplined hreach) (sorted hreach)
  constructor
  · intro hend t hmem hdue hrep hhandler hinterval
    exact not_timersEnd hbegin h hmem hdue ⟨hrep, hhandler, hinterval⟩ hend
  · intro hgood
    exact timersEnd_of_good hgood hbegin h

section Runs

/-- A repeating timer is started with the interval 0, and the loop comes to the phase. -/
def startZero : List (Action Unit Unit Unit) :=
  [.setHandler () true, .start () () 0 true] ++ List.replicate 8 (.thread () false) ++
    [.enter, .loop false]

def zeroStarted : State Unit Unit Unit :=
  (system Unit Unit Unit oneSlot).after Machine.anyStep (State.start 0) startZero

theorem zeroStarted_reachable :
    (system Unit Unit Unit oneSlot).Reachable Machine.anyStep zeroStarted :=
  Machine.reachable_after (initial_start oneSlot) (by decide +kernel)

theorem zeroStarted_begins : TimersBegin zeroStarted where
  loop := by decide +kernel
  lock := by decide +kernel
  calls th t c := by
    have hidle : zeroStarted.thread () = .idle := by decide +kernel
    cases th
    rw [hidle]
    simp

theorem timers_end_iff_zero : TimersEnd oneSlot zeroStarted ↔
    ∀ t ∈ zeroStarted.mTimers, (zeroStarted.timer t).mExpiry ≤ zeroStarted.now →
      (zeroStarted.timer t).mRepeat = true → (zeroStarted.timer t).mHandler = true →
        (zeroStarted.timer t).mInterval ≠ 0 :=
  timers_end_iff zeroStarted_reachable zeroStarted_begins

/-- The interval is 0, so that the timer is due at once when it is put back. -/
theorem timers_never_end :
    ¬ ∀ s, (system Unit Unit Unit oneSlot).Reachable Machine.anyStep s → TimersBegin s →
      TimersEnd oneSlot s := by
  intro h
  have hend := h zeroStarted zeroStarted_reachable zeroStarted_begins
  refine not_timersEnd zeroStarted_begins ?_ (t := ()) ?_ ?_ ⟨?_, ?_, ?_⟩ hend
  · exact inPhase_begin zeroStarted_begins (disciplined zeroStarted_reachable)
      (sorted zeroStarted_reachable)
  · decide +kernel
  · show (zeroStarted.timer ()).mExpiry ≤ zeroStarted.now
    decide +kernel
  · decide +kernel
  · decide +kernel
  · decide +kernel

end Runs

end CWrapper.MainLoop
