import CWrapper.TimerFiring

/-!
The timer phase of loopOnce, the loop over runTimers, from its first step to epoll_wait. The clock
stands still and no control call is in progress, so that the loop thread is the only one to touch
the list. A timer that is put back has the expiry that executeFromLoop has computed from the same
clock.
-/
namespace CWrapper.MainLoop

open Timer (Object Call Control Exec History Msec makeExpiry)
open TimerLife Transition

variable {T Th F : Type}

/-- The loop thread is in the timer phase, or has come to epoll_wait. -/
def LoopPoint.inTimers : LoopPoint T F → Bool
  | .takeTimer | .readFront _ | .exec _ _ | .nextTimeout | .epollWait _ _ => true
  | _ => false

/-- The next step is a write to the pipe, which is repeated when it is interrupted. -/
def LoopPoint.writes : LoopPoint T F → Bool
  | .exec _ .requeueWake | .exec _ .requeueRemoveWake => true
  | _ => false

/-- A step of the loop thread, interrupted writes not counted. -/
def loopMoves (s : State T Th F) (a : Action T Th F) : Prop :=
  ∃ answer, a = .loop answer ∧ (s.loop.writes = true → answer = false)

structure TimersBegin (s : State T Th F) : Prop where
  loop : s.loop = .takeTimer
  lock : s.mTimerLock = none
  calls : ∀ th t c, s.thread th ≠ .timer t c

def State.due (s : State T Th F) (t : T) : Bool := decide (s.expiry t ≤ s.now)

def State.frontDue (s : State T Th F) : Bool :=
  match s.mTimers with
  | [] => false
  | t :: _ => s.due t

section Front

variable {s : State T Th F}

theorem due_iff {t : T} : s.due t = true ↔ s.expiry t ≤ s.now := decide_eq_true_iff

theorem frontDue_cons {t : T} {rest : List T} (hlist : s.mTimers = t :: rest) :
    s.frontDue = s.due t := by
  rw [State.frontDue, hlist]

theorem frontDue_nil (hlist : s.mTimers = []) : s.frontDue = false := by
  rw [State.frontDue, hlist]

theorem getNextTimerTimeout_eq_zero :
    getNextTimerTimeoutLocked s.timer s.mTimers s.now = 0 ↔ s.frontDue = true := by
  unfold getNextTimerTimeoutLocked
  split
  · rename_i hlist
    simp [frontDue_nil hlist, WaitTimeMs]
  · rename_i t rest hlist
    rw [frontDue_cons hlist, due_iff]
    show (if s.expiry t ≤ s.now then 0 else if s.expiry t - s.now > WaitTimeMs then WaitTimeMs
      else s.expiry t - s.now) = 0 ↔ s.expiry t ≤ s.now
    have hwait : WaitTimeMs ≠ 0 := by decide
    by_cases hdue : s.expiry t ≤ s.now
    · simp [hdue]
    · rw [if_neg hdue]
      split <;> omega

end Front

/-- What the configuration `c` and the clock say about an execution and mExpiry. -/
def Serves (c : Object) (now expiry : ℕ) : Exec → Prop
  | .exchange | .clearRequest | .popFront _ => expiry ≤ now
  | .testStop _ interval rep hasHandler =>
      interval = c.mInterval ∧ rep = c.mRepeat ∧ hasHandler = c.mHandler
  | .readTick interval => interval = c.mInterval ∧ c.mRepeat = true ∧ c.mHandler = true
  | .storeExpiry x => x = makeExpiry c.mInterval now ∧ c.mRepeat = true ∧ c.mHandler = true
  | .storePending | .broadcastPending | .requeueLoad | .requeueTest | .requeueLock
  | .requeueScan _ =>
      expiry = makeExpiry c.mInterval now ∧ c.mRepeat = true ∧ c.mHandler = true
  | _ => True

def SameConfig (o c : Object) : Prop :=
  o.mInterval = c.mInterval ∧ o.mRepeat = c.mRepeat ∧ o.mHandler = c.mHandler

theorem executeStep_config {o o' : Object} {now : ℕ} {keep : Bool} {e e' : Exec}
    (h : Timer.executeStep o now keep e = some (o', e')) : SameConfig o' o := by
  cases e <;> simp only [Timer.executeStep] at h <;> (try split at h) <;> cases h <;>
    exact ⟨rfl, rfl, rfl⟩

theorem executeStep_serves {o o' c : Object} {now : ℕ} {keep : Bool} {e e' : Exec}
    (h : Timer.executeStep o now keep e = some (o', e')) (hc : SameConfig o c)
    (hs : Serves c now o.mExpiry e) : Serves c now o'.mExpiry e' := by
  obtain ⟨hinterval, hrep, hhandler⟩ := hc
  cases e <;> simp only [Timer.executeStep] at h <;> (try split at h) <;> cases h <;>
    simp_all [Serves]

variable [DecidableEq T]

structure InPhase (s₀ s : State T Th F) : Prop where
  disciplined : Disciplined s
  sorted : Sorted s
  point : s.loop.inTimers = true
  calls : ∀ th t c, s.thread th ≠ .timer t c
  lock : s.mTimerLock = none ∨ s.loop.inSection
  now : s.now = s₀.now
  read : ∀ n, s.loop = .readFront n → n = s₀.now
  config : ∀ t, SameConfig (s.timer t) (s₀.timer t)
  listed : ∀ t ∈ s.mTimers, t ∈ s₀.mTimers ∧ (s.expiry t ≤ s₀.now → s₀.expiry t ≤ s₀.now)
  taken : ∀ t e, s.loop = .exec t e → t ∈ s₀.mTimers ∧ s₀.expiry t ≤ s₀.now ∧
    Serves (s₀.timer t) s₀.now (s.expiry t) e

variable {s₀ s s' : State T Th F}

theorem inPhase_begin (h : TimersBegin s) (hd : Disciplined s) (hsorted : Sorted s) :
    InPhase s s where
  disciplined := hd
  sorted := hsorted
  point := by rw [h.loop]; rfl
  calls := h.calls
  lock := Or.inl h.lock
  now := rfl
  read n hn := by rw [h.loop] at hn; cases hn
  config t := ⟨rfl, rfl, rfl⟩
  listed t ht := ⟨ht, id⟩
  taken t e he := by rw [h.loop] at he; cases he

theorem InPhase.free (h : InPhase s₀ s) (hout : ¬ s.loop.inSection) : s.mTimerLock = none :=
  h.lock.resolve_right hout

/-- A step of the execution of `t` that leaves all timers as they are, and puts no other timer
into the list. -/
theorem InPhase.advance (h : InPhase s₀ s) {t : T} {e e' : Exec} (hloop : s.loop = .exec t e)
    (hd : Disciplined s') (hsorted : Sorted s') (hloop' : s'.loop = .exec t e')
    (hcalls : ∀ th u c, s'.thread th ≠ .timer u c)
    (hlock : s'.mTimerLock = none ∨ s'.loop.inSection) (htimer : s'.timer = s.timer)
    (hnow : s'.now = s.now) (hlist : ∀ u ∈ s'.mTimers, u = t ∨ u ∈ s.mTimers)
    (hserves : Serves (s₀.timer t) s₀.now (s.expiry t) e →
      Serves (s₀.timer t) s₀.now (s.expiry t) e') : InPhase s₀ s' := by
  obtain ⟨hmem, hdue, hs⟩ := h.taken t e hloop
  have hexpiry (u : T) : s'.expiry u = s.expiry u := by
    rw [State.expiry, State.expiry, htimer]
  refine ⟨hd, hsorted, by rw [hloop']; rfl, hcalls, hlock, hnow.trans h.now, ?_, ?_, ?_, ?_⟩
  · intro n hn
    rw [hloop'] at hn
    cases hn
  · rw [htimer]
    exact h.config
  · intro u hu
    rw [hexpiry]
    rcases hlist u hu with rfl | hu
    · exact ⟨hmem, fun _ => hdue⟩
    · exact h.listed u hu
  · intro u f hu
    obtain ⟨rfl, rfl⟩ := LoopPoint.exec.inj (hloop'.symm.trans hu)
    rw [hexpiry]
    exact ⟨hmem, hdue, hserves hs⟩

variable {capacity : ℕ+} {answer : Bool}

variable [DecidableEq Th]

theorem calls_wakeAll {thread : Th → ThreadPoint T F} (h : ∀ th t c, thread th ≠ .timer t c)
    (u : T) (th : Th) (t : T) (c : Control) : wakeAll u thread th ≠ .timer t c := by
  intro hth
  obtain ⟨c', hc'⟩ := wakeAll_timer hth
  exact h th t c' hc'

theorem InPhase.not_listed (h : InPhase s₀ s) {t : T} (hloop : s.loop = .exec t .requeueLock) :
    t ∉ s.mTimers := h.disciplined.requeue_not_listed hloop

/-- The timers of the list keep their expiry, so a list that has not grown stays as it was. -/
theorem InPhase.listed_sub (h : InPhase s₀ s) (hm : Moves capacity s (.loop answer) s')
    (hsub : s'.mTimers ⊆ s.mTimers) :
    ∀ t ∈ s'.mTimers, t ∈ s₀.mTimers ∧ (s'.expiry t ≤ s₀.now → s₀.expiry t ≤ s₀.now) := by
  intro t ht
  obtain ⟨hmem, hdue⟩ := h.listed t (hsub ht)
  rw [h.disciplined.expiry_step hm (Or.inl (hsub ht))]
  exact ⟨hmem, hdue⟩

/-- A step of the loop thread within the phase keeps to the timers that the phase began with. -/
theorem inPhase_step (hm : Moves capacity s (.loop answer) s') (h : InPhase s₀ s) :
    InPhase s₀ s' := by
  have hd' := disciplined_step hm h.disciplined
  have hsorted' := sorted_step hm h.disciplined h.sorted
  have hm' := hm
  cases hm with
  | stay => exact h
  | takeTimer _ hloop hlock =>
    refine ⟨hd', hsorted', rfl, h.calls, Or.inr trivial, h.now, ?_, h.config, h.listed, by simp⟩
    intro n hn
    cases hn
    exact h.now
  | noneExpired _ n hloop =>
    exact ⟨hd', hsorted', rfl, h.calls, Or.inl rfl, h.now, by simp, h.config, h.listed, by simp⟩
  | expired _ n t rest hloop hfront hexp =>
    refine ⟨hd', hsorted', rfl, h.calls, Or.inr trivial, h.now, by simp, h.config, h.listed, ?_⟩
    intro u e hu
    obtain ⟨rfl, rfl⟩ := LoopPoint.exec.inj hu
    have hread := h.read n hloop
    subst hread
    obtain ⟨hmem, hdue⟩ := h.listed t (by simp [hfront])
    exact ⟨hmem, hdue hexp, hexp⟩
  | nextTimeout _ hloop hlock =>
    refine ⟨hd', hsorted', ?_, h.calls, Or.inl hlock, h.now, ?_, h.config, h.listed, ?_⟩
    · dsimp only
      split <;> rfl
    · intro n hn
      dsimp only at hn
      split at hn <;> cases hn
    · intro t e he
      dsimp only at he
      split at he <;> cases he
  | execute _ t e e' o hloop hstep =>
    refine ⟨hd', hsorted', rfl, h.calls, ?_, h.now, by simp, ?_,
      h.listed_sub hm' (List.Subset.refl _), ?_⟩
    · rcases h.lock with hfree | hin
      · exact Or.inl hfree
      · rw [hloop] at hin
        exact Or.inr ((executeStep_locked hstep).mpr hin)
    · intro u
      by_cases hu : u = t
      · subst hu
        obtain ⟨h1, h2, h3⟩ := executeStep_config hstep
        obtain ⟨h4, h5, h6⟩ := h.config u
        simp only [SameConfig, Function.update_self]
        exact ⟨h1.trans h4, h2.trans h5, h3.trans h6⟩
      · simp only [Function.update_of_ne hu]
        exact h.config u
    · intro u f hu
      obtain ⟨rfl, rfl⟩ := LoopPoint.exec.inj hu
      obtain ⟨hmem, hdue, hserves⟩ := h.taken t e hloop
      refine ⟨hmem, hdue, ?_⟩
      have hnow := h.now
      rw [← hnow] at hserves ⊢
      simp only [State.expiry, Function.update_self]
      exact executeStep_serves hstep (h.config t) hserves
  | popFront _ t canExecute hloop =>
    obtain ⟨hmem, hdue, -⟩ := h.taken t _ hloop
    refine ⟨hd', hsorted', ?_, h.calls, Or.inl rfl, h.now, ?_, h.config,
      h.listed_sub hm' (List.tail_subset _), ?_⟩
    · dsimp only
      split <;> rfl
    · intro n hn
      dsimp only at hn
      split at hn <;> cases hn
    · intro u e hu
      dsimp only at hu
      split at hu
      · obtain ⟨rfl, rfl⟩ := LoopPoint.exec.inj hu
        exact ⟨hmem, hdue, trivial⟩
      · cases hu
  | broadcastPending _ t hloop =>
    have hfree := h.free (by simp [hloop, LoopPoint.inSection, locked])
    exact h.advance hloop hd' hsorted' rfl (calls_wakeAll h.calls t) (Or.inl hfree) rfl rfl
      (fun _ => Or.inr) id
  | broadcastLast _ t e hloop he =>
    have hfree : s.mTimerLock = none := by
      refine h.free ?_
      rw [hloop]
      rcases he with rfl | rfl | rfl <;> exact id
    exact ⟨hd', hsorted', rfl, calls_wakeAll h.calls t, Or.inl hfree, h.now, by simp, h.config,
      h.listed, by simp⟩
  | requeueFound _ t hloop hlock hmem => exact absurd hmem (h.not_listed hloop)
  | requeueLock _ t hloop hlock hnot =>
    exact h.advance hloop hd' hsorted' rfl h.calls (Or.inr trivial) rfl rfl (fun _ => Or.inr) id
  | requeueScan _ t i hloop hpos =>
    exact h.advance hloop hd' hsorted' rfl h.calls (Or.inr trivial) rfl rfl (fun _ => Or.inr) id
  | requeueInsert _ t i hloop hpos =>
    exact h.advance hloop hd' hsorted' rfl h.calls (Or.inl rfl) rfl rfl
      (fun _ => List.eq_or_mem_of_mem_insertIdx) fun _ => trivial
  | requeueWake _ t hloop | requeueRemoveWake _ t hloop =>
    have hfree := h.free (by simp [hloop, LoopPoint.inSection, locked])
    exact h.advance hloop hd' hsorted' rfl h.calls (Or.inl hfree) rfl rfl (fun _ => Or.inr)
      fun _ => trivial
  | requeueRemove _ t hloop hlock =>
    exact h.advance hloop hd' hsorted' rfl h.calls (Or.inl hlock) rfl rfl
      (fun _ hu => Or.inr (List.mem_of_mem_erase hu)) fun _ => trivial
  | readInterrupted _ _ _ hloop | readEmpty _ _ _ hloop | readByte _ _ _ _ _ hloop =>
    have hpoint := h.point
    rcases hloop with ⟨hloop, -⟩ | hloop <;> simp [hloop, LoopPoint.inTimers] at hpoint
  | _ =>
    have hpoint := h.point
    simp_all [LoopPoint.inTimers]

end CWrapper.MainLoop
