import CWrapper.TimerPhase

/-!
Why the timer phase ends when no due timer can be put back with an expiry that is due. What
decreases is the number of due timers in the list, and between two removals the steps that are
left until the next one or until epoll_wait.
-/
namespace CWrapper.MainLoop

open Timer (Object Control Exec makeExpiry)
open TimerLife Transition

/-- A timer that is put back is never due at once. -/
def rearmsLater (c : Object) : Prop :=
  c.mRepeat = true → c.mHandler = true → c.mInterval ≠ 0

theorem makeExpiry_gt {interval : Timer.Msec} {now : ℕ} (hnow : now ≤ Timer.MaxTick)
    (h : interval ≠ 0) : now < makeExpiry interval now := by
  by_cases hinf : interval = Timer.Infinite
  · rw [makeExpiry, if_pos hinf]
    have hmax : Timer.MaxTick < UInt64.size - 1 := by decide
    omega
  · rw [makeExpiry_add hnow hinf]
    have hpos : interval.toNat ≠ 0 := by
      intro hzero
      apply h
      cases interval
      simp_all [OfNat.ofNat]
    omega

def execRank (n : ℕ) : Exec → ℕ
  | .popFront _ => 1
  | .clearRequest => 2
  | .exchange => 3
  | .broadcastStopped | .broadcastQueued | .requeueBroadcast => 7
  | .storeStopped | .storeQueued => 8
  | .requeueRemoveWake => 9
  | .requeueRemove => 10
  | .requeueTestAgain => 11
  | .requeueWake => 12
  | .requeueScan i => 13 + (n - i)
  | .requeueLock => 14 + n
  | .requeueTest => 15 + n
  | .requeueLoad => 16 + n
  | .broadcastPending => 17 + n
  | .storePending => 18 + n
  | .storeExpiry _ => 19 + n
  | .readTick _ => 20 + n
  | .testStop .. => 21 + n
  | .readConfig _ => 22 + n
  | .callback => 23 + n
  | .call => 24 + n
  | .readHandler => 25 + n

theorem execRank_le (n : ℕ) (e : Exec) : execRank n e ≤ n + 25 := by
  cases e <;> simp only [execRank] <;> omega

theorem executeStep_rank {o o' : Object} {now n : ℕ} {keep : Bool} {e e' : Exec}
    (h : Timer.executeStep o now keep e = some (o', e')) : execRank n e' < execRank n e := by
  cases e <;> simp only [Timer.executeStep] at h <;> (try split at h) <;> cases h <;>
    simp only [execRank] <;> omega

variable {T Th F : Type}

def State.dueCount (s : State T Th F) : ℕ := s.mTimers.countP s.due

/-- The steps that are left until the next removal from the list, or until epoll_wait. -/
def State.rank (n : ℕ) (s : State T Th F) : ℕ :=
  match s.loop with
  | .takeTimer => if s.frontDue then 5 else 3
  | .readFront _ => if s.frontDue then 4 else 2
  | .exec _ e => execRank n e
  | .nextTimeout => if s.frontDue then 6 else 1
  | _ => 0

def State.measure (n : ℕ) (s : State T Th F) : ℕ := s.dueCount * (n + 26) + s.rank n

variable {s₀ s s' : State T Th F} {n : ℕ}

theorem rank_le (n : ℕ) (s : State T Th F) : s.rank n ≤ n + 25 := by
  have hexec := execRank_le n
  unfold State.rank
  split
  · split <;> omega
  · split <;> omega
  · exact hexec _
  · split <;> omega
  · omega

theorem measure_of_rank (hcount : s'.dueCount = s.dueCount) (hrank : s'.rank n < s.rank n) :
    s'.measure n < s.measure n := by
  unfold State.measure
  rw [hcount]
  omega

theorem measure_of_count (hcount : s'.dueCount < s.dueCount) : s'.measure n < s.measure n := by
  have hrank := rank_le n s'
  have hmul : (s'.dueCount + 1) * (n + 26) ≤ s.dueCount * (n + 26) :=
    Nat.mul_le_mul_right _ hcount
  unfold State.measure
  rw [Nat.succ_mul] at hmul
  omega

theorem dueCount_congr (hlist : s'.mTimers = s.mTimers) (hnow : s'.now = s.now)
    (hexpiry : ∀ t ∈ s.mTimers, s'.expiry t = s.expiry t) : s'.dueCount = s.dueCount := by
  unfold State.dueCount
  rw [hlist]
  refine List.countP_congr fun t ht => ?_
  rw [due_iff, due_iff, hexpiry t ht, hnow]

variable [DecidableEq T]

theorem InPhase.length_le (h : InPhase s₀ s) : s.mTimers.length ≤ s₀.mTimers.length :=
  (List.subperm_of_subset h.disciplined.listing.nodup fun t ht => (h.listed t ht).1).length_le

/-- The timer that is put back is not due, if its configuration says so. -/
theorem InPhase.rearmed (h : InPhase s₀ s)
    (hgood : ∀ t ∈ s₀.mTimers, s₀.expiry t ≤ s₀.now → rearmsLater (s₀.timer t)) {t : T} {i : ℕ}
    (hloop : s.loop = .exec t (.requeueScan i)) : s.now < s.expiry t := by
  obtain ⟨hmem, hdue, hexpiry, hrep, hhandler⟩ := h.taken t _ hloop
  rw [hexpiry, h.now]
  refine makeExpiry_gt ?_ (hgood t hmem hdue hrep hhandler)
  rw [← h.now]
  exact h.disciplined.clocked.bound

variable {capacity : ℕ+} {answer : Bool}

/-- In the phase the loop thread can always go on. -/
theorem loop_enabled (capacity : ℕ+) (h : InPhase s₀ s) (answer : Bool) :
    (∃ now timeToWait, s.loop = .epollWait now timeToWait) ∨
      (loopStep capacity s answer).isSome = true := by
  have hpoint := h.point
  cases hloop : s.loop with
  | takeTimer =>
    refine Or.inr ?_
    simp [loopStep, hloop, h.free (by simp [hloop, LoopPoint.inSection])]
  | readFront now =>
    refine Or.inr ?_
    simp only [loopStep, hloop]
    split
    · rfl
    · split <;> rfl
  | nextTimeout =>
    refine Or.inr ?_
    simp [loopStep, hloop, h.free (by simp [hloop, LoopPoint.inSection])]
  | epollWait now timeToWait => exact Or.inl ⟨now, timeToWait, rfl⟩
  | exec t e =>
    refine Or.inr ?_
    simp only [loopStep, hloop]
    cases e with
    | exchange =>
      simp only [execStep, Timer.executeStep]
      by_cases hqueued : (s.timer t).mState = .queued
      · simp [hqueued]
      · simp [hqueued]
    | requeueLock =>
      have hlock := h.free (by simp [hloop, LoopPoint.inSection, locked])
      simp only [execStep, Timer.executeStep, hlock, if_true]
      split <;> rfl
    | requeueRemove =>
      have hlock := h.free (by simp [hloop, LoopPoint.inSection, locked])
      simp [execStep, Timer.executeStep, hlock]
    | requeueScan i =>
      simp only [execStep, Timer.executeStep]
      split <;> rfl
    | requeueWake | requeueRemoveWake => cases answer <;> rfl
    | _ => rfl
  | _ => simp [hloop, LoopPoint.inTimers] at hpoint

theorem executeStep_ne {o o' : Object} {now : ℕ} {keep : Bool} {e e' : Exec}
    (h : Timer.executeStep o now keep e = some (o', e')) : e' ≠ e := by
  cases e <;> simp only [Timer.executeStep] at h <;> (try split at h) <;> cases h <;> simp

/-- A step of the phase that is no interrupted write moves the loop thread. -/
theorem loop_changes (h : InPhase s₀ s) (hstep : loopStep capacity s answer = some s')
    (hwrites : s.loop.writes = true → answer = false) : s'.loop ≠ s.loop := by
  have hpoint := h.point
  cases hloop : s.loop with
  | takeTimer =>
    simp only [loopStep, hloop] at hstep
    split at hstep <;> cases hstep
    simp
  | readFront now =>
    simp only [loopStep, hloop] at hstep
    split at hstep
    · cases hstep
      simp
    · split at hstep <;> cases hstep <;> simp
  | nextTimeout =>
    simp only [loopStep, hloop] at hstep
    split at hstep <;> cases hstep
    dsimp only
    split <;> simp
  | epollWait now timeToWait => simp [loopStep, hloop] at hstep
  | exec t e =>
    simp only [loopStep, hloop, execStep] at hstep
    split at hstep
    · rename_i o e' hexec
      cases hstep
      have hne := executeStep_ne hexec
      simp [hne]
    · cases e with
      | popFront canExecute => cases hstep; cases canExecute <;> simp
      | requeueLock =>
        dsimp only at hstep
        split at hstep
        · split at hstep <;> cases hstep <;> simp
        · cases hstep
      | requeueRemove =>
        dsimp only at hstep
        split at hstep <;> cases hstep
        simp
      | requeueScan i =>
        dsimp only at hstep
        split at hstep <;> cases hstep <;> simp
      | requeueWake =>
        obtain rfl := hwrites (by rw [hloop]; rfl)
        cases hstep
        simp
      | requeueRemoveWake =>
        obtain rfl := hwrites (by rw [hloop]; rfl)
        cases hstep
        simp
      | broadcastPending | broadcastStopped | requeueBroadcast | broadcastQueued =>
        cases hstep
        simp
      | _ => cases hstep
  | _ => simp [hloop, LoopPoint.inTimers] at hpoint

/-- runTimers takes nothing from the list only if its first timer is not due. -/
theorem noneExpired_front {now : ℕ} (hstep : loopStep capacity s answer = some s')
    (hloop : s.loop = .readFront now) (hnow : now = s.now) (hnext : s'.loop = .nextTimeout) :
    s.frontDue = false := by
  subst hnow
  simp only [loopStep, hloop] at hstep
  split at hstep
  · rename_i hlist
    exact frontDue_nil hlist
  · rename_i t rest hlist
    split at hstep
    · rename_i hlate
      rw [frontDue_cons hlist, ← Bool.not_eq_true, due_iff]
      exact not_le.mpr hlate
    · obtain rfl := Option.some.inj hstep
      cases hnext

variable [DecidableEq Th]

/-- Every step that moves the loop thread brings the end of the phase nearer. -/
theorem measure_decreases (h : InPhase s₀ s) (hn : s₀.mTimers.length = n)
    (hgood : ∀ t ∈ s₀.mTimers, s₀.expiry t ≤ s₀.now → rearmsLater (s₀.timer t))
    (hstep : loopStep capacity s answer = some s') (hmoves : s'.loop ≠ s.loop) :
    s'.measure n < s.measure n := by
  have hm := loopStep_cases hstep
  have hm' := hm
  have hnext := @noneExpired_front _ _ _ s s' _ capacity answer
  cases hm with
  | stay => exact absurd rfl hmoves
  | takeTimer _ hloop hlock =>
    refine measure_of_rank rfl ?_
    show (if s.frontDue then 4 else 2) < s.rank n
    rw [State.rank, hloop]
    split <;> simp_all
  | noneExpired _ now hloop =>
    have hdue := hnext hstep hloop ((h.read now hloop).trans h.now.symm) rfl
    refine measure_of_rank rfl ?_
    show (if s.frontDue then 6 else 1) < s.rank n
    simp [State.rank, hloop, hdue]
  | expired _ now t rest hloop hfront hexp =>
    have hdue : s.frontDue = true := by
      rw [h.read now hloop, ← h.now] at hexp
      rw [frontDue_cons hfront]
      exact due_iff.mpr hexp
    refine measure_of_rank rfl ?_
    show execRank n .exchange < s.rank n
    simp [State.rank, hloop, hdue, execRank]
  | nextTimeout _ hloop hlock =>
    refine measure_of_rank rfl ?_
    cases hdue : s.frontDue with
    | false =>
      have hlater := getNextTimerTimeout_eq_zero.not.mpr (ne_true_of_eq_false hdue)
      simp [State.rank, hloop, hdue, hlater]
    | true =>
      have hdue' : ({ s with loop := .takeTimer } : State T Th F).frontDue = true := hdue
      simp [State.rank, hloop, hdue, hdue', getNextTimerTimeout_eq_zero.mpr hdue]
  | execute _ t e e' o hloop hstep' =>
    refine measure_of_rank (dueCount_congr rfl rfl fun u hu => ?_) ?_
    · exact h.disciplined.expiry_step hm' (Or.inl hu)
    · show execRank n e' < s.rank n
      rw [State.rank, hloop]
      exact executeStep_rank hstep'
  | popFront _ t canExecute hloop =>
    refine measure_of_count ?_
    have hhead := h.disciplined.listing.front t _ hloop trivial
    obtain ⟨rest, hlist⟩ := List.head?_eq_some_iff.mp hhead
    have hdue : s.expiry t ≤ s.now := by
      rw [h.now]
      exact (h.taken t _ hloop).2.2
    show s.mTimers.tail.countP s.due < s.mTimers.countP s.due
    rw [hlist, List.tail_cons, List.countP_cons_of_pos (due_iff.mpr hdue)]
    exact Nat.lt_succ_self _
  | broadcastPending _ t hloop =>
    refine measure_of_rank rfl ?_
    show execRank n .requeueLoad < s.rank n
    simp [State.rank, hloop, execRank]
  | broadcastLast _ t e hloop he =>
    refine measure_of_rank rfl ?_
    show (if s.frontDue then 6 else 1) < s.rank n
    rcases he with rfl | rfl | rfl <;> simp only [State.rank, hloop, execRank] <;> split <;> omega
  | requeueFound _ t hloop hlock hmem => exact absurd hmem (h.not_listed hloop)
  | requeueLock _ t hloop hlock hnot =>
    refine measure_of_rank rfl ?_
    show execRank n (.requeueScan 0) < s.rank n
    simp only [State.rank, hloop, execRank]
    omega
  | requeueScan _ t i hloop hpos =>
    have hi := lt_length_of_not_insertsAt hpos
    have hlen := h.length_le
    refine measure_of_rank rfl ?_
    show execRank n (.requeueScan (i + 1)) < s.rank n
    simp only [State.rank, hloop, execRank]
    omega
  | requeueInsert _ t i hloop hpos =>
    have hlater := h.rearmed hgood hloop
    obtain ⟨-, hi⟩ := h.disciplined.listing.loop t i hloop
    refine measure_of_rank ?_ ?_
    · show (s.mTimers.insertIdx i t).countP s.due = s.mTimers.countP s.due
      rw [(List.perm_insertIdx t s.mTimers hi).countP_eq]
      refine List.countP_cons_of_neg ?_
      rw [due_iff]
      exact not_le.mpr hlater
    · show execRank n .requeueWake < s.rank n
      simp only [State.rank, hloop, execRank]
      omega
  | requeueWake _ t hloop =>
    refine measure_of_rank rfl ?_
    show execRank n .requeueTestAgain < s.rank n
    simp [State.rank, hloop, execRank]
  | requeueRemoveWake _ t hloop =>
    refine measure_of_rank rfl ?_
    show execRank n .storeStopped < s.rank n
    simp [State.rank, hloop, execRank]
  | requeueRemove _ t hloop hlock =>
    have hle : (s.mTimers.erase t).countP s.due ≤ s.mTimers.countP s.due :=
      List.erase_sublist.countP_le
    rcases hle.lt_or_eq with hlt | heq
    · exact measure_of_count hlt
    · refine measure_of_rank heq ?_
      show execRank n .requeueRemoveWake < s.rank n
      simp [State.rank, hloop, execRank]
  | readInterrupted _ _ _ hloop | readEmpty _ _ _ hloop | readByte _ _ _ _ _ hloop =>
    have hpoint := h.point
    rcases hloop with ⟨hloop, -⟩ | hloop <;> simp [hloop, LoopPoint.inTimers] at hpoint
  | _ =>
    have hpoint := h.point
    simp_all [LoopPoint.inTimers]

end CWrapper.MainLoop
