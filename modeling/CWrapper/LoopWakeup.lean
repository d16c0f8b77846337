import CWrapper.TimerList

/-!
What the command pipe gives. Whoever leaves work for the loop thread writes a byte before
the call returns, and a byte is only dropped when the pipe is full; so once the loop thread
has passed the queue or has computed its timeout, later work shows as a byte that
epoll_wait does not sleep on. The same byte, or the ones in its way, bring the loop thread
to the test of mTerminated.
-/
set_option linter.unusedSectionVars false

namespace CWrapper.MainLoop

open Timer (Object Control Exec)
open TimerLife Transition

variable {T Th F : Type} [DecidableEq T] [DecidableEq Th]
variable {capacity : ℕ+} {s s' : State T Th F} {a : Action T Th F}

theorem writePipe_ne_nil (capacity : ℕ+) (pipe : List LoopCommand) (c : LoopCommand) :
    writePipe capacity pipe c ≠ [] := by
  unfold writePipe
  split
  · simp
  · rename_i hfull
    rintro rfl
    exact hfull capacity.pos

/-- The loop thread reads the pipe before it sleeps again. -/
def LoopPoint.draining : LoopPoint T F → Bool
  | .drain _ _ | .testTerminated _ _ => true
  | _ => false

/-- Only the loop thread empties the pipe. -/
theorem pipe_step (hm : Moves capacity s a s') (hpipe : s'.pipe = []) :
    s.pipe = [] ∨ s'.loop.draining = true := by
  cases hm with
  | postWrite th again func hth => exact absurd hpipe (writePipe_ne_nil _ _ _)
  | wakeup => exact absurd hpipe (writePipe_ne_nil _ _ _)
  | terminateWrite th again hth => exact absurd hpipe (writePipe_ne_nil _ _ _)
  | removeWake th again t k hth => exact absurd hpipe (writePipe_ne_nil _ _ _)
  | addWake th again t hth => exact absurd hpipe (writePipe_ne_nil _ _ _)
  | requeueWake keep t hloop => exact absurd hpipe (writePipe_ne_nil _ _ _)
  | requeueRemoveWake keep t hloop => exact absurd hpipe (writePipe_ne_nil _ _ _)
  | readByte answer terminated evs c rest hloop hbyte => exact Or.inr rfl
  | _ => exact Or.inl hpipe

/-- The loop thread does not look at mFunctions again before epoll_wait. -/
def LoopPoint.committed : LoopPoint T F → Bool
  | .takeTimer | .readFront _ | .exec _ _ | .nextTimeout | .epollWait _ _ => true
  | _ => false

def ThreadPoint.commands : ThreadPoint T F → Prop
  | .post _ | .terminate => True
  | _ => False

def SameCommands (thread thread' : Th → ThreadPoint T F) : Prop :=
  ∀ th p, p.commands → (thread' th = p ↔ thread th = p)

theorem SameCommands.refl (thread : Th → ThreadPoint T F) : SameCommands thread thread :=
  fun _ _ _ => Iff.rfl

theorem SameCommands.trans {thread thread' thread'' : Th → ThreadPoint T F}
    (h : SameCommands thread thread') (h' : SameCommands thread' thread'') :
    SameCommands thread thread'' := fun th p hp => (h' th p hp).trans (h th p hp)

theorem sameCommands_update {thread : Th → ThreadPoint T F} {th : Th} {p : ThreadPoint T F}
    (hth : ¬ (thread th).commands) (hp : ¬ p.commands) :
    SameCommands thread (Function.update thread th p) := by
  intro th' q hq
  by_cases he : th' = th
  · subst he
    rw [Function.update_self]
    constructor
    · rintro rfl
      exact absurd hq hp
    · rintro rfl
      exact absurd hq hth
  · rw [Function.update_of_ne he]

theorem sameCommands_goto {th : Th} {t : T} {c : Control} (hth : s.thread th = .timer t c)
    {p : ThreadPoint T F} (hp : ¬ p.commands) :
    SameCommands s.thread (Function.update s.thread th p) :=
  sameCommands_update (by rw [hth]; exact id) hp

theorem sameCommands_begin {th : Th} (hth : (s.thread th).betweenCalls) {p : ThreadPoint T F}
    (hp : ¬ p.commands) : SameCommands s.thread (Function.update s.thread th p) := by
  refine sameCommands_update ?_ hp
  intro hcommands
  unfold ThreadPoint.commands at hcommands
  split at hcommands
  · rename_i hpost
    rw [hpost] at hth
    exact hth
  · rename_i hterminate
    rw [hterminate] at hth
    exact hth
  · exact hcommands

theorem sameCommands_wakeAll (t : T) (thread : Th → ThreadPoint T F) :
    SameCommands thread (wakeAll t thread) := by
  intro th p hp
  unfold wakeAll
  split
  · rename_i hth
    rw [hth]
    cases p with
    | timer u c => exact hp.elim
    | _ => split <;> simp
  · rfl

/-- What a step can do to the queue of posted functions and to the request to terminate. -/
inductive CommandStep (capacity : ℕ+) (s s' : State T Th F) : Prop
  | none (hsame : SameCommands s.thread s'.thread) (hlock : s'.mFunctionLock = s.mFunctionLock)
      (hfunctions : s'.mFunctions = s.mFunctions ∨ s'.loop.committed = false)
      (hflag : s'.mTerminated = s.mTerminated)
      (hreturned : s'.terminateReturned = s.terminateReturned)
  | put (th : Th) (func : F) (hth : s.thread th = .idle) (hlock : s.mFunctionLock = .none)
      (hs' : s' = { s with
        mFunctions := s.mFunctions ++ [func]
        mFunctionLock := some th
        thread := Function.update s.thread th (.post func) })
  | written (th : Th) (func : F) (hth : s.thread th = .post func)
      (hs' : s' = { s with
        pipe := writePipe capacity s.pipe .wakeup
        mFunctionLock := .none
        thread := Function.update s.thread th .idle })
  | terminate (th : Th) (hth : s.thread th = .idle)
      (hs' : s' = { s with
        mTerminated := true
        thread := Function.update s.thread th .terminate })
  | terminated (th : Th) (hth : s.thread th = .terminate)
      (hs' : s' = { s with
        pipe := writePipe capacity s.pipe .terminate
        thread := Function.update s.thread th .idle
        terminateReturned := true })

theorem commandStep (hm : Moves capacity s a s') : CommandStep capacity s s' := by
  have hrefl := SameCommands.refl s.thread
  cases hm with
  | post th func hth hlock => exact .put th func hth hlock rfl
  | postWrite th again func hth => exact .written th func hth rfl
  | terminate th hth => exact .terminate th hth rfl
  | terminateWrite th again hth => exact .terminated th hth rfl
  | takeFunction answer executedAny func rest hloop hlock hfunc =>
    exact .none hrefl rfl (Or.inr rfl) rfl rfl
  | lockControl | restart | destroy =>
    exact .none (sameCommands_begin ‹_› id) rfl (Or.inl rfl) rfl rfl
  | object | remove | removeWake | testReleased | testBlock | block | spurious | addFound
  | addLock | addScan | addInsert | addWake | leave | returnDestroy =>
    exact .none (sameCommands_goto ‹_› id) rfl (Or.inl rfl) rfl rfl
  | broadcast th again t k hth =>
    refine .none ((sameCommands_wakeAll t s.thread).trans (sameCommands_update ?_ id)) rfl
      (Or.inl rfl) rfl rfl
    intro hcommands
    have hpoint := (sameCommands_wakeAll t s.thread th _ hcommands).mp rfl
    rw [← hpoint, hth] at hcommands
    exact hcommands
  | lockWait th again t k hth hlock =>
    rcases hth with hth | hth <;>
      exact .none (sameCommands_goto hth id) rfl (Or.inl rfl) rfl rfl
  | broadcastPending keep t hloop =>
    exact .none (sameCommands_wakeAll t s.thread) rfl (Or.inl rfl) rfl rfl
  | broadcastLast keep t e hloop he =>
    exact .none (sameCommands_wakeAll t s.thread) rfl (Or.inl rfl) rfl rfl
  | _ => exact .none hrefl rfl (Or.inl rfl) rfl rfl

/-- A post() that has put its function and not written its byte holds mFunctionLock. -/
def Posting (s : State T Th F) : Prop :=
  ∀ th func, s.thread th = .post func → s.mFunctionLock = some th

/-- post() holds mFunctionLock from its put to its write. -/
theorem posting_step (hm : Moves capacity s a s') (h : Posting s) : Posting s' := by
  intro th' func' hpost
  cases commandStep hm with
  | none hsame hlock hfunctions hflag hreturned =>
    rw [hlock]
    exact h th' func' ((hsame th' (.post func') trivial).mp hpost)
  | put th func hth hlock hs' =>
    subst hs'
    rcases update_eq_cases hpost with ⟨rfl, -⟩ | ⟨-, hpost⟩
    · rfl
    · have hheld := h th' func' hpost
      rw [hlock] at hheld
      cases hheld
  | written th func hth hs' =>
    subst hs'
    rcases update_eq_cases hpost with ⟨-, hp⟩ | ⟨hne, hpost⟩
    · cases hp
    · have hheld := h th' func' hpost
      rw [h th func hth] at hheld
      cases hheld
      exact absurd rfl hne
  | terminate th hth hs' =>
    subst hs'
    rcases update_eq_cases hpost with ⟨-, hp⟩ | ⟨-, hpost⟩
    · cases hp
    · exact h th' func' hpost
  | terminated th hth hs' =>
    subst hs'
    rcases update_eq_cases hpost with ⟨-, hp⟩ | ⟨-, hpost⟩
    · cases hp
    · exact h th' func' hpost

/-- The loop thread leaves the queue only when it found it empty. -/
theorem committed_step (hm : Moves capacity s a s') (h : s'.loop.committed = true) :
    s.loop.committed = true ∨ s.mFunctions = [] := by
  cases hm with
  | noFunction answer executedAny hloop hlock hempty => exact Or.inr hempty
  | testTerminated answer terminated evs hloop =>
    simp only at h
    split at h <;> cases h
  | epollReturn | takeTimer | noneExpired | expired | nextTimeout | execute | popFront
  | broadcastPending | broadcastLast | requeueFound | requeueLock | requeueScan | requeueInsert
  | requeueWake | requeueRemove | requeueRemoveWake =>
    exact Or.inl (by simp [‹s.loop = _›, LoopPoint.committed])
  | enter | takeFunction | invoke | batchDone | watcher | command | readInterrupted | readEmpty
  | readByte => cases h
  | _ => exact Or.inl h

/-- The queue is empty but for a post() that has yet to write its byte. -/
def QueueSeen (s : State T Th F) : Prop :=
  s.mFunctions = [] ∨ ∃ th func, s.thread th = .post func ∧ s.mFunctions = [func]

/-- Past the queue, and with nothing in the pipe, no function is left behind. -/
def FunctionsSeen (s : State T Th F) : Prop :=
  s.loop.committed = true → s.pipe = [] → QueueSeen s

theorem committed_not_draining {p : LoopPoint T F} (h : p.committed = true) :
    p.draining = false := by
  cases p <;> first | rfl | cases h

theorem QueueSeen.update (h : QueueSeen s) {th : Th} {p : ThreadPoint T F}
    (hth : ∀ func, s.thread th ≠ .post func) :
    s.mFunctions = [] ∨ ∃ th' func, Function.update s.thread th p th' = .post func ∧
      s.mFunctions = [func] := by
  rcases h with hempty | ⟨th', func, hpost, hone⟩
  · exact Or.inl hempty
  · have hne : th' ≠ th := by
      rintro rfl
      exact hth func hpost
    exact Or.inr ⟨th', func, by rw [Function.update_of_ne hne, hpost], hone⟩

/-- A function that comes after the look at the queue comes with a byte in the pipe, or is to have
one. -/
theorem functionsSeen_step (hm : Moves capacity s a s') (hposting : Posting s)
    (h : FunctionsSeen s) : FunctionsSeen s' := by
  intro hcommitted hpipe
  have hold : s.pipe = [] := by
    rcases pipe_step hm hpipe with hold | hdraining
    · exact hold
    · rw [committed_not_draining hcommitted] at hdraining
      cases hdraining
  cases commandStep hm with
  | none hsame hlock hfunctions hflag hreturned =>
    rcases hfunctions with hfunctions | hloop
    · unfold QueueSeen
      rw [hfunctions]
      rcases committed_step hm hcommitted with hloop | hempty
      · rcases h hloop hold with hempty | ⟨th, func, hth, hone⟩
        · exact Or.inl hempty
        · exact Or.inr ⟨th, func, (hsame th (.post func) trivial).mpr hth, hone⟩
      · exact Or.inl hempty
    · rw [hloop] at hcommitted
      cases hcommitted
  | put th func hth hlock hs' =>
    subst hs'
    rcases h hcommitted hold with hempty | ⟨th', func', hth', _⟩
    · exact Or.inr ⟨th, func, by simp, by simp [hempty]⟩
    · have hheld := hposting th' func' hth'
      rw [hlock] at hheld
      cases hheld
  | written th func hth hs' =>
    subst hs'
    exact absurd hpipe (writePipe_ne_nil _ _ _)
  | terminate th hth hs' =>
    subst hs'
    exact (h hcommitted hold).update (by simp [hth])
  | terminated th hth hs' =>
    subst hs'
    exact absurd hpipe (writePipe_ne_nil _ _ _)

/-- The tick at which a listed timer is due is not before the end of the wait, unless its
start() has yet to write its byte. -/
def TimersSeen (s : State T Th F) : Prop :=
  ∀ now timeToWait, s.loop = .epollWait now timeToWait → s.pipe = [] → ∀ t ∈ s.mTimers,
    (∃ th, s.thread th = .timer t .addWake) ∨ now + timeToWait ≤ (s.timer t).mExpiry

/-- The timeout reaches at most to the first expiry, which is the least. -/
theorem timeout_le {l : List T} {now : ℕ} {timer : T → Object}
    (hne : getNextTimerTimeoutLocked timer l now ≠ 0)
    (hleast : ∀ t, l.head? = some t → ∀ u ∈ l, (timer t).mExpiry ≤ (timer u).mExpiry) :
    ∀ u ∈ l, now + getNextTimerTimeoutLocked timer l now ≤ (timer u).mExpiry := by
  cases l with
  | nil => simp
  | cons t rest =>
    intro u hu
    refine le_trans ?_ (hleast t rfl u hu)
    simp only [getNextTimerTimeoutLocked] at hne ⊢
    split at hne
    · exact absurd rfl hne
    · rename_i hexp
      rw [if_neg hexp]
      split <;> omega

theorem wakeAll_of_not_blocked {thread : Th → ThreadPoint T F} {th : Th} {t u : T} {c : Control}
    (hth : thread th = .timer u c) (hc : wake c = c) : wakeAll t thread th = .timer u c := by
  unfold wakeAll
  rw [hth]
  cases c with
  | blocked k => cases hc
  | _ => rfl

/-- A thread inside a call on a timer moves by its own steps only, unless it is blocked. -/
theorem thread_kept (hm : Moves capacity s a s') {th : Th} (ha : ∀ again, a ≠ .thread th again)
    {t : T} {c : Control} (hth : s.thread th = .timer t c) (hc : wake c = c) :
    s'.thread th = .timer t c := by
  have hother : ∀ (th' : Th) (p : ThreadPoint T F), th ≠ th' →
      Function.update s.thread th' p th = .timer t c := by
    intro th' p hne
    rw [Function.update_of_ne hne, hth]
  have hfree : ∀ th', (s.thread th').betweenCalls → th ≠ th' := by
    rintro th' hfree rfl
    rw [hth] at hfree
    exact hfree
  have hne : ∀ (th' : Th) (again : Bool), a = .thread th' again → th ≠ th' := by
    rintro th' again rfl rfl
    exact ha again rfl
  cases hm with
  | lockControl | restart | destroy => exact hother _ _ (hfree _ ‹_›)
  | post th' func hidle hlock => exact hother th' _ (hfree th' (by rw [hidle]; trivial))
  | terminate th' hidle => exact hother th' _ (hfree th' (by rw [hidle]; trivial))
  | broadcast th' again u k hth' =>
    exact (Function.update_of_ne (hne th' again rfl) _ _).trans (wakeAll_of_not_blocked hth hc)
  | postWrite | terminateWrite | object | remove | removeWake | lockWait | testReleased
  | testBlock | block | spurious | addFound | addLock | addScan | addInsert | addWake | leave
  | returnDestroy => exact hother _ _ (hne _ _ rfl)
  | broadcastPending keep u hloop => exact wakeAll_of_not_blocked hth hc
  | broadcastLast keep u e hloop he => exact wakeAll_of_not_blocked hth hc
  | _ => exact hth

/-- start() leaves this point by its write, after which the pipe is not empty. -/
theorem addWake_step (hstep : (system T Th F capacity).step s a = some s') {th : Th} {t : T}
    (hth : s.thread th = .timer t .addWake) (hpipe : s'.pipe = []) :
    s'.thread th = .timer t .addWake := by
  by_cases ha : ∃ again, a = .thread th again
  · obtain ⟨again, rfl⟩ := ha
    simp only [system, step, threadStep, hth, controlStep, Timer.controlStep] at hstep
    split at hstep
    · cases hstep
      exact hth
    · cases hstep
      exact absurd hpipe (writePipe_ne_nil _ _ _)
  · exact thread_kept (moves_of_step hstep) (fun again he => ha ⟨again, he⟩) hth rfl

/-- A timer comes into the list by the insertion of a start(), with the byte still to be
written, or of the loop thread itself. -/
theorem listed_step (hm : Moves capacity s a s') {t : T} (ht : t ∈ s'.mTimers) :
    t ∈ s.mTimers ∨ (∃ th, s'.thread th = .timer t .addWake) ∨
      s'.loop = .exec t .requeueWake := by
  cases hm with
  | remove th again u k hth hlock => exact Or.inl (List.mem_of_mem_erase ht)
  | popFront keep u b hloop => exact Or.inl (List.mem_of_mem_tail ht)
  | requeueRemove keep u hloop hlock => exact Or.inl (List.mem_of_mem_erase ht)
  | addInsert th again u i hth hpos =>
    rcases List.eq_or_mem_of_mem_insertIdx ht with rfl | ht
    · exact Or.inr (Or.inl ⟨th, by simp [State.goto]⟩)
    · exact Or.inl ht
  | requeueInsert keep u i hloop hpos =>
    rcases List.eq_or_mem_of_mem_insertIdx ht with rfl | ht
    · exact Or.inr (Or.inr rfl)
    · exact Or.inl ht
  | _ => exact Or.inl ht

/-- The loop thread goes to sleep only by computing a timeout other than 0. -/
theorem epollWait_step (hm : Moves capacity s a s') {now timeToWait : ℕ}
    (hloop : s'.loop = .epollWait now timeToWait) :
    s.loop = .epollWait now timeToWait ∨
      getNextTimerTimeoutLocked s.timer s.mTimers s.now ≠ 0 ∧ s'.mTimers = s.mTimers ∧
        s'.timer = s.timer ∧ now = s.now ∧
          timeToWait = getNextTimerTimeoutLocked s.timer s.mTimers s.now := by
  cases hm with
  | nextTimeout answer hpoint hlock =>
    simp only at hloop
    split at hloop
    · cases hloop
    · rename_i hne
      cases hloop
      exact Or.inr ⟨hne, rfl, rfl, rfl, rfl⟩
  | noFunction answer executedAny hpoint hlock hempty =>
    simp only at hloop
    split at hloop <;> cases hloop
  | testTerminated answer terminated evs hpoint =>
    simp only at hloop
    split at hloop <;> cases hloop
  | popFront keep t b hpoint =>
    simp only at hloop
    split at hloop <;> cases hloop
  | epollReturn r n w p hpoint hp =>
    rcases hp with rfl | rfl | ⟨evs, rfl, _⟩ <;> cases hloop
  | enter | takeFunction | invoke | takeTimer | noneExpired | expired | batchDone | watcher
  | command | readInterrupted | readEmpty | readByte | execute | broadcastPending | broadcastLast
  | requeueFound | requeueLock | requeueScan | requeueInsert | requeueWake | requeueRemove
  | requeueRemoveWake => cases hloop
  | _ => exact Or.inl hloop

/-- A timer that comes after the timeout was computed is due no earlier, or comes with a byte in the
pipe. -/
theorem timersSeen_step (hstep : (system T Th F capacity).step s a = some s')
    (hd : Disciplined s) (hsorted : Sorted s) (h : TimersSeen s) : TimersSeen s' := by
  have hm := moves_of_step hstep
  intro now timeToWait hloop hpipe t ht
  rcases epollWait_step hm hloop with hold | ⟨hne, hlist, htimer, rfl, rfl⟩
  · have hpipe' : s.pipe = [] := by
      rcases pipe_step hm hpipe with hpipe' | hdraining
      · exact hpipe'
      · rw [hloop] at hdraining
        cases hdraining
    rcases listed_step hm ht with ht' | hadding | hrequeue
    · rcases h now timeToWait hold hpipe' t ht' with ⟨th, hth⟩ | hle
      · exact Or.inl ⟨th, addWake_step hstep hth hpipe⟩
      · have hexpiry : (s'.timer t).mExpiry = (s.timer t).mExpiry :=
          hd.expiry_step hm (Or.inl ht')
        exact Or.inr (hexpiry ▸ hle)
    · exact Or.inl hadding
    · rw [hloop] at hrequeue
      cases hrequeue
  · rw [hlist] at ht
    rw [htimer]
    exact Or.inr (timeout_le hne hsorted.head_least t ht)

structure Awake (s : State T Th F) : Prop where
  posting : Posting s
  functions : FunctionsSeen s
  timers : TimersSeen s

/-- Past its look at the queue and with an empty pipe, the loop thread has left nothing behind. -/
theorem awake_invariant : (system T Th F capacity).Invariant Machine.anyStep
    (fun s => Disciplined s ∧ Sorted s) Awake where
  init := by
    rintro s ⟨now, _, rfl⟩
    exact ⟨by simp [Posting, State.start], by simp [FunctionsSeen, QueueSeen, State.start],
      by simp [TimersSeen, State.start]⟩
  step s a s' _ hJ hstep h :=
    ⟨posting_step (moves_of_step hstep) h.posting,
      functionsSeen_step (moves_of_step hstep) h.posting h.functions,
      timersSeen_step hstep hJ.1 hJ.2 h.timers⟩

/-- MainLoop does not sleep on pending work: blocked in epoll_wait with an empty pipe, it
has left behind no function but that of a post() still to write its byte, and no timer that
is due before its timeout but that of a start() still to write its byte. -/
theorem no_sleep_on_work {now timeToWait : ℕ}
    (hreach : (system T Th F capacity).Reachable Machine.anyStep s)
    (hloop : s.loop = .epollWait now timeToWait) (hpipe : s.pipe = []) :
    (s.mFunctions = [] ∨ ∃ th func, s.thread th = .post func ∧ s.mFunctions = [func]) ∧
    ∀ t ∈ s.mTimers, (∃ th, s.thread th = .timer t .addWake) ∨
      now + timeToWait ≤ (s.timer t).mExpiry := by
  have h : Awake s :=
    awake_invariant.reachable (fun _ hs => ⟨disciplined hs, sorted hs⟩) hreach
  exact ⟨h.functions (by rw [hloop]; rfl) hpipe, h.timers now timeToWait hloop hpipe⟩

section Runs

/-- A timer of 5 ms is started and a function posted; the loop thread runs the function,
drains the pipe and sleeps. -/
def untilAsleep : List (Action Unit Unit Unit) :=
  [.start () () 5 false] ++ List.replicate 8 (.thread () false) ++
    [.post () (), .thread () false, .enter] ++ List.replicate 7 (.loop true) ++
    [.epoll (.events [.command])] ++ List.replicate 9 (.loop false)

def asleep : State Unit Unit Unit :=
  (system Unit Unit Unit oneSlot).after Machine.anyStep (State.start 0) untilAsleep

theorem no_sleep_on_work_asleep :
    (asleep.mFunctions = [] ∨
      ∃ th func, asleep.thread th = .post func ∧ asleep.mFunctions = [func]) ∧
    ∀ t ∈ asleep.mTimers, (∃ th, asleep.thread th = .timer t .addWake) ∨
      0 + 5 ≤ (asleep.timer t).mExpiry :=
  no_sleep_on_work (Machine.reachable_after (initial_start oneSlot) (by decide +kernel))
    (by decide +kernel)
    (by decide +kernel)

end Runs

/-- terminate() stores its flag before it writes its byte, and what takes its byte out of
the pipe comes to the test of the flag. -/
structure Terminating (s : State T Th F) : Prop where
  storing : ∀ th, s.thread th = .terminate → s.mTerminated = true
  flag : s.terminateReturned = true → s.mTerminated = true
  byte : s.terminateReturned = true →
    s.pipe ≠ [] ∨ s.loop.draining = true ∨ s.loop = .exited

/-- mTerminated is stored before terminate() writes and returns. -/
theorem storing_step (hm : Moves capacity s a s') (h : Terminating s) :
    (∀ th, s'.thread th = .terminate → s'.mTerminated = true) ∧
      (s'.terminateReturned = true → s'.mTerminated = true) := by
  cases commandStep hm with
  | none hsame hlock hfunctions hflag hreturned =>
    rw [hflag, hreturned]
    exact ⟨fun th hth => h.storing th ((hsame th .terminate trivial).mp hth), h.flag⟩
  | put th func hth hlock hs' =>
    subst hs'
    refine ⟨?_, h.flag⟩
    intro th' hth'
    rcases update_eq_cases hth' with ⟨-, hp⟩ | ⟨-, hth'⟩
    · cases hp
    · exact h.storing th' hth'
  | written th func hth hs' =>
    subst hs'
    refine ⟨?_, h.flag⟩
    intro th' hth'
    rcases update_eq_cases hth' with ⟨-, hp⟩ | ⟨-, hth'⟩
    · cases hp
    · exact h.storing th' hth'
  | terminate th hth hs' =>
    subst hs'
    exact ⟨fun _ _ => rfl, fun _ => rfl⟩
  | terminated th hth hs' =>
    subst hs'
    have hflag := h.storing th hth
    exact ⟨fun _ _ => hflag, fun _ => hflag⟩

/-- The loop thread turns away from draining only by the test. -/
theorem draining_step (hm : Moves capacity s a s') (hloop : s.loop.draining = true)
    (hflag : s.mTerminated = true) : s'.loop.draining = true ∨ s'.loop = .exited := by
  cases hm with
  | testTerminated answer terminated evs hpoint => exact Or.inr (by simp [hflag])
  | readInterrupted | readEmpty | readByte => exact Or.inl rfl
  | enter | noFunction | takeFunction | invoke | takeTimer | noneExpired | expired | nextTimeout
  | epollReturn | batchDone | watcher | command | execute | popFront | broadcastPending
  | broadcastLast | requeueFound | requeueLock | requeueScan | requeueInsert | requeueWake
  | requeueRemove | requeueRemoveWake =>
    simp [‹s.loop = _›, LoopPoint.draining] at hloop
  | _ => exact Or.inl hloop

theorem exited_step (hm : Moves capacity s a s') (hloop : s.loop = .exited) :
    s'.loop = .exited := by
  cases hm <;> first | exact hloop | (simp_all)

/-- The byte of a terminate() that has returned is in the pipe, unless the loop thread is on its way
to the test or has exited. -/
theorem byte_step (hm : Moves capacity s a s') (h : Terminating s)
    (hreturned : s'.terminateReturned = true) :
    s'.pipe ≠ [] ∨ s'.loop.draining = true ∨ s'.loop = .exited := by
  by_cases hpipe : s'.pipe = []
  · refine Or.inr ?_
    have hbefore : s.terminateReturned = true := by
      cases commandStep hm with
      | none hsame hlock hfunctions hflag hret => exact hret ▸ hreturned
      | terminated th hth hs' =>
        subst hs'
        exact absurd hpipe (writePipe_ne_nil _ _ _)
      | put th func hth hlock hs' => subst hs'; exact hreturned
      | written th func hth hs' => subst hs'; exact hreturned
      | terminate th hth hs' => subst hs'; exact hreturned
    rcases pipe_step hm hpipe with hold | hdraining
    · rcases h.byte hbefore with hne | hdraining | hexited
      · exact absurd hold hne
      · exact draining_step hm hdraining (h.flag hbefore)
      · exact Or.inr (exited_step hm hexited)
    · exact Or.inl hdraining
  · exact Or.inl hpipe

/-- The flag and the byte of terminate(), in every reachable state. -/
theorem terminating_invariant : (system T Th F capacity).Invariant Machine.anyStep
    (fun _ => True) Terminating where
  init := by
    rintro s ⟨now, _, rfl⟩
    exact ⟨by simp [State.start], by simp [State.start], by simp [State.start]⟩
  step s a s' _ _ hstep h :=
    have hm := moves_of_step hstep
    ⟨(storing_step hm h).1, (storing_step hm h).2, byte_step hm h⟩

/-- terminate() is not lost: until the loop has exited, a returned terminate() shows in the
pipe, or the loop thread is past a read of it and before the test, and the test ends the
loop. So the loop thread does not sleep on an empty pipe. -/
theorem terminate_not_lost (hreach : (system T Th F capacity).Reachable Machine.anyStep s)
    (hreturned : s.terminateReturned = true) (hloop : s.loop ≠ .exited) :
    (s.pipe ≠ [] ∨ (∃ terminated evs, s.loop = .drain terminated evs) ∨
      ∃ terminated evs, s.loop = .testTerminated terminated evs) ∧
    (∀ terminated evs answer s', s.loop = .testTerminated terminated evs →
      (system T Th F capacity).step s (.loop answer) = some s' → s'.loop = .exited) ∧
    ∀ now timeToWait, s.loop = .epollWait now timeToWait → s.pipe ≠ [] := by
  have h := terminating_invariant.always hreach
  have hbyte : s.pipe ≠ [] ∨ s.loop.draining = true := by
    rcases h.byte hreturned with hne | hdraining | hexited
    · exact Or.inl hne
    · exact Or.inr hdraining
    · exact absurd hexited hloop
  refine ⟨?_, ?_, ?_⟩
  · rcases hbyte with hne | hdraining
    · exact Or.inl hne
    · cases hp : s.loop <;> rw [hp] at hdraining <;> cases hdraining
      · exact Or.inr (Or.inl ⟨_, _, rfl⟩)
      · exact Or.inr (Or.inr ⟨_, _, rfl⟩)
  · intro terminated evs answer s' htest hstep
    simp only [system, step, loopStep, htest, h.flag hreturned, Bool.or_true] at hstep
    cases hstep
    rfl
  · intro now timeToWait hwait
    rcases hbyte with hne | hdraining
    · exact hne
    · rw [hwait] at hdraining
      cases hdraining

section Runs

/-- terminate() before loop(), the pipe of one byte being full of a wake-up. -/
def terminatedBefore : State Unit Unit Unit :=
  (system Unit Unit Unit oneSlot).after Machine.anyStep (State.start 0)
    ([.wakeup, .terminate (), .thread () false, .enter] ++ List.replicate 4 (.loop false))

theorem terminate_not_lost_before_loop : terminatedBefore.pipe ≠ [] :=
  (terminate_not_lost (Machine.reachable_after (initial_start oneSlot) (by decide +kernel))
    (by decide +kernel)
    (by decide +kernel)).2.2 0 WaitTimeMs (by decide +kernel)

end Runs

end CWrapper.MainLoop
