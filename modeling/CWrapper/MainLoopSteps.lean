import CWrapper.MainLoop

/-!
What one step of the system can do. Each constructor is one kind of step with the state
before it and the state after it written out, and step_cases says that there is no other.
The invariants of the system are proved by cases on this relation; none of them unfolds
the step function.
-/
namespace CWrapper.MainLoop

open Timer (Object Call Control Exec History Msec)

theorem update_eq_cases {α β : Type*} [DecidableEq α] {f : α → β} {x y : α} {b c : β}
    (h : Function.update f x b y = c) : y = x ∧ b = c ∨ y ≠ x ∧ f y = c := by
  by_cases hy : y = x
  · subst hy
    exact Or.inl ⟨rfl, by simpa only [Function.update_self] using h⟩
  · exact Or.inr ⟨hy, by simpa only [Function.update_of_ne hy] using h⟩

variable {T Th F : Type} [DecidableEq T] [DecidableEq Th]

def ThreadPoint.betweenCalls : ThreadPoint T F → Prop
  | .idle | .restart .. => True
  | _ => False

/-- The state after the object of `t` made a step of its own. -/
def State.withObject (s : State T Th F) (t : T) (o : Object) : State T Th F :=
  { s with timer := Function.update s.timer t o }

inductive Moves (capacity : ℕ+) (s : State T Th F) : Action T Th F → State T Th F → Prop
  | stay (a : Action T Th F) : Moves capacity s a s
  | tick (d : ℕ) (hd : s.now + d ≤ Timer.MaxTick) :
      Moves capacity s (.tick d) { s with now := s.now + d }
  | setHandler (t : T) (handler : Bool) : Moves capacity s (.setHandler t handler)
      (s.withObject t { s.timer t with mHandler := handler })
  | setInterval (t : T) (msec : Msec) : Moves capacity s (.setInterval t msec)
      (s.withObject t { s.timer t with mInterval := msec })
  | setRepeat (t : T) (rep : Bool) : Moves capacity s (.setRepeat t rep)
      (s.withObject t { s.timer t with mRepeat := rep })
  | lockControl {a : Action T Th F} (th : Th) (t : T) (k : Call) (hout : (s.thread th).betweenCalls)
      (ha : a = .stop th t ∧ k = .stop ∨
        ∃ msec rep, k = .start msec rep ∧
          (a = .start th t msec rep ∨
            (∃ again, a = .thread th again) ∧ s.thread th = .restart t msec rep))
      (hlock : (s.locks t).mControlLock = none) (hlife : (s.locks t).life = .alive) :
      Moves capacity s a { s with
        locks := Function.update s.locks t { s.locks t with mControlLock := some th }
        thread := s.goto th t (.load k) }
  | restart (th : Th) (t : T) (hout : (s.thread th).betweenCalls) :
      Moves capacity s (.restart th t) { s with
        thread := Function.update s.thread th
          (.restart t (s.timer t).mInterval (s.timer t).mRepeat) }
  | destroy (th : Th) (t : T) (hout : (s.thread th).betweenCalls)
      (hlock : (s.locks t).mControlLock = none) (hlife : (s.locks t).life = .alive) :
      Moves capacity s (.destroy th t) { s with
        locks := Function.update s.locks t { s.locks t with life := .dying th }
        thread := s.goto th t (.load .destroy) }
  | post (th : Th) (func : F) (hth : s.thread th = .idle) (hlock : s.mFunctionLock = none) :
      Moves capacity s (.post th func) { s with
        mFunctions := s.mFunctions ++ [func]
        mFunctionLock := some th
        thread := Function.update s.thread th (.post func) }
  | postWrite (th : Th) (again : Bool) (func : F) (hth : s.thread th = .post func) :
      Moves capacity s (.thread th again) { s with
        pipe := writePipe capacity s.pipe .wakeup
        mFunctionLock := none
        thread := Function.update s.thread th .idle }
  | wakeup : Moves capacity s .wakeup { s with pipe := writePipe capacity s.pipe .wakeup }
  | terminate (th : Th) (hth : s.thread th = .idle) : Moves capacity s (.terminate th) { s with
      mTerminated := true
      thread := Function.update s.thread th .terminate }
  | terminateWrite (th : Th) (again : Bool) (hth : s.thread th = .terminate) :
      Moves capacity s (.thread th again) { s with
        pipe := writePipe capacity s.pipe .terminate
        thread := Function.update s.thread th .idle
        terminateReturned := true }
  | object (th : Th) (again : Bool) (t : T) (c c' : Control) (o : Object)
      (hth : s.thread th = .timer t c)
      (hstep : Timer.controlStep (s.timer t) s.now again c = some (o, c')) :
      Moves capacity s (.thread th again) { s with
        timer := Function.update s.timer t o
        thread := s.goto th t c'
        history := Function.update s.history t ((s.history t).control s.now c) }
  | remove (th : Th) (again : Bool) (t : T) (k : Call) (hth : s.thread th = .timer t (.remove k))
      (hlock : s.mTimerLock = none) :
      Moves capacity s (.thread th again) { s with
        mTimers := s.mTimers.erase t
        thread := s.goto th t (.removeWake k) }
  | removeWake (th : Th) (again : Bool) (t : T) (k : Call)
      (hth : s.thread th = .timer t (.removeWake k)) :
      Moves capacity s (.thread th again) { s with
        pipe := writePipe capacity s.pipe .wakeup
        thread := s.goto th t (.broadcast k) }
  | broadcast (th : Th) (again : Bool) (t : T) (k : Call)
      (hth : s.thread th = .timer t (.broadcast k)) :
      Moves capacity s (.thread th again) { s with
        thread := Function.update (wakeAll t s.thread) th (.timer t (Timer.afterStop k)) }
  | lockWait (th : Th) (again : Bool) (t : T) (k : Call)
      (hth : s.thread th = .timer t (.lockWait k) ∨ s.thread th = .timer t (.relock k))
      (hlock : (s.locks t).mWaitLock = none) :
      Moves capacity s (.thread th again) { s with
        locks := Function.update s.locks t { s.locks t with mWaitLock := some th }
        thread := s.goto th t (.test k) }
  | testReleased (th : Th) (again : Bool) (t : T) (k : Call)
      (hth : s.thread th = .timer t (.test k))
      (hrel : Timer.released (s.timer t).mState = true) :
      Moves capacity s (.thread th again) { s with
        locks := Function.update s.locks t { s.locks t with mWaitLock := none }
        thread := s.goto th t (.load k) }
  | testBlock (th : Th) (again : Bool) (t : T) (k : Call)
      (hth : s.thread th = .timer t (.test k))
      (hrel : Timer.released (s.timer t).mState = false) :
      Moves capacity s (.thread th again) { s with thread := s.goto th t (.block k) }
  | block (th : Th) (again : Bool) (t : T) (k : Call) (hth : s.thread th = .timer t (.block k)) :
      Moves capacity s (.thread th again) { s with
        locks := Function.update s.locks t { s.locks t with mWaitLock := none }
        thread := s.goto th t (.blocked k) }
  | spurious (th : Th) (again : Bool) (t : T) (k : Call)
      (hth : s.thread th = .timer t (.blocked k)) :
      Moves capacity s (.thread th again) { s with thread := s.goto th t (.relock k) }
  | addFound (th : Th) (again : Bool) (t : T) (hth : s.thread th = .timer t .addLock)
      (hlock : s.mTimerLock = none) (hmem : t ∈ s.mTimers) :
      Moves capacity s (.thread th again) { s with thread := s.goto th t .addWake }
  | addLock (th : Th) (again : Bool) (t : T) (hth : s.thread th = .timer t .addLock)
      (hlock : s.mTimerLock = none) (hmem : t ∉ s.mTimers) :
      Moves capacity s (.thread th again) { s with
        mTimerLock := some (.thread th)
        thread := s.goto th t (.addScan 0) }
  | addScan (th : Th) (again : Bool) (t : T) (i : ℕ) (hth : s.thread th = .timer t (.addScan i))
      (hpos : insertsAt s.timer s.mTimers t i = false) :
      Moves capacity s (.thread th again) { s with thread := s.goto th t (.addScan (i + 1)) }
  | addInsert (th : Th) (again : Bool) (t : T) (i : ℕ) (hth : s.thread th = .timer t (.addScan i))
      (hpos : insertsAt s.timer s.mTimers t i = true) :
      Moves capacity s (.thread th again) { s with
        mTimers := s.mTimers.insertIdx i t
        mTimerLock := none
        thread := s.goto th t .addWake
        history := Function.update s.history t { s.history t with stamp := s.insertions }
        insertions := s.insertions + 1 }
  | addWake (th : Th) (again : Bool) (t : T) (hth : s.thread th = .timer t .addWake) :
      Moves capacity s (.thread th again) { s with
        pipe := writePipe capacity s.pipe .wakeup
        thread := s.goto th t .returnStart }
  | leave (th : Th) (again : Bool) (t : T) (c : Control) (hth : s.thread th = .timer t c)
      (hret : c = .returnStop ∨ c = .returnStart) :
      Moves capacity s (.thread th again) { s with
        locks := Function.update s.locks t { s.locks t with mControlLock := none }
        thread := Function.update s.thread th .idle }
  | returnDestroy (th : Th) (again : Bool) (t : T) (hth : s.thread th = .timer t .returnDestroy) :
      Moves capacity s (.thread th again) { s with
        locks := Function.update s.locks t { s.locks t with life := .dead }
        thread := Function.update s.thread th .idle }
  | enter (hloop : s.loop = .outside) :
      Moves capacity s .enter { s with loop := .getFunction false }
  | noFunction (answer executedAny : Bool) (hloop : s.loop = .getFunction executedAny)
      (hlock : s.mFunctionLock = none) (hempty : s.mFunctions = []) :
      Moves capacity s (.loop answer)
        { s with loop := if executedAny then .getFunction false else .takeTimer }
  | takeFunction (answer executedAny : Bool) (func : F) (rest : List F)
      (hloop : s.loop = .getFunction executedAny) (hlock : s.mFunctionLock = none)
      (hfunc : s.mFunctions = func :: rest) :
      Moves capacity s (.loop answer) { s with mFunctions := rest, loop := .invoke func }
  | invoke (answer : Bool) (func : F) (hloop : s.loop = .invoke func) :
      Moves capacity s (.loop answer) { s with loop := .getFunction true }
  | takeTimer (answer : Bool) (hloop : s.loop = .takeTimer) (hlock : s.mTimerLock = none) :
      Moves capacity s (.loop answer)
        { s with mTimerLock := some .loop, loop := .readFront s.now }
  | noneExpired (answer : Bool) (now : ℕ) (hloop : s.loop = .readFront now) :
      Moves capacity s (.loop answer) { s with mTimerLock := none, loop := .nextTimeout }
  | expired (answer : Bool) (now : ℕ) (t : T) (rest : List T) (hloop : s.loop = .readFront now)
      (hfront : s.mTimers = t :: rest) (hexp : (s.timer t).mExpiry ≤ now) :
      Moves capacity s (.loop answer) { s with loop := .exec t .exchange }
  | nextTimeout (answer : Bool) (hloop : s.loop = .nextTimeout) (hlock : s.mTimerLock = none) :
      Moves capacity s (.loop answer) { s with
        loop := if getNextTimerTimeoutLocked s.timer s.mTimers s.now = 0 then .takeTimer
          else .epollWait s.now (getNextTimerTimeoutLocked s.timer s.mTimers s.now) }
  | epollReturn (r : EpollResult) (now timeToWait : ℕ) (p : LoopPoint T F)
      (hloop : s.loop = .epollWait now timeToWait)
      (hp : p = .getFunction false ∨ p = .exited ∨
        ∃ evs, p = .events evs ∧ (.command ∈ evs → s.pipe ≠ [])) :
      Moves capacity s (.epoll r) { s with loop := p }
  | batchDone (answer : Bool) (hloop : s.loop = .events []) :
      Moves capacity s (.loop answer) { s with loop := .getFunction false }
  | watcher (answer : Bool) (evs : List Event) (hloop : s.loop = .events (.watcher :: evs)) :
      Moves capacity s (.loop answer) { s with loop := .events evs }
  | command (answer : Bool) (evs : List Event) (hloop : s.loop = .events (.command :: evs)) :
      Moves capacity s (.loop answer) { s with loop := .drainBegin evs }
  | readInterrupted (answer terminated : Bool) (evs : List Event)
      (hloop : s.loop = .drainBegin evs ∧ terminated = false ∨ s.loop = .drain terminated evs) :
      Moves capacity s (.loop answer) { s with loop := .drain terminated evs }
  | readEmpty (answer terminated : Bool) (evs : List Event)
      (hloop : s.loop = .drainBegin evs ∧ terminated = false ∨ s.loop = .drain terminated evs)
      (hpipe : s.pipe = []) :
      Moves capacity s (.loop answer) { s with loop := .testTerminated terminated evs }
  | readByte (answer terminated : Bool) (evs : List Event) (c : LoopCommand)
      (rest : List LoopCommand)
      (hloop : s.loop = .drainBegin evs ∧ terminated = false ∨ s.loop = .drain terminated evs)
      (hpipe : s.pipe = c :: rest) :
      Moves capacity s (.loop answer) { s with
        pipe := rest
        loop := .drain (terminated || c == .terminate) evs }
  | testTerminated (answer terminated : Bool) (evs : List Event)
      (hloop : s.loop = .testTerminated terminated evs) :
      Moves capacity s (.loop answer)
        { s with loop := if terminated || s.mTerminated then .exited else .events evs }
  | execute (keep : Bool) (t : T) (e e' : Exec) (o : Object) (hloop : s.loop = .exec t e)
      (hstep : Timer.executeStep (s.timer t) s.now keep e = some (o, e')) :
      Moves capacity s (.loop keep) { s with
        timer := Function.update s.timer t o
        loop := .exec t e'
        history := Function.update s.history t ((s.history t).execute s.now e) }
  | popFront (keep : Bool) (t : T) (canExecute : Bool)
      (hloop : s.loop = .exec t (.popFront canExecute)) :
      Moves capacity s (.loop keep) { s with
        mTimers := s.mTimers.tail
        mTimerLock := none
        loop := if canExecute then .exec t .readHandler else .nextTimeout }
  | broadcastPending (keep : Bool) (t : T) (hloop : s.loop = .exec t .broadcastPending) :
      Moves capacity s (.loop keep)
        { s with thread := wakeAll t s.thread, loop := .exec t .requeueLoad }
  | broadcastLast (keep : Bool) (t : T) (e : Exec) (hloop : s.loop = .exec t e)
      (he : e = .broadcastStopped ∨ e = .requeueBroadcast ∨ e = .broadcastQueued) :
      Moves capacity s (.loop keep) { s with thread := wakeAll t s.thread, loop := .nextTimeout }
  | requeueFound (keep : Bool) (t : T) (hloop : s.loop = .exec t .requeueLock)
      (hlock : s.mTimerLock = none) (hmem : t ∈ s.mTimers) :
      Moves capacity s (.loop keep) { s with loop := .exec t .requeueWake }
  | requeueLock (keep : Bool) (t : T) (hloop : s.loop = .exec t .requeueLock)
      (hlock : s.mTimerLock = none) (hmem : t ∉ s.mTimers) :
      Moves capacity s (.loop keep)
        { s with mTimerLock := some .loop, loop := .exec t (.requeueScan 0) }
  | requeueScan (keep : Bool) (t : T) (i : ℕ) (hloop : s.loop = .exec t (.requeueScan i))
      (hpos : insertsAt s.timer s.mTimers t i = false) :
      Moves capacity s (.loop keep) { s with loop := .exec t (.requeueScan (i + 1)) }
  | requeueInsert (keep : Bool) (t : T) (i : ℕ) (hloop : s.loop = .exec t (.requeueScan i))
      (hpos : insertsAt s.timer s.mTimers t i = true) :
      Moves capacity s (.loop keep) { s with
        mTimers := s.mTimers.insertIdx i t
        mTimerLock := none
        loop := .exec t .requeueWake
        history := Function.update s.history t { s.history t with stamp := s.insertions }
        insertions := s.insertions + 1 }
  | requeueWake (keep : Bool) (t : T) (hloop : s.loop = .exec t .requeueWake) :
      Moves capacity s (.loop keep) { s with
        pipe := writePipe capacity s.pipe .wakeup
        loop := .exec t .requeueTestAgain }
  | requeueRemove (keep : Bool) (t : T) (hloop : s.loop = .exec t .requeueRemove)
      (hlock : s.mTimerLock = none) :
      Moves capacity s (.loop keep)
        { s with mTimers := s.mTimers.erase t, loop := .exec t .requeueRemoveWake }
  | requeueRemoveWake (keep : Bool) (t : T) (hloop : s.loop = .exec t .requeueRemoveWake) :
      Moves capacity s (.loop keep) { s with
        pipe := writePipe capacity s.pipe .wakeup
        loop := .exec t .storeStopped }

section Cases

variable {capacity : ℕ+} {s s' : State T Th F}

theorem lockControl_cases {a : Action T Th F} {th : Th} {t : T} {k : Call}
    (h : lockControl s th t k = some s') (hout : (s.thread th).betweenCalls)
    (ha : a = .stop th t ∧ k = .stop ∨ ∃ msec rep, k = .start msec rep ∧
      (a = .start th t msec rep ∨
        (∃ again, a = .thread th again) ∧ s.thread th = .restart t msec rep)) :
    Moves capacity s a s' := by
  unfold lockControl at h
  split at h
  · rename_i hfree
    cases h
    exact .lockControl th t k hout ha hfree.1 hfree.2
  · cases h

/-- The steps of a control call, each with the state it leads to. -/
theorem controlStep_cases {th : Th} {t : T} {again : Bool} {c : Control}
    (hth : s.thread th = .timer t c) (h : controlStep capacity s th t again c = some s') :
    Moves capacity s (.thread th again) s' := by
  unfold controlStep at h
  split at h
  · rename_i o c' hstep
    cases h
    exact .object th again t c c' o hth hstep
  · cases c with
    | remove k =>
      simp only at h
      split at h
      · cases h
        exact .remove th again t k hth ‹_›
      · cases h
    | removeWake k =>
      simp only at h
      split at h
      · cases h
        exact .stay _
      · cases h
        exact .removeWake th again t k hth
    | broadcast k => cases h; exact .broadcast th again t k hth
    | lockWait k =>
      simp only at h
      split at h
      · cases h
        exact .lockWait th again t k (Or.inl hth) ‹_›
      · cases h
    | relock k =>
      simp only at h
      split at h
      · cases h
        exact .lockWait th again t k (Or.inr hth) ‹_›
      · cases h
    | test k =>
      simp only at h
      split at h
      · cases h
        exact .testReleased th again t k hth ‹_›
      · cases h
        exact .testBlock th again t k hth (by simp_all)
    | block k => cases h; exact .block th again t k hth
    | blocked k => cases h; exact .spurious th again t k hth
    | addLock =>
      simp only at h
      split at h
      · split at h
        · cases h
          exact .addFound th again t hth ‹_› ‹_›
        · cases h
          exact .addLock th again t hth ‹_› ‹_›
      · cases h
    | addScan i =>
      simp only at h
      split at h
      · cases h
        exact .addInsert th again t i hth ‹_›
      · cases h
        exact .addScan th again t i hth (by simp_all)
    | addWake =>
      simp only at h
      split at h
      · cases h
        exact .stay _
      · cases h
        exact .addWake th again t hth
    | returnStop => cases h; exact .leave th again t _ hth (Or.inl rfl)
    | returnStart => cases h; exact .leave th again t _ hth (Or.inr rfl)
    | returnDestroy => cases h; exact .returnDestroy th again t hth
    | _ => cases h

/-- The steps of a thread inside a call, each with the state it leads to. -/
theorem threadStep_cases {th : Th} {again : Bool} (h : threadStep capacity s th again = some s') :
    Moves capacity s (.thread th again) s' := by
  unfold threadStep at h
  cases hth : s.thread th with
  | idle => simp [hth] at h
  | timer t c =>
    simp only [hth] at h
    exact controlStep_cases hth h
  | restart t msec rep =>
    simp only [hth] at h
    exact lockControl_cases h (by simp [hth, ThreadPoint.betweenCalls])
      (Or.inr ⟨msec, rep, rfl, Or.inr ⟨⟨again, rfl⟩, hth⟩⟩)
  | post func =>
    simp only [hth] at h
    split at h
    · cases h
      exact .stay _
    · cases h
      exact .postWrite th again func hth
  | terminate =>
    simp only [hth] at h
    split at h
    · cases h
      exact .stay _
    · cases h
      exact .terminateWrite th again hth

/-- The steps of the loop thread that holds a timer, each with the state it leads to. -/
theorem execStep_cases {t : T} {keep : Bool} {e : Exec} (hloop : s.loop = .exec t e)
    (h : execStep capacity s t keep e = some s') : Moves capacity s (.loop keep) s' := by
  unfold execStep at h
  split at h
  · rename_i o e' hstep
    cases h
    exact .execute keep t e e' o hloop hstep
  · cases e with
    | popFront canExecute => cases h; exact .popFront keep t canExecute hloop
    | broadcastPending => cases h; exact .broadcastPending keep t hloop
    | broadcastStopped => cases h; exact .broadcastLast keep t _ hloop (Or.inl rfl)
    | requeueBroadcast => cases h; exact .broadcastLast keep t _ hloop (Or.inr (Or.inl rfl))
    | broadcastQueued => cases h; exact .broadcastLast keep t _ hloop (Or.inr (Or.inr rfl))
    | requeueLock =>
      simp only at h
      split at h
      · split at h
        · cases h
          exact .requeueFound keep t hloop ‹_› ‹_›
        · cases h
          exact .requeueLock keep t hloop ‹_› ‹_›
      · cases h
    | requeueScan i =>
      simp only at h
      split at h
      · cases h
        exact .requeueInsert keep t i hloop ‹_›
      · cases h
        exact .requeueScan keep t i hloop (by simp_all)
    | requeueWake =>
      simp only at h
      split at h
      · cases h
        exact .stay _
      · cases h
        exact .requeueWake keep t hloop
    | requeueRemove =>
      simp only at h
      split at h
      · cases h
        exact .requeueRemove keep t hloop ‹_›
      · cases h
    | requeueRemoveWake =>
      simp only at h
      split at h
      · cases h
        exact .stay _
      · cases h
        exact .requeueRemoveWake keep t hloop
    | _ => cases h

theorem drainStep_cases {answer terminated : Bool} {evs : List Event}
    (hloop : s.loop = .drainBegin evs ∧ terminated = false ∨ s.loop = .drain terminated evs) :
    Moves capacity s (.loop answer) (drainStep s answer terminated evs) := by
  unfold drainStep
  split
  · exact .readInterrupted answer terminated evs hloop
  · split
    · exact .readEmpty answer terminated evs hloop ‹_›
    · exact .readByte answer terminated evs _ _ hloop ‹_›

/-- The steps of loop() and loopOnce(), each with the state it leads to. -/
theorem loopStep_cases {answer : Bool} (h : loopStep capacity s answer = some s') :
    Moves capacity s (.loop answer) s' := by
  unfold loopStep at h
  split at h
  · cases h
  · cases h
  · cases h
  · rename_i executedAny hloop
    split at h
    · split at h
      · cases h
        exact .noFunction answer executedAny hloop ‹_› ‹_›
      · cases h
        exact .takeFunction answer executedAny _ _ hloop ‹_› ‹_›
    · cases h
  · rename_i func hloop
    cases h
    exact .invoke answer func hloop
  · rename_i hloop
    split at h
    · cases h
      exact .takeTimer answer hloop ‹_›
    · cases h
  · rename_i now hloop
    split at h
    · cases h
      exact .noneExpired answer now hloop
    · rename_i t rest hfront
      split at h
      · cases h
        exact .noneExpired answer now hloop
      · cases h
        exact .expired answer now t rest hloop hfront (by omega)
  · rename_i t e hloop
    exact execStep_cases hloop h
  · rename_i hloop
    split at h
    · cases h
      exact .nextTimeout answer hloop ‹_›
    · cases h
  · rename_i hloop
    cases h
    exact .batchDone answer hloop
  · rename_i evs hloop
    cases h
    exact .watcher answer evs hloop
  · rename_i evs hloop
    cases h
    exact .command answer evs hloop
  · rename_i evs hloop
    cases h
    exact drainStep_cases (Or.inl ⟨hloop, rfl⟩)
  · rename_i terminated evs hloop
    cases h
    exact drainStep_cases (Or.inr hloop)
  · rename_i terminated evs hloop
    cases h
    exact .testTerminated answer terminated evs hloop

theorem epollStep_cases {r : EpollResult} {now timeToWait : ℕ}
    (hloop : s.loop = .epollWait now timeToWait) (h : epollStep s r = some s') :
    Moves capacity s (.epoll r) s' := by
  unfold epollStep at h
  split at h
  · split at h
    · cases h
      exact .epollReturn _ now timeToWait _ hloop (Or.inl rfl)
    · cases h
  · cases h
    exact .epollReturn _ now timeToWait _ hloop (Or.inl rfl)
  · cases h
    exact .epollReturn _ now timeToWait _ hloop (Or.inr (Or.inl rfl))
  · rename_i evs
    split at h
    · rename_i hevs
      cases h
      exact .epollReturn _ now timeToWait _ hloop (Or.inr (Or.inr ⟨evs, rfl, hevs.2.2.2⟩))
    · cases h

/-- The inversion of a step, which every invariant uses. -/
theorem step_cases {a : Action T Th F} (h : step capacity s a = some s') :
    Moves capacity s a s' := by
  cases a with
  | tick d =>
    simp only [step] at h
    split at h
    · cases h
      exact .tick d ‹_›
    · cases h
  | setHandler t handler => cases h; exact .setHandler t handler
  | setInterval t msec => cases h; exact .setInterval t msec
  | setRepeat t rep => cases h; exact .setRepeat t rep
  | start th t msec rep =>
    simp only [step] at h
    split at h
    · rename_i hth
      exact lockControl_cases h (by simp [hth, ThreadPoint.betweenCalls])
        (Or.inr ⟨msec, rep, rfl, Or.inl rfl⟩)
    · cases h
  | restart th t =>
    simp only [step] at h
    split at h
    · rename_i hth
      cases h
      exact .restart th t (by simp [hth, ThreadPoint.betweenCalls])
    · cases h
  | stop th t =>
    simp only [step] at h
    split at h
    · rename_i hth
      exact lockControl_cases h (by simp [hth, ThreadPoint.betweenCalls]) (Or.inl ⟨rfl, rfl⟩)
    · cases h
  | destroy th t =>
    simp only [step] at h
    split at h
    · rename_i hth
      split at h
      · rename_i hfree
        cases h
        exact .destroy th t (by simp [hth, ThreadPoint.betweenCalls]) hfree.1 hfree.2
      · cases h
    · cases h
  | post th func =>
    simp only [step] at h
    split at h
    · rename_i hth
      split at h
      · split at h
        · cases h
          exact .post th func hth ‹_›
        · cases h
          exact .stay _
      · cases h
    · cases h
  | wakeup => cases h; exact .wakeup
  | terminate th =>
    simp only [step] at h
    split at h
    · rename_i hth
      cases h
      exact .terminate th hth
    · cases h
  | thread th again => exact threadStep_cases h
  | enter =>
    simp only [step] at h
    split at h
    · rename_i hloop
      cases h
      exact .enter hloop
    · cases h
  | loop answer => exact loopStep_cases h
  | epoll r =>
    simp only [step] at h
    split at h
    · rename_i now timeToWait hloop
      exact epollStep_cases hloop h
    · cases h

end Cases

end CWrapper.MainLoop
