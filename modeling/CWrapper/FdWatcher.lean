import CWrapper.MainLoop
import CWrapper.ObserverQuiet

/-!
MainLoop's fd watchers: addFdWatcher, removeFdWatcher, and loopOnce from epoll_wait to the end of
the batch. The interest list of epoll maps a descriptor to the event.data.ptr given for it, which
is nullptr for the command pipe. All calls are made on the loop thread, from onFdReadable or while
no batch is worked through. What getFD() answers is chosen by the run, at each call of it.
The loop is one whose constructor succeeded.
-/
namespace CWrapper.FdWatcher

open ObserverList Transition

def kMaxFdWatcherSize : ℕ := 64

structure Event (W : Type) where
  ptr : Option W
  readable : Bool
  deriving DecidableEq, Repr

inductive LoopPoint (W : Type)
  /-- Not in a batch. -/
  | between
  /-- The rest of the batch. -/
  | events (evs : List (Event W))
  /-- Inside onFdReadable of a watcher. -/
  | callback (watcher : W) (evs : List (Event W))
  | exited
  deriving DecidableEq, Repr

structure State (W : Type) (w : ℕ) where
  epoll : ℤ → Option (Option W)
  mFdWatchers : RawObserverList W kMaxFdWatcherSize w
  point : LoopPoint W

/-- What epoll_wait returns; a batch is given by its descriptors and their EPOLLIN. -/
inductive EpollResult
  | nothing
  | failed
  | events (fds : List (ℤ × Bool))
  deriving DecidableEq, Repr

/-- What drainCommandPipe leads to: loopOnce goes on, returns true, or returns false. -/
inductive Drained
  | goesOn
  | failed
  | terminated
  deriving DecidableEq, Repr

inductive Action (W : Type)
  /-- `refused` is an error of EPOLL_CTL_ADD other than EEXIST. -/
  | add (watcher : Option W) (fd : ℤ) (refused : Bool)
  | remove (watcher : Option W) (fd : ℤ)
  | epoll (r : EpollResult)
  /-- The next step of loopOnce: `fd` is what getFD() answers. -/
  | loop (fd : ℤ) (drained : Drained)
  deriving DecidableEq, Repr

def LoopPoint.mayCall {W : Type} : LoopPoint W → Bool
  | .between | .callback _ _ => true
  | .events _ | .exited => false

section Step

variable {W : Type} [DecidableEq W] {w : ℕ}

def State.ctlAdds (s : State W w) (fd : ℤ) (refused : Bool) : Bool :=
  !refused && (s.epoll fd).isNone

def addFdWatcher (s : State W w) (watcher : Option W) (fd : ℤ) (refused : Bool) : State W w :=
  match watcher with
  | none => s
  | some watcher =>
      if fd < 0 then s
      else if s.ctlAdds fd refused then
        { s with
          epoll := Function.update s.epoll fd (some (some watcher))
          mFdWatchers := (s.mFdWatchers.add (some watcher)).2 }
      else s

/-- EPOLL_CTL_DEL fails with ENOENT where nothing is to be deleted. -/
def removeFdWatcher (s : State W w) (watcher : Option W) (fd : ℤ) : State W w :=
  match watcher with
  | none => s
  | some watcher =>
      { s with
        epoll := if 0 ≤ fd then Function.update s.epoll fd none else s.epoll
        mFdWatchers := (s.mFdWatchers.remove (some watcher)).2 }

/-- The events that epoll_wait reports for descriptors of the interest list. -/
def State.batch (s : State W w) (fds : List (ℤ × Bool)) : List (Event W) :=
  fds.filterMap fun f => (s.epoll f.1).map fun ptr => ⟨ptr, f.2⟩

def epollStep (s : State W w) : EpollResult → Option (State W w)
  | .nothing => some s
  | .failed => some { s with point := .exited }
  | .events fds =>
      if fds ≠ [] ∧ fds.length ≤ MainLoop.MaxEvents ∧ (fds.map Prod.fst).Nodup ∧
          ∀ f ∈ fds, (s.epoll f.1).isSome then
        some { s with point := .events (s.batch fds) }
      else none

def loopStep (s : State W w) (fd : ℤ) (drained : Drained) : Option (State W w) :=
  match s.point with
  | .between | .exited => none
  | .events [] => some { s with point := .between }
  | .events (⟨none, _⟩ :: evs) =>
      some { s with point := match drained with
        | .goesOn => .events evs
        | .failed => .between
        | .terminated => .exited }
  | .events (⟨some watcher, readable⟩ :: evs) =>
      if fd < 0 then some { s with point := .events evs }
      else some { s with point := if readable then .callback watcher evs else .events evs }
  | .callback _ evs => some { s with point := .events evs }

def step (s : State W w) : Action W → Option (State W w)
  | .add watcher fd refused =>
      if s.point.mayCall then some (addFdWatcher s watcher fd refused) else none
  | .remove watcher fd => if s.point.mayCall then some (removeFdWatcher s watcher fd) else none
  | .epoll r =>
      match s.point with
      | .between => epollStep s r
      | _ => none
  | .loop fd drained => loopStep s fd drained

/-- The state after construction, the pipe being registered. -/
def State.start (pipe : ℤ) : State W w where
  epoll := Function.update (fun _ => none) pipe (some none)
  mFdWatchers := .empty
  point := .between

end Step

def system (W : Type) [DecidableEq W] (w : ℕ) : Machine (State W w) (Action W) where
  initial s := ∃ pipe, s = State.start pipe
  step := step

variable {W : Type} {w : ℕ} {s s' : State W w} {a : Action W}

/-- The registries are changed by addFdWatcher and removeFdWatcher only. -/
theorem epollStep_frame {r : EpollResult} (h : epollStep s r = some s') :
    s'.epoll = s.epoll ∧ s'.mFdWatchers = s.mFdWatchers := by
  unfold epollStep at h
  split at h
  · obtain rfl := Option.some.inj h
    exact ⟨rfl, rfl⟩
  · obtain rfl := Option.some.inj h
    exact ⟨rfl, rfl⟩
  · split_ifs at h
    obtain rfl := Option.some.inj h
    exact ⟨rfl, rfl⟩

theorem loopStep_frame {fd : ℤ} {drained : Drained} (h : loopStep s fd drained = some s') :
    s'.epoll = s.epoll ∧ s'.mFdWatchers = s.mFdWatchers := by
  unfold loopStep at h
  split at h
  · simp at h
  · simp at h
  · obtain rfl := Option.some.inj h
    exact ⟨rfl, rfl⟩
  · obtain rfl := Option.some.inj h
    exact ⟨rfl, rfl⟩
  · split_ifs at h <;> (obtain rfl := Option.some.inj h; exact ⟨rfl, rfl⟩)
  · obtain rfl := Option.some.inj h
    exact ⟨rfl, rfl⟩

variable [DecidableEq W]

theorem add_mFdWatchers (s : State W w) (watcher : Option W) (fd : ℤ) (refused : Bool) :
    (addFdWatcher s watcher fd refused).mFdWatchers = s.mFdWatchers ∨
      ∃ o, (addFdWatcher s watcher fd refused).mFdWatchers = (s.mFdWatchers.add o).2 := by
  unfold addFdWatcher
  split
  · exact Or.inl rfl
  · split_ifs
    · exact Or.inl rfl
    · exact Or.inr ⟨_, rfl⟩
    · exact Or.inl rfl

theorem remove_mFdWatchers (s : State W w) (watcher : Option W) (fd : ℤ) :
    (removeFdWatcher s watcher fd).mFdWatchers = (s.mFdWatchers.remove watcher).2 := by
  cases watcher <;> rfl

/-- The actions that enter a step, with the state each leads to. -/
theorem step_cases (h : step s a = some s') :
    (∃ watcher fd refused, a = .add watcher fd refused ∧ s.point.mayCall = true ∧
      s' = addFdWatcher s watcher fd refused) ∨
    (∃ watcher fd, a = .remove watcher fd ∧ s.point.mayCall = true ∧
      s' = removeFdWatcher s watcher fd) ∨
    (∃ r, a = .epoll r ∧ s.point = .between ∧ epollStep s r = some s') ∨
    ∃ fd drained, a = .loop fd drained ∧ loopStep s fd drained = some s' := by
  cases a with
  | add watcher fd refused =>
    simp only [step, Option.ite_none_right_eq_some] at h
    exact Or.inl ⟨watcher, fd, refused, rfl, h.1, (Option.some.inj h.2).symm⟩
  | remove watcher fd =>
    simp only [step, Option.ite_none_right_eq_some] at h
    exact Or.inr (Or.inl ⟨watcher, fd, rfl, h.1, (Option.some.inj h.2).symm⟩)
  | epoll r =>
    simp only [step] at h
    split at h
    · rename_i hpoint
      exact Or.inr (Or.inr (Or.inl ⟨r, rfl, hpoint, h⟩))
    · simp at h
  | loop fd drained => exact Or.inr (Or.inr (Or.inr ⟨fd, drained, rfl, h⟩))

/-- No call of RawObserverList is in flight: loopOnce does not use notify. -/
theorem quiet_step (h : s.mFdWatchers.Quiet) (hstep : step s a = some s') :
    s'.mFdWatchers.Quiet := by
  obtain ⟨watcher, fd, refused, -, -, rfl⟩ | ⟨watcher, fd, -, -, rfl⟩ | ⟨r, -, -, hr⟩ |
    ⟨fd, drained, -, hloop⟩ := step_cases hstep
  · rcases add_mFdWatchers s watcher fd refused with heq | ⟨o, heq⟩
    · rw [heq]
      exact h
    · rw [heq]
      exact h.add o
  · rw [remove_mFdWatchers]
    exact h.remove watcher
  · rw [(epollStep_frame hr).2]
    exact h
  · rw [(loopStep_frame hloop).2]
    exact h

theorem quiet_start (pipe : ℤ) : (State.start pipe : State W w).mFdWatchers.Quiet :=
  RawObserverList.quiet_empty

end CWrapper.FdWatcher
