import CWrapper.FdWatcher
import CWrapper.Transition

/-!
The two registries of the fd watchers, when each watcher has one descriptor. They agree after a
call if the call completes in both. Two calls do not: addFdWatcher does not look at the answer of
mFdWatchers.add, and removeFdWatcher deletes what epoll has for the descriptor, whoever added it.
-/
namespace CWrapper.FdWatcher

open ObserverList Transition

section Registries

variable {W : Type} {w : ℕ}

def State.registered (s : State W w) (u : W) : Prop := ∃ fd, s.epoll fd = some (some u)

/-- The watchers in epoll are there under their own descriptors. -/
def Keyed (fdOf : W → ℕ) (s : State W w) : Prop :=
  ∀ fd u, s.epoll fd = some (some u) → fd = fdOf u

/-- getFD() of a watcher that is added or removed answers its descriptor. -/
def answers (fdOf : W → ℕ) : Action W → Prop
  | .add (some u) fd _ | .remove (some u) fd => fd = fdOf u
  | _ => True

instance (fdOf : W → ℕ) : (a : Action W) → Decidable (answers fdOf a)
  | .add (some u) fd _ | .remove (some u) fd => inferInstanceAs (Decidable (fd = fdOf u))
  | .add none _ _ | .remove none _ | .epoll _ | .loop _ _ => isTrue trivial

/-- The registrations of all watchers but `u` are still there. -/
def KeepsOthers (u : W) (s s' : State W w) : Prop := ∀ v ≠ u, s.registered v → s'.registered v

theorem registered_update {s : State W w} {fd : ℤ} {u v : W} (hfree : s.epoll fd = none) :
    (∃ fd', Function.update s.epoll fd (some (some u)) fd' = some (some v)) ↔
      s.registered v ∨ v = u := by
  constructor
  · rintro ⟨fd', hfd'⟩
    by_cases heq : fd' = fd
    · subst heq
      rw [Function.update_self, Option.some.injEq, Option.some.injEq] at hfd'
      exact Or.inr hfd'.symm
    · rw [Function.update_of_ne heq] at hfd'
      exact Or.inl ⟨fd', hfd'⟩
  · rintro (⟨fd', hfd'⟩ | rfl)
    · have hne : fd' ≠ fd := by
        rintro rfl
        simp [hfree] at hfd'
      exact ⟨fd', by rwa [Function.update_of_ne hne]⟩
    · exact ⟨fd, Function.update_self ..⟩

theorem registered_erase {s : State W w} {fd : ℤ} {v : W} :
    (∃ fd', Function.update s.epoll fd none fd' = some (some v)) ↔
      ∃ fd' ≠ fd, s.epoll fd' = some (some v) := by
  constructor
  · rintro ⟨fd', hfd'⟩
    by_cases heq : fd' = fd
    · subst heq
      simp at hfd'
    · exact ⟨fd', heq, by rwa [Function.update_of_ne heq] at hfd'⟩
  · rintro ⟨fd', hne, hfd'⟩
    exact ⟨fd', by rwa [Function.update_of_ne hne]⟩

theorem Keyed.update {fdOf : W → ℕ} {s : State W w} (h : Keyed fdOf s) (u : W) :
    ∀ fd v, Function.update s.epoll (fdOf u) (some (some u)) fd = some (some v) →
      fd = fdOf v := by
  intro fd v hfd
  by_cases heq : fd = fdOf u
  · subst heq
    rw [Function.update_self, Option.some.injEq, Option.some.injEq] at hfd
    rw [hfd]
  · rw [Function.update_of_ne heq] at hfd
    exact h fd v hfd

theorem Keyed.erase {fdOf : W → ℕ} {s : State W w} (h : Keyed fdOf s) (x : ℤ) :
    ∀ fd v, Function.update s.epoll x none fd = some (some v) → fd = fdOf v := by
  intro fd v hfd
  by_cases heq : fd = x
  · subst heq
    simp at hfd
  · rw [Function.update_of_ne heq] at hfd
    exact h fd v hfd

theorem not_registered_start (pipe : ℤ) (u : W) :
    ¬ (State.start pipe : State W w).registered u := by
  rintro ⟨fd, hfd⟩
  by_cases heq : fd = pipe
  · subst heq
    simp [State.start] at hfd
  · simp [State.start, Function.update_of_ne heq] at hfd

theorem keyed_start (fdOf : W → ℕ) (pipe : ℤ) : Keyed fdOf (State.start pipe : State W w) := by
  intro fd u hfd
  exact absurd ⟨fd, hfd⟩ (not_registered_start pipe u)

end Registries

variable {W : Type} [DecidableEq W] {w : ℕ} {s s' : State W w} {a : Action W} {fdOf : W → ℕ}

def State.held (s : State W w) (u : W) : Prop := s.mFdWatchers.contains (some u) = true

/-- mFdWatchers holds the watchers that are in epoll. -/
def Agrees (s : State W w) : Prop := ∀ u, s.held u ↔ s.registered u

/-- An add has completed in both registries, or has changed neither. -/
def AllOrNothing (u : W) (s s' : State W w) : Prop :=
  s'.held u ∧ s'.registered u ∨ s'.epoll = s.epoll ∧ s'.mFdWatchers = s.mFdWatchers

/-- What a call does to the registries that were there before. -/
def CallWhole (s s' : State W w) : Action W → Prop
  | .add (some u) _ _ => AllOrNothing u s s'
  | .remove (some u) _ => KeepsOthers u s s'
  | _ => True

def keepsWhole (s : State W w) (a : Action W) : Prop :=
  ∀ s', step s a = some s' → Agrees s' ∧ CallWhole s s' a

/-- An add that epoll takes finds a free entry, and a removal finds no other watcher under the
descriptor. -/
def fits (s : State W w) : Action W → Prop
  | .add (some _) fd refused =>
      s.ctlAdds fd refused = true → s.mFdWatchers.occupied < kMaxFdWatcherSize
  | .remove (some u) fd => ∀ v, s.epoll fd = some (some v) → v = u
  | _ => True

/-- Where getFD() answers the same descriptor each time, a watcher stays registered under its own.
-/
theorem keyed_step (h : Keyed fdOf s) (hfd : answers fdOf a) (hstep : step s a = some s') :
    Keyed fdOf s' := by
  obtain ⟨watcher, fd, refused, rfl, -, rfl⟩ | ⟨watcher, fd, rfl, -, rfl⟩ | ⟨r, -, -, hr⟩ |
    ⟨fd, drained, -, hloop⟩ := step_cases hstep
  · cases watcher with
    | none => exact h
    | some u =>
      obtain rfl : fd = fdOf u := hfd
      unfold addFdWatcher
      dsimp only
      split_ifs
      · exact h
      · exact h.update u
      · exact h
  · cases watcher with
    | none => exact h
    | some u =>
      simp only [removeFdWatcher]
      split_ifs
      · exact h.erase fd
      · exact h
  · rw [Keyed, (epollStep_frame hr).1]
    exact h
  · rw [Keyed, (loopStep_frame hloop).1]
    exact h

/-- Where no call changes the answer of getFD(), epoll knows every watcher under that descriptor. -/
theorem keyed_reachable (h : (system W w).Reachable (fun _ a => answers fdOf a) s) :
    Keyed fdOf s := by
  have hinv : (system W w).Invariant (fun _ a => answers fdOf a) (fun _ => True) (Keyed fdOf) := by
    refine ⟨?_, fun s a s' hfd _ hstep hk => keyed_step hk hfd hstep⟩
    rintro s ⟨pipe, rfl⟩
    exact keyed_start fdOf pipe
  exact hinv.always h

/-- An add keeps the registries together if and only if both have room for it. -/
theorem add_whole_iff (hs : Agrees s) (hq : s.mFdWatchers.Quiet) (hk : Keyed fdOf s) (u : W)
    (refused : Bool) :
    Agrees (addFdWatcher s (some u) (fdOf u) refused) ∧
        AllOrNothing u s (addFdWatcher s (some u) (fdOf u) refused) ↔
      fits s (.add (some u) (fdOf u) refused) := by
  have hneg : ¬ (fdOf u : ℤ) < 0 := by omega
  cases hctl : s.ctlAdds (fdOf u) refused with
  | false =>
    have hsame : addFdWatcher s (some u) (fdOf u) refused = s := by
      simp [addFdWatcher, hctl]
    rw [hsame]
    simp [fits, hctl, hs, AllOrNothing]
  | true =>
    have hfree : s.epoll (fdOf u) = none := by
      simp only [State.ctlAdds, Bool.and_eq_true, Option.isNone_iff_eq_none] at hctl
      exact hctl.2
    have hout : ¬ s.held u := by
      rw [hs u]
      rintro ⟨fd, hfd⟩
      obtain rfl := hk fd u hfd
      simp [hfree] at hfd
    have hadd : addFdWatcher s (some u) (fdOf u) refused = { s with
        epoll := Function.update s.epoll (fdOf u) (some (some u))
        mFdWatchers := (s.mFdWatchers.add (some u)).2 } := by
      simp [addFdWatcher, hctl, hneg]
    have htaken : (s.mFdWatchers.add (some u)).1 = true ↔
        s.mFdWatchers.occupied < kMaxFdWatcherSize := by
      rw [hq.add_iff, and_iff_right (Bool.not_eq_true _ ▸ hout)]
    have hheld (v : W) : (addFdWatcher s (some u) (fdOf u) refused).held v ↔
        s.held v ∨ v = u ∧ s.mFdWatchers.occupied < kMaxFdWatcherSize := by
      rw [hadd, ← htaken]
      exact RawObserverList.add_contains_iff
    have hreg (v : W) : (addFdWatcher s (some u) (fdOf u) refused).registered v ↔
        s.registered v ∨ v = u := by
      rw [hadd]
      exact registered_update hfree
    constructor
    · rintro ⟨hagrees, -⟩ -
      rcases (hheld u).mp ((hagrees u).mpr ((hreg u).mpr (Or.inr rfl))) with hin | ⟨-, hroom⟩
      · exact absurd hin hout
      · exact hroom
    · intro hfits
      have hroom := hfits hctl
      refine ⟨fun v => ?_, Or.inl ⟨(hheld u).mpr (Or.inr ⟨rfl, hroom⟩), (hreg u).mpr (Or.inr rfl)⟩⟩
      rw [hheld, hreg, hs v]
      simp [hroom]

/-- A removal keeps them together if and only if it finds no other watcher. -/
theorem remove_whole_iff (hs : Agrees s) (hq : s.mFdWatchers.Quiet) (hk : Keyed fdOf s) (u : W) :
    Agrees (removeFdWatcher s (some u) (fdOf u)) ∧
        KeepsOthers u s (removeFdWatcher s (some u) (fdOf u)) ↔
      fits s (.remove (some u) (fdOf u)) := by
  have hremove : removeFdWatcher s (some u) (fdOf u) = { s with
      epoll := Function.update s.epoll (fdOf u) none
      mFdWatchers := (s.mFdWatchers.remove (some u)).2 } := by
    simp [removeFdWatcher]
  have hheld (v : W) : (removeFdWatcher s (some u) (fdOf u)).held v ↔ s.held v ∧ v ≠ u := by
    rw [hremove]
    exact hq.remove_contains_iff
  have hreg (v : W) : (removeFdWatcher s (some u) (fdOf u)).registered v ↔
      ∃ fd ≠ (fdOf u : ℤ), s.epoll fd = some (some v) := by
    rw [hremove]
    exact registered_erase
  constructor
  · rintro ⟨-, hothers⟩ v hv
    by_contra hne
    obtain ⟨fd, hfd, hv'⟩ := (hreg v).mp (hothers v hne ⟨_, hv⟩)
    exact hfd ((hk fd v hv').trans (hk _ v hv).symm)
  · intro hfits
    have hother {v : W} (hne : v ≠ u) (hv : s.registered v) :
        (removeFdWatcher s (some u) (fdOf u)).registered v := by
      obtain ⟨fd, hfd⟩ := hv
      refine (hreg v).mpr ⟨fd, ?_, hfd⟩
      rintro rfl
      exact hne (hfits v hfd)
    refine ⟨fun v => ?_, fun v => hother⟩
    rw [hheld, hs v]
    constructor
    · rintro ⟨hv, hne⟩
      exact hother hne hv
    · intro hv
      obtain ⟨fd, hne, hfd⟩ := (hreg v).mp hv
      refine ⟨⟨fd, hfd⟩, ?_⟩
      rintro rfl
      exact hne (hk fd v hfd)

/-- A step keeps the registries together if and only if the call it makes fits into both. -/
theorem keepsWhole_iff (hs : Agrees s) (hq : s.mFdWatchers.Quiet) (hk : Keyed fdOf s)
    (hfd : answers fdOf a) (hstep : step s a = some s') : keepsWhole s a ↔ fits s a := by
  have hthis : keepsWhole s a ↔ Agrees s' ∧ CallWhole s s' a :=
    Machine.leadsTo_iff (M := system W w) (P := fun s' => Agrees s' ∧ CallWhole s s' a) hstep
  rw [hthis]
  obtain ⟨watcher, fd, refused, rfl, -, rfl⟩ | ⟨watcher, fd, rfl, -, rfl⟩ | ⟨r, rfl, -, hr⟩ |
    ⟨fd, drained, rfl, hloop⟩ := step_cases hstep
  · cases watcher with
    | none => exact ⟨fun _ => trivial, fun _ => ⟨hs, trivial⟩⟩
    | some u =>
      obtain rfl : fd = fdOf u := hfd
      exact add_whole_iff hs hq hk u refused
  · cases watcher with
    | none => exact ⟨fun _ => trivial, fun _ => ⟨hs, trivial⟩⟩
    | some u =>
      obtain rfl : fd = fdOf u := hfd
      exact remove_whole_iff hs hq hk u
  · have hsame : Agrees s' := by
      intro u
      rw [State.held, State.registered, (epollStep_frame hr).1, (epollStep_frame hr).2]
      exact hs u
    exact ⟨fun _ => trivial, fun _ => ⟨hsame, trivial⟩⟩
  · have hsame : Agrees s' := by
      intro u
      rw [State.held, State.registered, (loopStep_frame hloop).1, (loopStep_frame hloop).2]
      exact hs u
    exact ⟨fun _ => trivial, fun _ => ⟨hsame, trivial⟩⟩

theorem agrees_start (pipe : ℤ) : Agrees (State.start pipe : State W w) := by
  intro u
  have hheld : ¬ (State.start pipe : State W w).held u := by
    rw [State.held, contains_iff]
    rintro ⟨i, hi⟩
    simp [State.start, RawObserverList.empty, RawObserverList.IsActive] at hi
  exact iff_of_false hheld (not_registered_start pipe u)

/-- In a run the two registries stay together, with every add in both or in neither and every
removal its own watcher's, if and only if no add that epoll takes finds the list full and no
removal finds the descriptor under another watcher. -/
theorem registration_iff {as : List (Action W)} (hinit : (system W w).initial s) :
    (system W w).Path (fun s a => answers fdOf a ∧ keepsWhole s a) s as s' ↔
      (system W w).Path (fun s a => answers fdOf a ∧ fits s a) s as s' := by
  obtain ⟨pipe, rfl⟩ := hinit
  refine Machine.path_congr
    (I := fun s => Agrees s ∧ s.mFdWatchers.Quiet ∧ Keyed fdOf s) ?_ ?_
    ⟨agrees_start pipe, quiet_start pipe, keyed_start fdOf pipe⟩
  · rintro s a s' ⟨hfd, hwhole⟩ hstep ⟨-, hq, hk⟩
    exact ⟨(hwhole s' hstep).1, quiet_step hq hstep, keyed_step hk hfd hstep⟩
  · rintro s a s' ⟨hs, hq, hk⟩ hstep
    exact and_congr_right fun hfd => keepsWhole_iff hs hq hk hfd hstep

def sharedFd : Bool → ℕ := fun _ => 3

/-- The second watcher is refused with EEXIST; its removal deletes the first one from epoll. -/
def removesOther : List (Action Bool) :=
  [.add (some true) 3 false, .add (some false) 3 false, .remove (some false) 3]

def afterRemoval : State Bool 32 :=
  (system Bool 32).after (fun _ a => answers sharedFd a) (State.start 7) removesOther

theorem registration_iff_other :
    (system Bool 32).Path (fun s a => answers sharedFd a ∧ keepsWhole s a) (State.start 7)
        removesOther afterRemoval ↔
      (system Bool 32).Path (fun s a => answers sharedFd a ∧ fits s a) (State.start 7)
        removesOther afterRemoval :=
  registration_iff ⟨7, rfl⟩

/-- The second watcher has a descriptor in use. Its add is refused and its removal takes the first
one out of epoll, which mFdWatchers still holds. -/
theorem registration_diverges :
    ¬ ∀ s, (system Bool 32).Reachable (fun _ a => answers sharedFd a) s → Agrees s := by
  intro h
  have hreach : (system Bool 32).Reachable (fun _ a => answers sharedFd a) afterRemoval :=
    Machine.reachable_after ⟨7, rfl⟩ (by decide +kernel)
  have hheld : afterRemoval.held true := by
    show afterRemoval.mFdWatchers.contains (some true) = true
    decide +kernel
  obtain ⟨fd, hfd⟩ := (h _ hreach true).mp hheld
  obtain rfl : fd = 3 := keyed_reachable hreach fd true hfd
  have hgone : afterRemoval.epoll 3 = none := by decide +kernel
  rw [hgone] at hfd
  cases hfd

end CWrapper.FdWatcher
