import CWrapper.FdCalls

/-!
The watchers that loopOnce calls. A batch holds the pointers that epoll had when epoll_wait
returned, and loopOnce works through it without another look at mFdWatchers. The callbacks of the
events before decide whether the next one's watcher is still in the list.
-/
namespace CWrapper.FdWatcher

open ObserverList Transition

section Events

variable {W : Type}

/-- What loopOnce does at one event before it goes on to the next: its steps, and the calls that
the callback makes. -/
inductive Takes : Event W → List (Action W) → List (Call W) → Prop
  | pipe (readable : Bool) (fd : ℤ) : Takes ⟨none, readable⟩ [.loop fd .goesOn] []
  | skip {u : W} {readable : Bool} {fd : ℤ} (drained : Drained)
      (hskip : fd < 0 ∨ readable = false) : Takes ⟨some u, readable⟩ [.loop fd drained] []
  | callback {u : W} {fd fd' : ℤ} (drained drained' : Drained) (hfd : 0 ≤ fd)
      (calls : List (Call W)) :
      Takes ⟨some u, true⟩ (.loop fd drained :: (calls.map Call.action ++ [.loop fd' drained']))
        calls

/-- loopOnce has worked through the events, which are the first ones of a batch. -/
inductive Walks : List (Event W) → List (Action W) → List (Call W) → Prop
  | nil : Walks [] [] []
  | snoc {evs : List (Event W)} {as as' : List (Action W)} {calls calls' : List (Call W)}
      {ev : Event W} (h : Walks evs as calls) (hev : Takes ev as' calls') :
      Walks (evs ++ [ev]) (as ++ as') (calls ++ calls')

/-- The watcher whose event loopOnce takes: getFD and, for a readable event, onFdReadable. -/
def State.called {w : ℕ} (s : State W w) : Action W → Option W
  | .loop _ _ =>
      match s.point with
      | .events (⟨some watcher, _⟩ :: _) => some watcher
      | _ => none
  | _ => none

end Events

variable {W : Type} [DecidableEq W] {w : ℕ} {s s' t : State W w} {calls : List (Call W)}

/-- loopOnce calls registered watchers. -/
def callsRegistered (s : State W w) (a : Action W) : Prop := ∀ u, s.called a = some u → s.held u

/-- In each batch of the run, the callbacks of the events before do not disturb the watcher of an
event that loopOnce comes to. -/
def BatchesUndisturbed (s : State W w) (as : List (Action W)) : Prop :=
  ∀ as₀ s₀ fds evs as₁ calls fd drained as₂ u readable rest,
    as = as₀ ++ .epoll (.events fds) :: (as₁ ++ .loop fd drained :: as₂) →
    (system W w).Path Machine.anyStep s as₀ s₀ →
    s₀.batch fds = evs ++ ⟨some u, readable⟩ :: rest → Walks evs as₁ calls →
    Undisturbed s₀ calls u

/-- loopOnce takes an event. -/
theorem takes_path {ev : Event W} {rest : List (Event W)} {as : List (Action W)}
    (h : Takes ev as calls) (hpoint : s.point = .events (ev :: rest))
    (hpath : (system W w).Path Machine.anyStep s as s') :
    s' = { s.makes calls with point := .events rest } := by
  cases h with
  | pipe readable fd =>
    cases hpath with
    | cons _ hstep hnil =>
      cases hnil
      simp only [system, step, loopStep, hpoint, Option.some.injEq] at hstep
      exact hstep.symm
  | skip drained hskip =>
    cases hpath with
    | cons _ hstep hnil =>
      cases hnil
      simp only [system, step, loopStep, hpoint] at hstep
      obtain hneg | rfl := hskip
      · rw [if_pos hneg] at hstep
        exact (Option.some.inj hstep).symm
      · simp only [Bool.false_eq_true, if_false, ite_self, Option.some.injEq] at hstep
        exact hstep.symm
  | callback drained drained' hfd calls =>
    cases hpath with
    | cons _ hstart hrest =>
      simp only [system, step, loopStep, hpoint, not_lt.mpr hfd, if_false, if_true,
        Option.some.injEq] at hstart
      obtain ⟨t, hcalls, -, hstep⟩ := hrest.last
      rw [← hstart] at hcalls
      have ht := calls_path hcalls
      rw [makes_point] at ht
      subst ht
      exact (Option.some.inj hstep).symm

/-- loopOnce works through the first events of the batch. -/
theorem walks_path {evs rest : List (Event W)} {as : List (Action W)} (h : Walks evs as calls)
    (hpoint : s.point = .events (evs ++ rest))
    (hpath : (system W w).Path Machine.anyStep s as s') :
    s' = { s.makes calls with point := .events rest } := by
  induction h generalizing rest s' with
  | nil =>
    cases hpath
    cases s
    simp_all
  | @snoc evs as as' calls calls' ev _ hev ih =>
    obtain ⟨t, hbefore, hlast⟩ := hpath.split
    have ht : t = { s.makes calls with point := .events (ev :: rest) } :=
      ih (by rw [hpoint, List.append_assoc]; rfl) hbefore
    have hpoint' : t.point = .events (ev :: rest) := by rw [ht]
    rw [takes_path hev hpoint' hlast, ht, makes_point, makes_append]

/-- Where the actions of a run have brought loopOnce in a batch: which events it has worked
through, and which calls the callbacks have made. -/
def InBatch (s : State W w) (as : List (Action W)) (t : State W w) : LoopPoint W → Prop
  | .events rest => ∃ as₀ s₀ fds evs as₁ calls, as = as₀ ++ .epoll (.events fds) :: as₁ ∧
      (system W w).Path Machine.anyStep s as₀ s₀ ∧ s₀.batch fds = evs ++ rest ∧
      Walks evs as₁ calls ∧ t = { s₀.makes calls with point := .events rest }
  | .callback u rest => ∃ as₀ s₀ fds evs as₁ calls fd drained calls',
      as = as₀ ++ .epoll (.events fds) :: (as₁ ++ .loop fd drained :: calls'.map Call.action) ∧
      (system W w).Path Machine.anyStep s as₀ s₀ ∧
      s₀.batch fds = evs ++ ⟨some u, true⟩ :: rest ∧ Walks evs as₁ calls ∧ 0 ≤ fd ∧
      t = { s₀.makes (calls ++ calls') with point := .callback u rest }
  | .between | .exited => True

/-- A call of the callback is added to those of the event at hand. -/
theorem inBatch_call {as : List (Action W)} {c : Call W} (h : InBatch s as t t.point)
    (hmay : t.point.mayCall = true) :
    InBatch s (as ++ [c.action]) (t.make c) (t.make c).point := by
  have hpoint : (t.make c).point = t.point := by
    have hmake : t.make c = { t.make c with point := t.point } := make_point t t.point c
    rw [hmake]
  rw [hpoint]
  cases hp : t.point with
  | between => trivial
  | exited => trivial
  | events rest => simp [hp, LoopPoint.mayCall] at hmay
  | callback u rest =>
    rw [hp] at h
    obtain ⟨as₀, s₀, fds, evs, as₁, calls, fd, drained, calls', rfl, hpath, hbatch, hwalks, hfd,
      rfl⟩ := h
    refine ⟨as₀, s₀, fds, evs, as₁, calls, fd, drained, calls' ++ [c], by simp, hpath, hbatch,
      hwalks, hfd, ?_⟩
    rw [make_point, ← List.append_assoc, makes_append _ (calls ++ calls')]
    rfl

theorem inBatch_epoll {as : List (Action W)} {r : EpollResult}
    (hpath : (system W w).Path Machine.anyStep s as t) (hpoint : t.point = .between)
    (hr : epollStep t r = some s') : InBatch s (as ++ [.epoll r]) s' s'.point := by
  cases r with
  | nothing =>
    obtain rfl := Option.some.inj hr
    rw [hpoint]
    trivial
  | failed =>
    obtain rfl := Option.some.inj hr
    trivial
  | events fds =>
    simp only [epollStep, Option.ite_none_right_eq_some] at hr
    obtain rfl := Option.some.inj hr.2
    exact ⟨as, t, fds, [], [], [], rfl, hpath, rfl, .nil, rfl⟩

/-- When loopOnce goes on, the event at hand is done, with the calls that its callback has made. -/
theorem inBatch_loop {as : List (Action W)} {fd : ℤ} {drained : Drained}
    (h : InBatch s as t t.point) (hloop : loopStep t fd drained = some s') :
    InBatch s (as ++ [.loop fd drained]) s' s'.point := by
  cases hp : t.point with
  | between => simp [loopStep, hp] at hloop
  | exited => simp [loopStep, hp] at hloop
  | callback u rest =>
    rw [hp] at h
    obtain ⟨as₀, s₀, fds, evs, as₁, calls, fd₀, drained₀, calls', rfl, hpath, hbatch, hwalks, hfd,
      rfl⟩ := h
    obtain rfl := Option.some.inj hloop
    have htakes : Takes ⟨some u, true⟩
        (.loop fd₀ drained₀ :: (calls'.map Call.action ++ [.loop fd drained])) calls' :=
      .callback drained₀ drained hfd calls'
    exact ⟨as₀, s₀, fds, _, _, _, by simp, hpath, by simp [hbatch], hwalks.snoc htakes, rfl⟩
  | events rest =>
    rw [hp] at h
    obtain ⟨as₀, s₀, fds, evs, as₁, calls, rfl, hpath, hbatch, hwalks, rfl⟩ := h
    match rest, hbatch, hloop with
    | [], hbatch, hloop =>
      obtain rfl := Option.some.inj hloop
      trivial
    | ⟨none, readable⟩ :: rest, hbatch, hloop =>
      obtain rfl := Option.some.inj hloop
      cases drained with
      | failed => trivial
      | terminated => trivial
      | goesOn =>
        exact ⟨as₀, s₀, fds, _, _, _, by simp, hpath, by simp [hbatch],
          hwalks.snoc (.pipe readable fd), by simp⟩
    | ⟨some u, readable⟩ :: rest, hbatch, hloop =>
      by_cases hskip : fd < 0 ∨ readable = false
      · have hs' : s' = { s₀.makes calls with point := .events rest } := by
          obtain hneg | rfl := hskip
          · simp only [loopStep, if_pos hneg, Option.some.injEq] at hloop
            exact hloop.symm
          · simp only [loopStep, Bool.false_eq_true, if_false, ite_self, Option.some.injEq] at hloop
            exact hloop.symm
        subst hs'
        exact ⟨as₀, s₀, fds, _, _, _, by simp, hpath, by simp [hbatch],
          hwalks.snoc (.skip (u := u) drained hskip), by simp⟩
      · rw [not_or, Bool.not_eq_false] at hskip
        obtain ⟨hneg, rfl⟩ := hskip
        simp only [loopStep, if_neg hneg, if_true, Option.some.injEq] at hloop
        subst hloop
        exact ⟨as₀, s₀, fds, evs, as₁, calls, fd, drained, [], by simp, hpath, hbatch, hwalks,
          not_lt.mp hneg, by simp⟩

/-- A run that has reached loopOnce's loop over a batch has walked through its first events. -/
theorem inBatch_path {as : List (Action W)} (hbetween : s.point = .between)
    (hpath : (system W w).Path Machine.anyStep s as t) : InBatch s as t t.point := by
  induction as using List.reverseRecOn generalizing t with
  | nil =>
    cases hpath
    rw [hbetween]
    trivial
  | append_singleton as a ih =>
    obtain ⟨t₀, hbefore, -, hstep⟩ := hpath.last
    obtain ⟨watcher, fd, refused, rfl, hmay, rfl⟩ | ⟨watcher, fd, rfl, hmay, rfl⟩ |
      ⟨r, rfl, hpoint, hr⟩ | ⟨fd, drained, rfl, hloop⟩ := step_cases hstep
    · exact inBatch_call (c := .add watcher fd refused) (ih hbefore) hmay
    · exact inBatch_call (c := .remove watcher fd) (ih hbefore) hmay
    · exact inBatch_epoll hbefore hpoint hr
    · exact inBatch_loop (ih hbefore) hloop

/-- No step leaves a call of notify in flight. -/
theorem quiet_path {as : List (Action W)} (hq : s.mFdWatchers.Quiet)
    (hpath : (system W w).Path Machine.anyStep s as t) : t.mFdWatchers.Quiet :=
  hpath.keeps (fun _ _ _ _ hstep h => quiet_step h hstep) hq

/-- In a run loopOnce calls registered watchers only, if and only if in every batch of the run each
event that it comes to belongs to a watcher which the callbacks of the events before have not
disturbed. -/
theorem batch_registered_iff {as : List (Action W)} (hinit : (system W w).initial s)
    (hpath : (system W w).Path Machine.anyStep s as s') :
    (system W w).Path callsRegistered s as s' ↔ BatchesUndisturbed s as := by
  obtain ⟨pipe, rfl⟩ := hinit
  constructor
  · intro h as₀ s₀ fds evs as₁ calls fd drained as₂ u readable rest heq hpath₀ hbatch hwalks
    subst heq
    obtain ⟨t₀, h₀, hrest⟩ := h.split
    obtain rfl := h₀.unique hpath₀
    cases hrest with
    | @cons _ t₁ _ _ _ _ hepoll hrest =>
      obtain ⟨t, hwalk, hlast⟩ := hrest.split
      have ht₁ := step_batch hepoll
      have ht := walks_path hwalks (by rw [ht₁, hbatch]) hwalk.any
      rw [ht₁, makes_point] at ht
      cases hlast with
      | cons hcalls _ _ =>
        have hheld : t.held u := hcalls u (by rw [ht]; rfl)
        rw [ht] at hheld
        exact (makes_held (quiet_path (quiet_start pipe) hpath₀)).mp hheld
  · intro h
    refine hpath.of_splits fun xs a ys t heq hxs u hcalled => ?_
    have hin := inBatch_path (s := State.start pipe) rfl hxs
    unfold State.called at hcalled
    split at hcalled
    · rename_i fd drained
      split at hcalled
      · rename_i v readable rest hpoint
        obtain rfl := Option.some.inj hcalled
        rw [hpoint] at hin
        obtain ⟨as₀, s₀, fds, evs, as₁, calls, rfl, hpath₀, hbatch, hwalks, ht⟩ := hin
        rw [ht]
        exact (makes_held (quiet_path (quiet_start pipe) hpath₀)).mpr
          (h as₀ s₀ fds evs as₁ calls fd drained ys v readable rest (by simp [heq]) hpath₀ hbatch
            hwalks)
      · cases hcalled
    · cases hcalled

/-- Watchers with the descriptors 3 and 4 are both reported; the first callback removes the
second watcher. -/
def removesLater : List (Action Bool) :=
  [.add (some true) 3 false, .add (some false) 4 false, .epoll (.events [(3, true), (4, true)]),
    .loop 3 .goesOn, .remove (some false) 4, .loop 3 .goesOn]

def secondRemoved : State Bool 32 :=
  (system Bool 32).after Machine.anyStep (State.start 7) removesLater

theorem removesLater_runs : ((system Bool 32).run Machine.anyStep (State.start 7)
    removesLater).isSome = true := by
  decide +kernel

theorem batch_registered_iff_removed :
    (system Bool 32).Path callsRegistered (State.start 7) removesLater secondRemoved ↔
      BatchesUndisturbed (State.start 7 : State Bool 32) removesLater :=
  batch_registered_iff ⟨7, rfl⟩ (Machine.path_after removesLater_runs)

/-- The removed watcher is the next one that loopOnce calls. -/
theorem calls_removed_watcher :
    ¬ ∀ s a s', (system Bool 32).Reachable Machine.anyStep s →
      (system Bool 32).step s a = some s' → callsRegistered s a := by
  intro h
  have hcall := h secondRemoved (.loop 4 .goesOn) _
    (Machine.reachable_after ⟨7, rfl⟩ removesLater_runs)
    (Machine.step_next (by decide +kernel)) false (by decide +kernel)
  have hout : secondRemoved.mFdWatchers.contains (some false) = false := by decide +kernel
  rw [State.held, hout] at hcall
  cases hcall

end CWrapper.FdWatcher
