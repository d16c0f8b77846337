import CWrapper.SyncQueueThreads

/-!
The specification of putForce, with the answer as a parameter: what the function does to the queue
is one thing, and what it returns another. When it has put its item it runs off its end.
-/
namespace CWrapper.SyncQueue

open Transition

variable {T Th : Type} {Capacity : ℕ+}

def othersStep (th : Th) (_ : State T Th Capacity) (a : Action T Th) : Prop :=
  ∀ choice, a ≠ .resume th choice

section Specification

theorem isFull_iff {s : State T Th Capacity} (hl : Lawful s) :
    s.mQueue.isFull = true ↔ s.mQueue.contents.length = Capacity := by
  have hle := hl.ring.size_le
  simp only [CircularQueue.isFull, CircularQueue.length_contents, ge_iff_le, decide_eq_true_eq]
  omega

variable [DecidableEq Th] [Inhabited T] {moved : T → T}

/-- A section of putForce(t) from `s` to `s'` evicts the item at the head of the full queue, and
the call disposes of it in a later step, which steps of other threads may precede. -/
def Evicts (moved : T → T) (s : State T Th Capacity) (th : Th) (t : T) (answer : Option Bool)
    (s' : State T Th Capacity) : Prop :=
  ∃ head tail k, s.mQueue.contents = head :: tail ∧ s'.mQueue.contents = tail ++ [t] ∧
    s'.removed = s.removed ++ [(.evicted, head)] ∧ s'.disposed = s.disposed ∧
    s'.returned = s.returned ∧
    ∀ as s₁, (system T Th Capacity moved).Path (othersStep th) s' as s₁ →
      k ∉ s₁.disposed.map Prod.fst ∧
      ∀ choice, ∃ s₂, (system T Th Capacity moved).step s₁ (.resume th choice) = some s₂ ∧
        s₂.mQueue = s₁.mQueue ∧ s₂.disposed = s₁.disposed ++ [(k, head)] ∧
          s₂.thread th = .idle ∧ s₂.returned = s₁.returned ++ [(th, .putForce answer)]

/-- putForce(t) of `th` has its section from `s` to `s'`, and answers `answer` when it has put
the item. -/
structure PutForceSpec (moved : T → T) (s : State T Th Capacity) (th : Th) (t : T)
    (answer : Option Bool) (s' : State T Th Capacity) : Prop where
  closed : s.mEOS = true →
    s'.mQueue.contents = s.mQueue.contents ∧ s'.removed = s.removed ∧
      s'.disposed = s.disposed ∧ s'.thread th = .idle ∧
      s'.returned = s.returned ++ [(th, .putForce (some false))]
  room : s.mEOS = false → s.mQueue.contents.length < Capacity →
    s'.mQueue.contents = s.mQueue.contents ++ [t] ∧ s'.removed = s.removed ∧
      s'.disposed = s.disposed ∧ s'.thread th = .idle ∧
      s'.returned = s.returned ++ [(th, .putForce answer)]
  full : s.mEOS = false → s.mQueue.contents.length = Capacity → Evicts moved s th t answer s'

variable {s s' : State T Th Capacity} {th : Th} {t : T} {choice : ℕ}

/-- The three ways through the section of putForce. -/
theorem putForce_cases (hth : s.thread th = .putForce t)
    (hstep : (system T Th Capacity moved).step s (.resume th choice) = some s') :
    (s.mEOS = true ∧ s' = s.return th (.putForce (some false))) ∨
    (s.mEOS = false ∧ s.mQueue.isFull = false ∧
      s' = ((s.enqueue moved t).signalEmpty choice).return th (.putForce none)) ∨
    (s.mEOS = false ∧ s.mQueue.isFull = true ∧
      s' = (((s.dequeue moved (some default) .evicted).enqueue moved t).signalEmpty choice).goto
        th (.putForceDispose s.removed.length s.front)) := by
  have hsection : putForceSection moved s th t choice = some s' := by
    have hthread : threadStep moved s th choice = some s' := hstep
    rwa [threadStep, hth] at hthread
  unfold putForceSection at hsection
  split at hsection
  · rename_i heos
    exact Or.inl ⟨heos, (Option.some.inj hsection).symm⟩
  · rename_i heos
    rw [Bool.not_eq_true] at heos
    obtain ⟨-, hsection⟩ := Option.ite_none_right_eq_some.mp hsection
    split at hsection
    · rename_i hfull
      rw [get_target (isEmpty_of_isFull hfull)] at hsection
      exact Or.inr (Or.inr ⟨heos, hfull, (Option.some.inj hsection).symm⟩)
    · rename_i hfull
      exact Or.inr (Or.inl ⟨heos, by simpa using hfull, (Option.some.inj hsection).symm⟩)

/-- Until it disposes of the item that it evicted, putForce keeps it, whatever others do. -/
theorem evicted_kept (hs : (system T Th Capacity moved).Reachable Machine.anyStep s) {k : ℕ}
    {d : T} (hth : s.thread th = .putForceDispose k d) {as : List (Action T Th)}
    (h : (system T Th Capacity moved).Path (othersStep th) s as s') :
    (system T Th Capacity moved).Reachable Machine.anyStep s' ∧
      s'.thread th = .putForceDispose k d := by
  refine h.keeps (I := fun s => (system T Th Capacity moved).Reachable Machine.anyStep s ∧
    s.thread th = .putForceDispose k d) (fun s a s' hother hstep hi => ?_) ⟨hs, hth⟩
  obtain ⟨hs, hth⟩ := hi
  have hkept := (step_moves hstep).kept (u := th) (by simp [hth])
    (fun timedOut => by simp [hth, ThreadPoint.wake]) hother
  exact ⟨hs.step trivial hstep, hkept.trans hth⟩

/-- An item that waits for its dispose has not been disposed of. -/
theorem pending_fresh (hs : (system T Th Capacity moved).Reachable Machine.anyStep s) {k : ℕ}
    {d : T} (hth : s.thread th = .putForceDispose k d) : k ∉ s.disposed.map Prod.fst :=
  ((lawful_reachable hs).disposals.held th k d (by rw [hth]; rfl)).2

theorem putForce_evicts (hs : (system T Th Capacity moved).Reachable Machine.anyStep s)
    (hstep : (system T Th Capacity moved).step s (.resume th choice) = some s')
    (hfull : s.mQueue.isFull = true)
    (hs' : s' = (((s.dequeue moved (some default) .evicted).enqueue moved t).signalEmpty
      choice).goto th (.putForceDispose s.removed.length s.front)) :
    Evicts moved s th t none s' := by
  have hl := lawful_reachable hs
  have hempty := isEmpty_of_isFull hfull
  have hthread : s'.thread th = .putForceDispose s.removed.length s.front := by
    rw [hs']
    exact Function.update_self ..
  have hreach : (system T Th Capacity moved).Reachable Machine.anyStep s' := hs.step trivial hstep
  have hcons : s.mQueue.contents = s.front :: s.mQueue.contents.tail :=
    CircularQueue.contents_cons hempty
  refine ⟨s.front, s.mQueue.contents.tail, s.removed.length, hcons, ?_, ?_, ?_, ?_,
    fun as s₁ hpath => ?_⟩
  · have hroom := dequeue_not_full hl moved hempty (some default) .evicted
    have hring := (hl.got moved hempty (some default)).ring
    have hput := CircularQueue.put_contents (assign moved) t hring hroom
    have hget := CircularQueue.get_contents (assign moved) (some default) hl.ring hempty
    rw [hs']
    show (State.signalEmpty _ choice).mQueue.contents = _
    rw [signalEmpty_same.1]
    exact hput.trans (congrArg (· ++ [t]) hget)
  · rw [hs']
    exact signalEmpty_same.2.2.1
  · rw [hs']
    exact signalEmpty_same.2.2.2.1
  · rw [hs']
    show (State.signalEmpty _ choice).returned = _
    unfold State.signalEmpty
    split <;> rfl
  · obtain ⟨hreach', hheld⟩ := evicted_kept hreach hthread hpath
    refine ⟨pending_fresh hreach' hheld, fun choice => ?_⟩
    refine ⟨(s₁.dispose s.removed.length s.front).return th (.putForce none), ?_, rfl, rfl,
      Function.update_self .., rfl⟩
    show threadStep moved s₁ th choice = _
    rw [threadStep, hheld]

/-- putForce keeps to its specification but for the answer. -/
theorem putForce_meets (hs : (system T Th Capacity moved).Reachable Machine.anyStep s)
    (hth : s.thread th = .putForce t)
    (hstep : (system T Th Capacity moved).step s (.resume th choice) = some s') :
    PutForceSpec moved s th t none s' := by
  have hl := lawful_reachable hs
  rcases putForce_cases hth hstep with ⟨heos, rfl⟩ | ⟨heos, hfull, rfl⟩ | ⟨heos, hfull, hs'⟩
  · exact
      { closed := fun _ => ⟨rfl, rfl, rfl, Function.update_self .., rfl⟩
        room := fun hopen => by simp [heos] at hopen
        full := fun hopen => by simp [heos] at hopen }
  · have hnot : s.mQueue.contents.length ≠ Capacity := by
      rw [ne_eq, ← isFull_iff hl, hfull]
      simp
    refine ⟨fun hclosed => by simp [heos] at hclosed, fun _ _ => ?_, fun _ h => absurd h hnot⟩
    have hput := CircularQueue.put_contents (assign moved) t hl.ring hfull
    refine ⟨?_, signalEmpty_same.2.2.1, signalEmpty_same.2.2.2.1, Function.update_self .., ?_⟩
    · show (State.signalEmpty _ choice).mQueue.contents = _
      rw [signalEmpty_same.1]
      exact hput
    · show (State.signalEmpty _ choice).returned ++ _ = _
      unfold State.signalEmpty
      split <;> rfl
  · refine ⟨fun hclosed => by simp [heos] at hclosed, fun _ hroom => ?_,
      fun _ _ => putForce_evicts hs hstep hfull hs'⟩
    rw [isFull_iff hl] at hfull
    omega

/-- putForce returns true for no item that it has put: it meets its specification if and only if
mEOS is set. The rest of the specification it meets always. -/
theorem putForce_meets_iff (hs : (system T Th Capacity moved).Reachable Machine.anyStep s)
    (hth : s.thread th = .putForce t)
    (hstep : (system T Th Capacity moved).step s (.resume th choice) = some s') :
    (PutForceSpec moved s th t (some true) s' ↔ s.mEOS = true) ∧
      PutForceSpec moved s th t none s' := by
  have hmeets := putForce_meets hs hth hstep
  refine ⟨⟨fun h => ?_, fun heos => ?_⟩, hmeets⟩
  · by_contra hopen
    rw [Bool.not_eq_true] at hopen
    have hle := (lawful_reachable hs).ring.size_le
    rw [← CircularQueue.length_contents] at hle
    rcases hle.lt_or_eq with hroom | hfull
    · obtain ⟨-, -, -, -, htrue⟩ := h.room hopen hroom
      obtain ⟨-, -, -, -, hnone⟩ := hmeets.room hopen hroom
      exact returned_ne (by simp) (hnone.symm.trans htrue)
    · obtain ⟨_, _, _, -, -, -, -, -, htrue⟩ := h.full hopen hfull
      obtain ⟨_, _, _, -, -, -, -, -, hnone⟩ := hmeets.full hopen hfull
      obtain ⟨s₂, hstep₂, -, -, -, htrue⟩ := (htrue [] s' (.nil s')).2 0
      obtain ⟨s₃, hstep₃, -, -, -, hnone⟩ := (hnone [] s' (.nil s')).2 0
      obtain rfl := Option.some.inj (hstep₂.symm.trans hstep₃)
      exact returned_ne (by simp) (hnone.symm.trans htrue)
  · exact ⟨hmeets.closed, fun hopen => by simp [heos] at hopen,
      fun hopen => by simp [heos] at hopen⟩

end Specification

section Runs

/-- putForce(1) is about to take the lock of an empty queue. -/
def forcing : State ℕ Bool oneCell :=
  (system ℕ Bool oneCell id).after Machine.anyStep (State.start 0) [.putForce false 1]

def forced : State ℕ Bool oneCell := (system ℕ Bool oneCell id).next forcing (.resume false 0)

theorem forcing_reachable : (system ℕ Bool oneCell id).Reachable Machine.anyStep forcing :=
  Machine.reachable_after initial_start (by decide +kernel)

theorem forcing_step : (system ℕ Bool oneCell id).step forcing (.resume false 0) = some forced :=
  Machine.step_next (by decide +kernel)

theorem putForce_meets_iff_room :
    (PutForceSpec id forcing false 1 (some true) forced ↔ forcing.mEOS = true) ∧
      PutForceSpec id forcing false 1 none forced :=
  putForce_meets_iff forcing_reachable (by decide +kernel) forcing_step

/-- An item has been put, and the call has no answer. -/
theorem putForce_without_answer :
    ¬ ∀ (s s' : State ℕ Bool oneCell) (th : Bool) (t choice : ℕ),
      (system ℕ Bool oneCell id).Reachable Machine.anyStep s → s.thread th = .putForce t →
      (system ℕ Bool oneCell id).step s (.resume th choice) = some s' →
      PutForceSpec id s th t (some true) s' := by
  intro h
  have hspec := h forcing forced false 1 0 forcing_reachable (by decide +kernel) forcing_step
  obtain ⟨-, -, -, -, htrue⟩ := hspec.room (by decide +kernel) (by decide +kernel)
  have hnone : forced.returned = forcing.returned ++ [(false, .putForce Option.none)] := by
    decide +kernel
  exact returned_ne (by simp) (hnone.symm.trans htrue)

end Runs

end CWrapper.SyncQueue
