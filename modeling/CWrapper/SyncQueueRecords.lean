import CWrapper.SyncQueueSteps

/-!
What each section of a call writes into the history of the queue: the items it puts in and takes
out, those it passes to dispose, and the answer with which the call returns.
-/
namespace CWrapper.SyncQueue

variable {T Th : Type} {Capacity : ℕ+}

structure Grown (s s' : State T Th Capacity) (puts : List T) (takes : List (Removal × T))
    (disposals : List (ℕ × T)) (answers : List (Th × Returned T)) : Prop where
  enqueued : s'.enqueued = s.enqueued ++ puts
  removed : s'.removed = s.removed ++ takes
  disposed : s'.disposed = s.disposed ++ disposals
  returned : s'.returned = s.returned ++ answers

/-- The entries of a section, by the call that the thread is in. A put or get that does not return
waits. -/
def SectionRecords (s : State T Th Capacity) (th : Th) (s' : State T Th Capacity) :
    ThreadPoint T → Prop
  | .put t _ _ =>
      Grown s s' [t] [] [] [(th, .put true)] ∨ Grown s s' [] [] [] [(th, .put false)] ∨
        Grown s s' [] [] [] [] ∧ s'.thread th ≠ .idle
  | .get t _ _ =>
      (∃ x, Grown s s' [] [(.got, x)] [] [(th, .get true (t.map fun _ => x))]) ∨
        Grown s s' [] [] [] [(th, .get false t)] ∨
        Grown s s' [] [] [] [] ∧ s'.thread th ≠ .idle
  | .putForce t =>
      if s.mEOS then Grown s s' [] [] [] [(th, .putForce (some false))]
      else Grown s s' [t] [] [] [(th, .putForce none)] ∨
        ∃ x, Grown s s' [t] [(.evicted, x)] [] [] ∧
          s'.thread th = .putForceDispose s.removed.length x
  | .putForceDispose k d => Grown s s' [] [] [(k, d)] [(th, .putForce none)]
  | .flush _ =>
      Grown s s' [] [] [] [] ∨
        ∃ x, Grown s s' [] [(.flushed, x)] [] [] ∧
          s'.thread th = .flushDispose s.removed.length x
  | .flushDispose k d => Grown s s' [] [] [(k, d)] []
  | .flushBroadcast => Grown s s' [] [] [] [(th, .flush)]
  | .broadcastEmpty => Grown s s' [] [] [] [(th, .setEOS)]
  | .idle | .setEOS _ | .broadcastFull => Grown s s' [] [] [] []

/-- Only the sections write into the history. -/
def Records (s : State T Th Capacity) (a : Action T Th) (s' : State T Th Capacity) : Prop :=
  match a with
  | .resume th _ => SectionRecords s th s' (s.thread th)
  | _ => Grown s s' [] [] [] []

variable {s s' : State T Th Capacity} {th : Th} {choice : ℕ} {puts : List T}
  {takes : List (Removal × T)} {disposals : List (ℕ × T)} {answers : List (Th × Returned T)}

theorem Grown.none (henq : s'.enqueued = s.enqueued) (hrem : s'.removed = s.removed)
    (hdis : s'.disposed = s.disposed) (hret : s'.returned = s.returned) :
    Grown s s' [] [] [] [] :=
  ⟨by rw [henq, List.append_nil], by rw [hrem, List.append_nil], by rw [hdis, List.append_nil],
    by rw [hret, List.append_nil]⟩

variable {moved : T → T}

theorem grown_enqueue (s : State T Th Capacity) (t : T) :
    Grown s (s.enqueue moved t) [t] [] [] [] :=
  ⟨rfl, (List.append_nil _).symm, (List.append_nil _).symm, (List.append_nil _).symm⟩

theorem grown_dequeue (s : State T Th Capacity) (t : Option T) (why : Removal) :
    Grown s (s.dequeue moved t why) [] [(why, s.front)] [] [] :=
  ⟨(List.append_nil _).symm, rfl, (List.append_nil _).symm, (List.append_nil _).symm⟩

theorem grown_dispose (s : State T Th Capacity) (k : ℕ) (d : T) :
    Grown s (s.dispose k d) [] [] [(k, d)] [] :=
  ⟨(List.append_nil _).symm, (List.append_nil _).symm, rfl, (List.append_nil _).symm⟩

/-- An evicting putForce writes both: the item it takes out and the one it puts in. -/
theorem grown_evict [Inhabited T] (s : State T Th Capacity) (t : T) :
    Grown s ((s.dequeue moved (some default) .evicted).enqueue moved t) [t] [(.evicted, s.front)]
      [] [] :=
  ⟨rfl, rfl, (List.append_nil _).symm, (List.append_nil _).symm⟩

/-- What a section writes into the history goes by the call that its thread is in. -/
theorem records_section {p : ThreadPoint T} (hth : s.thread th = p)
    (h : SectionRecords s th s' p) : Records s (.resume th choice) s' := by
  subst hth
  exact h

/-- A step without a section writes nothing. -/
theorem records_other {a : Action T Th} (hother : ∀ u choice, a ≠ .resume u choice)
    (h : Grown s s' [] [] [] []) : Records s a s' := by
  cases a with
  | resume u choice => exact absurd rfl (hother u choice)
  | _ => exact h

variable [DecidableEq Th]

theorem signalEmpty_same : (s.signalEmpty choice).mQueue = s.mQueue ∧
    (s.signalEmpty choice).enqueued = s.enqueued ∧ (s.signalEmpty choice).removed = s.removed ∧
    (s.signalEmpty choice).disposed = s.disposed ∧ (s.signalEmpty choice).mEOS = s.mEOS ∧
    (s.signalEmpty choice).mCvFull = s.mCvFull := by
  unfold State.signalEmpty
  split <;> exact ⟨rfl, rfl, rfl, rfl, rfl, rfl⟩

theorem signalFull_same : (s.signalFull choice).mQueue = s.mQueue ∧
    (s.signalFull choice).enqueued = s.enqueued ∧ (s.signalFull choice).removed = s.removed ∧
    (s.signalFull choice).disposed = s.disposed ∧ (s.signalFull choice).mEOS = s.mEOS ∧
    (s.signalFull choice).mCvEmpty = s.mCvEmpty := by
  unfold State.signalFull
  split <;> exact ⟨rfl, rfl, rfl, rfl, rfl, rfl⟩

theorem signalEmpty_returned : (s.signalEmpty choice).returned = s.returned := by
  unfold State.signalEmpty
  split <;> rfl

theorem signalFull_returned : (s.signalFull choice).returned = s.returned := by
  unfold State.signalFull
  split <;> rfl

theorem Grown.goto (h : Grown s s' puts takes disposals answers) {p : ThreadPoint T} :
    Grown s (s'.goto th p) puts takes disposals answers :=
  ⟨h.enqueued, h.removed, h.disposed, h.returned⟩

theorem Grown.return (h : Grown s s' puts takes disposals []) (r : Returned T) :
    Grown s (s'.return th r) puts takes disposals [(th, r)] :=
  ⟨h.enqueued, h.removed, h.disposed, by rw [State.return, h.returned, List.append_nil]⟩

theorem Grown.signalEmpty (h : Grown s s' puts takes disposals answers) :
    Grown s (s'.signalEmpty choice) puts takes disposals answers :=
  ⟨signalEmpty_same.2.1.trans h.enqueued, signalEmpty_same.2.2.1.trans h.removed,
    signalEmpty_same.2.2.2.1.trans h.disposed, signalEmpty_returned.trans h.returned⟩

theorem Grown.signalFull (h : Grown s s' puts takes disposals answers) :
    Grown s (s'.signalFull choice) puts takes disposals answers :=
  ⟨signalFull_same.2.1.trans h.enqueued, signalFull_same.2.2.1.trans h.removed,
    signalFull_same.2.2.2.1.trans h.disposed, signalFull_returned.trans h.returned⟩

variable [Inhabited T]

/-- Every step writes into the history what the section it runs has done. -/
theorem Moves.records {a : Action T Th} (hm : Moves moved s a s') : Records s a s' := by
  have hsame : Grown s s [] [] [] [] := .none rfl rfl rfl rfl
  cases hm with
  | tick => exact .none rfl rfl rfl rfl
  | call _ _ hother => exact records_other hother (.none rfl rfl rfl rfl)
  | putLeave _ hother | getLeave _ hother => exact records_other hother (.none rfl rfl rfl rfl)
  | putFail hth | getFail hth => exact records_section hth (Or.inr (Or.inl (hsame.return _)))
  | putBlock hth | getBlock hth =>
    refine records_section hth (Or.inr (Or.inr ⟨.none rfl rfl rfl rfl, ?_⟩))
    simp [State.goto]
  | put hth => exact records_section hth (Or.inl ((grown_enqueue s _).signalEmpty.return _))
  | get hth =>
    exact records_section hth (Or.inl ⟨s.front, (grown_dequeue s _ .got).signalFull.return _⟩)
  | putForceFail hth heos => exact records_section hth ((if_pos heos).mpr (hsame.return _))
  | putForce hth _ heos =>
    refine records_section hth ((if_neg (by simp [heos])).mpr (Or.inl ?_))
    exact (grown_enqueue s _).signalEmpty.return _
  | @evict th choice t hth _ heos =>
    refine records_section hth ((if_neg (by simp [heos])).mpr (Or.inr ⟨s.front, ?_, ?_⟩))
    · exact ((grown_evict s t).signalEmpty).goto
    · exact Function.update_self ..
  | putForceDispose hth => exact records_section hth ((grown_dispose s _ _).return _)
  | flushEnd hth => exact records_section hth (Or.inl hsame.goto)
  | flushItem hth =>
    refine records_section hth (Or.inr ⟨s.front, ?_, Function.update_self ..⟩)
    exact (grown_dequeue s _ .flushed).goto
  | flushDispose hth => exact records_section hth (grown_dispose s _ _).goto
  | flushBroadcast hth =>
    have hwake : Grown s { s with mCvFull := [], thread := wakeAll s.mCvFull s.thread }
        [] [] [] [] := .none rfl rfl rfl rfl
    exact records_section hth (hwake.return _)
  | broadcastEmpty hth =>
    have hwake : Grown s { s with mCvEmpty := [], thread := wakeAll s.mCvEmpty s.thread }
        [] [] [] [] := .none rfl rfl rfl rfl
    exact records_section hth (hwake.return _)
  | storeEOS hth | broadcastFull hth => exact records_section hth (.none rfl rfl rfl rfl)

end CWrapper.SyncQueue
