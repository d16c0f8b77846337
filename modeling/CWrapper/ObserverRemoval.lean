import CWrapper.Sequences
import CWrapper.ObserverWakeup

/-!
What a caller of removeAndWait may rely on when it returns. After Removed no entry holds the
observer; after NotFound one may, with its removal pending and calls in flight.
-/
namespace CWrapper.ObserverList

open Chronicle SlotLife Transition

variable {O Th : Type} {N w : ℕ} {s s' : State O Th N w}

def InAction (s : State O Th N w) (o : O) : Prop :=
  ∃ (c : ℕ) (g : BitVec w) (bits : Fin N → Bool) (i : Fin N),
    s.calls[c]? = some (.notify g bits (.action i o))

/-- A removal of `o` is pending: its entry is flagged and still has calls in flight. -/
def RemovalPending (l : RawObserverList O N w) (o : O) : Prop :=
  ∃ i, l.mOccupiedBits i = true ∧ (l.mEntries i).observer = some o ∧
    (l.mEntries i).removed = true ∧ 0 < (l.mEntries i).activeCalls

def Absent (l : RawObserverList O N w) (o : O) : Prop := ∀ i, (l.mEntries i).observer ≠ some o

def Distinct (s : State O Th N w) : Prop :=
  ∀ i j o, (s.list.mEntries i).observer = some o → (s.list.mEntries j).observer = some o → i = j

theorem Holds.removed_of_not_active {i : Fin N} {σ : Slot O} {o : O} (h : Holds s i σ)
    (hobs : (s.list.mEntries i).observer = some o) (hi : ¬ s.list.IsActive o i) :
    s.list.mOccupiedBits i = true ∧ (s.list.mEntries i).removed = true := by
  have hbit : s.list.mOccupiedBits i = true := by
    rw [h.observer] at hobs
    rw [h.bit]
    cases σ with
    | free => simp [Slot.observer] at hobs
    | _ => rfl
  refine ⟨hbit, ?_⟩
  by_contra hremoved
  exact hi ⟨hbit, hobs, by simpa using hremoved⟩

/-- The actions in progress are the calls that the entries count. -/
theorem inAction_iff (h : Consistent s) (o : O) :
    InAction s o ↔ ∃ i, (s.list.mEntries i).observer = some o ∧
      0 < (s.list.mEntries i).activeCalls := by
  constructor
  · rintro ⟨c, g, bits, i, hc⟩
    obtain ⟨σ, hσ⟩ := h.slots i
    refine ⟨i, h.about c _ hc i (some o) rfl, ?_⟩
    rw [hσ.activeCalls]
    exact hσ.calls_pos hc (by simp [Call.actsOn])
  · rintro ⟨i, hobs, hpos⟩
    obtain ⟨σ, hσ⟩ := h.slots i
    rw [hσ.activeCalls, ← hσ.acting, List.countP_pos_iff] at hpos
    obtain ⟨call, hmem, hacts⟩ := hpos
    obtain ⟨c, hc⟩ := List.mem_iff_getElem?.mp hmem
    rcases call with ⟨g, bits, _ | ⟨j, x⟩ | _ | _⟩ | ⟨x, j, _ | _ | _⟩
    case notify.action =>
      obtain rfl : j = i := by simpa [Call.actsOn] using hacts
      have hx := h.about c _ hc j (some x) rfl
      obtain rfl : x = o := Option.some.inj (hx.symm.trans hobs)
      exact ⟨c, g, bits, j, hc⟩
    all_goals simp [Call.actsOn] at hacts

theorem Absent.not_inAction {o : O} (ho : Absent s.list o) (h : Consistent s) :
    ¬ InAction s o := by
  intro hact
  obtain ⟨i, hi, -⟩ := (inAction_iff h o).mp hact
  exact ho i hi

theorem put_observer_cases {l : RawObserverList O N w} {i j : Fin N} {τ : Slot O} {o : O}
    (h : ((l.put i τ).mEntries j).observer = some o) :
    (l.mEntries j).observer = some o ∨ (j = i ∧ τ.observer = some o) := by
  by_cases hj : j = i
  · subst hj
    exact Or.inr ⟨rfl, (put_observer l j τ).symm.trans h⟩
  · have hne : (l.put i τ).mEntries j = l.mEntries j := Function.update_of_ne hj ..
    exact Or.inl (hne ▸ h)

/-- Only a registration puts an observer into a slot. -/
theorem observer_step [DecidableEq Th] {a : Action O Th} (hm : Moves s a s') {j : Fin N} {o : O}
    (h : (s'.list.mEntries j).observer = some o) :
    (s.list.mEntries j).observer = some o ∨
      Absent s.list o ∧ s'.log = .added (s.adds + 1) o j :: s.log ∧
        ∀ i, (s'.list.mEntries i).observer = some o → i = j := by
  have hput {i : Fin N} {σ τ : Slot O} (hi : Holds s i σ)
      (h : ((s.list.put i τ).mEntries j).observer = some o)
      (hτ : τ.observer = some o → σ.observer = some o) :
      (s.list.mEntries j).observer = some o := by
    rcases put_observer_cases h with h | ⟨rfl, hnew⟩
    · exact h
    · exact hi.observer.trans (hτ hnew)
  cases hm with
  | @register th x i hi hnone =>
    rcases put_observer_cases h with h | ⟨rfl, hnew⟩
    · exact Or.inl h
    · obtain rfl := Option.some.inj hnew
      refine Or.inr ⟨hnone, rfl, fun k hk => ?_⟩
      exact ((put_observer_cases hk).resolve_left (hnone k)).1
  | unlist hi => exact Or.inl (hput hi h (by simp [Slot.observer]))
  | unlistAndReturn hi => exact Or.inl (hput hi h (by simp [Slot.observer]))
  | leave hi => exact Or.inl (hput hi h id)
  | await _ hi => exact Or.inl (hput hi h id)
  | borrow _ hi => exact Or.inl (hput hi h id)
  | @release _ _ _ _ _ _ _ σ _ hi hpos hx =>
    refine Or.inl (hput hi h ?_)
    intro hrel
    rcases (Slot.Step.release σ hpos).observer with hkept | hfree | hfree
    · exact hkept.symm.trans hrel
    · simp [hfree, Slot.observer] at hx
    · simp [hfree, Slot.observer] at hrel
  | retire _ hi => exact Or.inl (hput hi h (by simp [Slot.observer]))
  | _ => exact Or.inl h

/-- add() finds the entry of an observer, even a flagged one, and makes no second one. -/
theorem distinct_step [DecidableEq Th] {a : Action O Th} (h : Distinct s)
    (hm : Moves s a s') : Distinct s' := by
  intro i j o hi hj
  rcases observer_step hm hi with hi' | ⟨-, -, honly⟩
  · rcases observer_step hm hj with hj' | ⟨habs, -, -⟩
    · exact h i j o hi' hj'
    · exact absurd hi' (habs i)
  · exact (honly j hj).symm

theorem absent_put_free (h : Distinct s) {i : Fin N} {o : O}
    (hi : (s.list.mEntries i).observer = some o) : Absent (s.list.put i .free) o := by
  intro j hj
  rcases put_observer_cases hj with hj' | ⟨-, hfree⟩
  · obtain rfl := h i j o hi hj'
    rw [put_observer] at hj
    simp [Slot.observer] at hj
  · simp [Slot.observer] at hfree

/-- What a step writes: Removed when no entry holds the observer any more, and the start of
an action on an observer that an entry holds. -/
theorem log_step [DecidableEq Th] {a : Action O Th} (hd : Distinct s) (hm : Moves s a s')
    (o : O) : ∃ new, s'.log = new ++ s.log ∧
      (∀ th, .returned th (some o) .removed ∈ new →
        Absent s'.list o ∧ ∀ c r, .began c r o ∉ new) ∧
      ∀ c r, .began c r o ∈ new → ¬ Absent s.list o := by
  cases hm with
  | idle | skip | release | broadcast | recheck | spurious =>
    exact ⟨[], rfl, by simp, by simp⟩
  | register | unlist | leave | await | snapshot | refuse | finish =>
    exact ⟨[_], rfl, by simp, by simp⟩
  | refused hres =>
    refine ⟨[_], rfl, ?_, by simp⟩
    intro th hth
    simp only [List.mem_singleton, Event.returned.injEq] at hth
    exact absurd hth.2.2.symm hres
  | @unlistAndReturn th x i r hi =>
    refine ⟨[_, _], rfl, ?_, by simp⟩
    intro th' hth
    obtain ⟨-, rfl⟩ : th' = th ∧ o = x := by simpa using hth
    exact ⟨absent_put_free hd hi.observer, by simp⟩
  | @borrow _ _ _ _ _ i x _ _ _ hi =>
    refine ⟨[_, _], rfl, by simp, ?_⟩
    intro c r hr
    obtain ⟨-, -, rfl⟩ : _ ∧ _ ∧ o = x := by simpa using hr
    exact fun habs => habs i hi.observer
  | @retire th _ _ x i r _ hi =>
    refine ⟨[_], rfl, ?_, by simp⟩
    intro th' hth
    obtain ⟨-, rfl⟩ : th' = th ∧ o = x := by simpa using hth
    exact ⟨absent_put_free hd hi.observer, by simp⟩

/-- Since some removeAndWait(o) answered Removed, no add(o) has succeeded. -/
def StaysGone (s : State O Th N w) (o : O) : Prop :=
  ∀ later earlier th, s.log = later ++ .returned th (some o) .removed :: earlier →
    (∀ r i, .added r o i ∉ later) → Absent s.list o ∧ ∀ c r, .began c r o ∉ later

/-- What removeAndWait() has removed comes back by an add() only. -/
theorem gone_step [DecidableEq Th] {a : Action O Th} (hd : Distinct s) (hm : Moves s a s')
    {o : O} (h : StaysGone s o) : StaysGone s' o := by
  intro later earlier th hlog hadd
  obtain ⟨new, hnew, hreturned, hbegan⟩ := log_step hd hm o
  rcases append_eq_split (hnew.symm.trans hlog) with ⟨rest, rfl, hold⟩ | ⟨rest, rfl⟩
  · simp only [List.mem_append, not_or] at hadd
    obtain ⟨habs, hno⟩ := h rest earlier th hold fun r i => (hadd r i).2
    refine ⟨?_, ?_⟩
    · intro j hj
      rcases observer_step hm hj with hj' | ⟨-, hlog', -⟩
      · exact habs j hj'
      · rw [hnew] at hlog'
        have hone : new = [.added (s.adds + 1) o j] :=
          List.append_cancel_right (hlog' : new ++ s.log = [.added (s.adds + 1) o j] ++ s.log)
        exact (hadd (s.adds + 1) j).1 (by simp [hone])
    · intro c r hmem
      rcases List.mem_append.mp hmem with hmem | hmem
      · exact hbegan c r hmem habs
      · exact hno c r hmem
  · obtain ⟨habs, hno⟩ := hreturned th (by simp)
    exact ⟨habs, fun c r hmem => hno c r (List.mem_append_left _ hmem)⟩

section Reachable

variable [DecidableEq O] [DecidableEq Th]

/-- An observer has one entry at most, in every reachable state. -/
theorem distinct_reachable (hs : (system O Th N w).Reachable Machine.anyStep s) : Distinct s := by
  refine Machine.Invariant.reachable (J := Consistent) ⟨?_, ?_⟩
    (fun _ => consistent_reachable) hs
  · rintro _ rfl i j o hi
    simp [State.start, RawObserverList.empty, Entry.reset] at hi
  · intro s a s' _ hc hs h
    exact distinct_step h (step_moves hc hs)

/-- A call of removeAndWait(o), made outside any callback, answers NotFound. -/
structure AnswersNotFound (s : State O Th N w) (th : Th) (o : O) (s' : State O Th N w) :
    Prop where
  outside : s.stack th = []
  step : (system O Th N w).step s (.removeAndWait th (some o)) = some s'
  answer : s'.log = .returned th (some o) .notFound :: s.log

theorem AnswersNotFound.not_active {th : Th} {o : O} (h : AnswersNotFound s th o s')
    (hc : Consistent s) : s'.calls = s.calls ∧ ∀ i, ¬ s.list.IsActive o i := by
  have hlog := h.answer
  generalize ha : Action.removeAndWait th (some o) = a at *
  cases step_moves hc (ha ▸ h.step) with
  | idle => simp at hlog
  | refused _ hnone =>
    obtain ⟨-, rfl⟩ := Action.removeAndWait.inj ha
    exact ⟨rfl, fun i => hnone o i rfl⟩
  | unlistAndReturn => simp [State.note] at hlog
  | await => simp [State.note] at hlog
  | _ => simp at ha

/-- NotFound is a safe answer unless the removal of `o` is pending with calls in flight. -/
theorem notFound_safe_iff (hs : (system O Th N w).Reachable Machine.anyStep s) {th : Th} {o : O}
    (h : AnswersNotFound s th o s') : ¬ InAction s' o ↔ ¬ RemovalPending s.list o := by
  have hc := consistent_reachable hs
  obtain ⟨hcalls, hnone⟩ := h.not_active hc
  have hsame : InAction s' o ↔ InAction s o := by simp only [InAction, hcalls]
  rw [hsame, inAction_iff hc, not_iff_not]
  constructor
  · rintro ⟨i, hobs, hpos⟩
    obtain ⟨σ, hσ⟩ := hc.slots i
    obtain ⟨hbit, hremoved⟩ := hσ.removed_of_not_active hobs (hnone i)
    exact ⟨i, hbit, hobs, hremoved, hpos⟩
  · rintro ⟨i, -, hobs, -, hpos⟩
    exact ⟨i, hobs, hpos⟩

theorem staysGone_reachable (hs : (system O Th N w).Reachable Machine.anyStep s) (o : O) :
    StaysGone s o := by
  refine Machine.Invariant.reachable (J := fun s => Consistent s ∧ Distinct s)
    (I := fun s => StaysGone s o) ⟨?_, ?_⟩
    (fun _ h => ⟨consistent_reachable h, distinct_reachable h⟩) hs
  · rintro _ rfl later earlier th hlog
    simp [State.start] at hlog
  · intro s a s' _ hJ hs h
    exact gone_step hJ.2 (step_moves hJ.1 hs) h

/-- Once removeAndWait(o) has answered Removed no notify is in an action on `o` or begins one
until `o` is added again, and a remover whose slot has no calls left is about to be woken. -/
theorem removal_final (hs : (system O Th N w).Reachable Machine.anyStep s) :
    (∀ o later earlier th, s.log = later ++ .returned th (some o) .removed :: earlier →
      (∀ r i, .added r o i ∉ later) → ¬ InAction s o ∧ ∀ c r, .began c r o ∉ later) ∧
    ∀ (c : ℕ) (o : Option O) (i : Fin N),
      s.calls[c]? = some (.removeAndWait o i .blocked) → (s.list.mEntries i).activeCalls = 0 →
      ∃ th s', AboutToBroadcast s th ∧ step s (.resume th) = some s' ∧
        s'.calls[c]? = some (.removeAndWait o i .woken) := by
  refine ⟨?_, ?_⟩
  · intro o later earlier th hlog hadd
    obtain ⟨habs, hno⟩ := staysGone_reachable hs o later earlier th hlog hadd
    exact ⟨habs.not_inAction (consistent_reachable hs), hno⟩
  · intro c o i hc hzero
    obtain ⟨d, g, bits, j, hd⟩ := wakeupDue_reachable hs c o i hc hzero
    obtain ⟨th, rest, hstack⟩ := broadcastsNext_reachable hs d g bits j hd
    have hnext : AboutToBroadcast s th :=
      ⟨d, rest, g, bits, j, by simp [State.current, hstack, hd]⟩
    obtain ⟨s', hstep, hwoken⟩ := hnext.wakes hc
    exact ⟨th, s', hnext, hstep, hwoken⟩

end Reachable

section Runs

/-- One notify is inside its action on the observer that another thread has removed. -/
def removedInAction : State Unit Bool 1 8 :=
  (system Unit Bool 1 8).after Machine.anyStep State.start
    [.add false (some ()), .notify false, .resume false, .remove true (some ())]

/-- The same with removeAndWait in the place of remove, and with the action over. -/
def drained : State Unit Bool 1 8 :=
  (system Unit Bool 1 8).after Machine.anyStep State.start
    [.add false (some ()), .notify false, .resume false, .removeAndWait true (some ()),
      .resume false]

/-- A slot of the snapshot is given to another observer before the call reaches it. -/
def refilled : State Bool Bool 1 8 :=
  (system Bool Bool 1 8).after Machine.anyStep State.start
    [.add false (some true), .notify false, .removeAndWait true (some true),
      .add true (some false), .resume false]

def removeAgain (s : State Unit Bool 1 8) : State Unit Bool 1 8 :=
  (system Unit Bool 1 8).next s (.removeAndWait true (some ()))

theorem removeAgain_answers (s : State Unit Bool 1 8)
    (hout : s.stack true = [])
    (hstep : ((system Unit Bool 1 8).step s (.removeAndWait true (some ()))).isSome = true)
    (hlog : (removeAgain s).log = .returned true (some ()) .notFound :: s.log) :
    AnswersNotFound s true () (removeAgain s) :=
  ⟨hout, Machine.step_next hstep, hlog⟩

theorem notFound_safe_iff_removed :
    ¬ InAction (removeAgain removedInAction) () ↔ ¬ RemovalPending removedInAction.list () :=
  notFound_safe_iff (Machine.reachable_after initial_start (by decide +kernel))
    (removeAgain_answers _ (by decide +kernel) (by decide +kernel) (by decide +kernel))

/-- The second removeAndWait() answers NotFound, while the notify of another thread is inside its
action. -/
theorem notFound_in_action :
    ¬ ∀ (s s' : State Unit Bool 1 8) (th : Bool) (o : Unit),
      (system Unit Bool 1 8).Reachable Machine.anyStep s → AnswersNotFound s th o s' →
        ¬ InAction s' o := by
  intro h
  have hs : (system Unit Bool 1 8).Reachable Machine.anyStep removedInAction :=
    Machine.reachable_after initial_start (by decide +kernel)
  have hanswer := removeAgain_answers removedInAction (by decide +kernel) (by decide +kernel)
    (by decide +kernel)
  have hpending : InAction (removeAgain removedInAction) () :=
    (inAction_iff (consistent_reachable (hs.step trivial hanswer.step)) ()).mpr
      ⟨0, by decide +kernel, by decide +kernel⟩
  exact h _ _ true () hs hanswer hpending

/-- What has happened to `refilled` since removeAndWait answered. -/
def sinceRemoval : List (Event Bool Bool 1) := [.reached 0 0, .added 2 false 0]

theorem removal_final_refilled :
    (¬ InAction refilled true ∧ ∀ c r, .began c r true ∉ sinceRemoval) ∧
    ∃ th s', AboutToBroadcast drained th ∧ step drained (.resume th) = some s' ∧
      s'.calls[1]? = some (.removeAndWait (some ()) 0 .woken) :=
  ⟨(removal_final (Machine.reachable_after initial_start (by decide +kernel))).1 true
      sinceRemoval (refilled.log.drop 3) true (by decide +kernel) (by simp [sinceRemoval]),
    (removal_final (Machine.reachable_after initial_start (by decide +kernel))).2 1 (some ()) 0
      (by rfl) (by decide +kernel)⟩

end Runs

end CWrapper.ObserverList
