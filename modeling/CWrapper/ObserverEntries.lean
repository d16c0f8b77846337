import CWrapper.ObserverMoves

/-!
The invariants of the entries. Every step takes at most one step in the life of each slot,
so the entries of a reachable list show slots whose counts are those of the calls in flight;
no observer is in two slots; and a remover that waits for no call is about to be woken.
-/
namespace CWrapper.ObserverList

open SlotLife Transition

variable {O Th : Type} {N w : ℕ}

section Slots

variable {s s' : State O Th N w} {i j : Fin N} {σ τ : Slot O}

theorem holds_put (τ : Slot O) (hact : s.calls.countP (Call.actsOn i) = τ.calls)
    (hwait : s.calls.countP (Call.waitsOn i) = τ.waiters)
    (hreg : ∀ r ∈ τ.registration, s.registration i = r) : Holds (s.put i τ) i τ :=
  ⟨RawObserverList.Shows.put_self, hact, hwait, hreg⟩

theorem holds_register {o : O} (h : Holds s i .free) :
    Holds (s.register i o) i (.listed o (s.adds + 1) 0) where
  entry := Function.update_self ..
  bit := Function.update_self ..
  acting := h.acting
  waiting := h.waiting
  registration _ hr := (Function.update_self ..).trans (Option.some.inj hr)

theorem Holds.register_of_ne {o : O} (h : Holds s j σ) (hj : j ≠ i) :
    Holds (s.register i o) j σ where
  entry := (Function.update_of_ne hj ..).trans h.entry
  bit := (Function.update_of_ne hj ..).trans h.bit
  acting := h.acting
  waiting := h.waiting
  registration r hr := (Function.update_of_ne hj ..).trans (h.registration r hr)

theorem Holds.wake (h : Holds s j σ) : Holds { s with calls := s.calls.map Call.wake } j σ := by
  refine h.of_calls rfl rfl ?_ ?_
  · rw [List.countP_map]
    refine List.countP_congr fun call _ => ?_
    rcases call with ⟨_, _, _⟩ | ⟨_, _, _ | _ | _⟩ <;> rfl
  · rw [List.countP_map]
    refine List.countP_congr fun call _ => ?_
    rcases call with ⟨_, _, _⟩ | ⟨_, _, _ | _ | _⟩ <;> rfl

/-- Slot `i` is replaced while one call takes it or gives it back. -/
theorem holds_put_goto (h : Holds s i σ) {c : ℕ} {call : Call O N w}
    (hc : s.calls[c]? = some call) (τ : Slot O) (call' : Call O N w)
    (hact : σ.calls + (call'.actsOn i).toNat = τ.calls + (call.actsOn i).toNat)
    (hwait : σ.waiters + (call'.waitsOn i).toNat = τ.waiters + (call.waitsOn i).toNat)
    (hreg : ∀ r ∈ τ.registration, σ.registration = some r) :
    Holds ((s.put i τ).goto c call') i τ := by
  refine ⟨RawObserverList.Shows.put_self, ?_, ?_, fun r hr => h.registration r (hreg r hr)⟩
  · have hcount := countP_set_add (Call.actsOn i) call' hc
    rw [h.acting, hact] at hcount
    exact Nat.add_right_cancel hcount
  · have hcount := countP_set_add (Call.waitsOn i) call' hc
    rw [h.waiting, hwait] at hcount
    exact Nat.add_right_cancel hcount

/-- One step in the life of slot `i`, by which the other slots are left alone. -/
structure Changes (s s' : State O Th N w) (i : Fin N) (σ : Slot O) (note : Option (Note O))
    (τ : Slot O) : Prop where
  before : Holds s i σ
  step : σ.Step note τ
  after : Holds s' i τ
  others : ∀ j ρ, j ≠ i → Holds s j ρ → Holds s' j ρ

/-- The new entries of the log tell nothing of registrations. -/
def Silent (s s' : State O Th N w) (new : List (Event O Th N)) : Prop :=
  s'.adds = s.adds ∧ (∀ r o j, .added r o j ∉ new) ∧ ∀ r, .flagged r ∉ new

/-- The new entries of the log tell of registrations what a step of slot `i` does. -/
def Tells (s s' : State O Th N w) (i : Fin N) (new : List (Event O Th N)) :
    Option (Note O) → Prop
  | none => Silent s s' new
  | some (.registered o r) => s'.adds = s.adds + 1 ∧ r = s.adds + 1 ∧ new = [.added r o i]
  | some (.unlisted r) => s'.adds = s.adds ∧ (∀ r o j, .added r o j ∉ new) ∧
      ∀ r', .flagged r' ∈ new ↔ r' = r

theorem borrow_actsOn {i j : Fin N} (hj : j ≠ i) (g : BitVec w) (bits : Fin N → Bool) (o : O) :
    (Call.notify g bits (.action i o)).actsOn j = false := by
  simp [Call.actsOn, Ne.symm hj]

variable [DecidableEq Th]

theorem Holds.enter (h : Holds s j σ) (th : Th) {call : Call O N w}
    (hact : call.actsOn j = false) (hwait : call.waitsOn j = false) :
    Holds (s.enter th call) j σ := by
  refine h.of_calls rfl rfl ?_ ?_
  · simp [State.enter, List.countP_append, hact]
  · simp [State.enter, List.countP_append, hwait]

/-- Each step of the list is a step in the life of one slot, or leaves all slots alone. -/
theorem slot_step {a : Action O Th} (hm : Moves s a s') : ∃ new, s'.log = new ++ s.log ∧
    (Silent s s' new ∧ (∀ j σ, Holds s j σ → Holds s' j σ) ∨
      ∃ i σ note τ, Changes s s' i σ note τ ∧ Tells s s' i new note) := by
  cases hm with
  | idle => exact ⟨[], rfl, Or.inl ⟨⟨rfl, by simp, by simp⟩, fun _ _ => id⟩⟩
  | refused =>
    exact ⟨[_], rfl, Or.inl ⟨⟨rfl, by simp, by simp⟩, fun _ _ h => h.note _⟩⟩
  | @register th o i hi =>
    exact ⟨[_], rfl, Or.inr ⟨i, _, _, _,
      ⟨hi, .register o _, holds_register hi, fun _ _ hj h => h.register_of_ne hj⟩, rfl, rfl, rfl⟩⟩
  | @unlist th o i r hi =>
    have hself := holds_put .free hi.acting hi.waiting (by simp [Slot.registration])
    exact ⟨[_], rfl, Or.inr ⟨i, _, _, _,
      ⟨hi, .unlist o r, hself.note _, fun _ _ hj h => (h.put_of_ne hj _).note _⟩,
      rfl, by simp, by simp⟩⟩
  | @unlistAndReturn th o i r hi =>
    have hself := holds_put .free hi.acting hi.waiting (by simp [Slot.registration])
    exact ⟨[_, _], rfl, Or.inr ⟨i, _, _, _,
      ⟨hi, .unlist o r, hself.note _, fun _ _ hj h => (h.put_of_ne hj _).note _⟩,
      rfl, by simp, by simp⟩⟩
  | @leave th o i r n hi =>
    have hself := holds_put (.leaving o r n) hi.acting hi.waiting hi.registration
    exact ⟨[_], rfl, Or.inr ⟨i, _, _, _,
      ⟨hi, .leave o r n, hself.note _, fun _ _ hj h => (h.put_of_ne hj _).note _⟩,
      rfl, by simp, by simp⟩⟩
  | @await th o i r n _ hi =>
    refine ⟨[_], rfl, Or.inr ⟨i, _, _, _, ⟨hi, .await o r n, ?_, fun j ρ hj h => ?_⟩,
      rfl, by simp, by simp⟩⟩
    · refine ⟨RawObserverList.Shows.put_self, ?_, ?_, hi.registration⟩
      · simpa [State.note, State.enter, State.put, State.withList, Call.actsOn, Slot.calls]
          using hi.acting
      · simpa [State.note, State.enter, State.put, State.withList, Call.waitsOn, Slot.waiters]
          using hi.waiting
    · exact ((h.put_of_ne hj _).enter th rfl (by simp [Call.waitsOn, Ne.symm hj])).note _
  | snapshot =>
    exact ⟨[_], rfl, Or.inl ⟨⟨rfl, by simp, by simp⟩,
      fun _ _ h => (h.enter _ rfl rfl).note _⟩⟩
  | skip hcur =>
    exact ⟨[], rfl, Or.inl ⟨⟨rfl, by simp, by simp⟩,
      fun _ _ h => h.goto (current_call hcur).2 _ rfl rfl⟩⟩
  | @refuse th c rest g bits i hcur =>
    refine ⟨[_], rfl, Or.inl ⟨⟨rfl, by simp, by simp⟩, fun j σ h => ?_⟩⟩
    exact (h.goto (current_call hcur).2 (.notify g bits (.walk (i + 1))) rfl rfl).note _
  | @borrow th c rest g bits i o r n hcur hi =>
    have hc := (current_call hcur).2
    refine ⟨[_, _], rfl, Or.inr ⟨i, _, _, _, ⟨hi, .borrow o r n, ?_, fun j ρ hj h => ?_⟩,
      rfl, by simp, by simp⟩⟩
    · exact (holds_put_goto hi hc (.listed o r (n + 1)) (.notify g bits (.action i o))
        (by simp [Call.actsOn, Slot.calls]) rfl (by simp [Slot.registration])).note _
    · exact ((h.put_of_ne hj _).goto hc _ (borrow_actsOn hj g bits o) rfl).note _
  | @release th c rest g bits i o σ hcur hi hpos =>
    have hc := (current_call hcur).2
    refine ⟨[], rfl, Or.inr ⟨i, _, _, _, ⟨hi, .release σ hpos, ?_, fun j ρ hj h => ?_⟩,
      rfl, by simp, by simp⟩⟩
    · refine holds_put_goto hi hc _ _ ?_ ?_ (Slot.registration_release hpos)
      · have hcalls := Slot.calls_release σ
        split <;> simp only [Call.actsOn, decide_true, Bool.toNat_true, Bool.toNat_false] <;> omega
      · split <;> simp [Call.waitsOn, Slot.waiters_release]
    · refine (h.put_of_ne hj _).goto hc _ ?_ ?_
      · rw [borrow_actsOn hj]
        split <;> rfl
      · split <;> rfl
  | @broadcast th c rest g bits i hcur =>
    have hwake : (s.calls.map Call.wake)[c]? = some (.notify g bits (.broadcast i)) := by
      simp [(current_call hcur).2, Call.wake]
    exact ⟨[], rfl, Or.inl ⟨⟨rfl, by simp, by simp⟩,
      fun _ _ h => h.wake.goto hwake _ rfl rfl⟩⟩
  | @finish th c rest g bits i hcur =>
    refine ⟨[_], rfl, Or.inl ⟨⟨rfl, by simp, by simp⟩, fun _ _ h => ?_⟩⟩
    exact (h.goto (current_call hcur).2 (.notify g bits .done) rfl rfl).of_calls rfl rfl rfl rfl
  | recheck hcur | spurious hcur =>
    exact ⟨[], rfl, Or.inl ⟨⟨rfl, by simp, by simp⟩,
      fun _ _ h => h.goto (current_call hcur).2 _ rfl rfl⟩⟩
  | @retire th c rest o i r hcur hi =>
    have hc := (current_call hcur).2
    refine ⟨[_], rfl, Or.inr ⟨i, _, _, _, ⟨hi, .retire o r, ?_, fun j ρ hj h => ?_⟩,
      rfl, by simp, by simp⟩⟩
    · have hself := holds_put_goto hi hc .free (.removeAndWait (some o) i .done) rfl
        (by simp [Slot.waiters, Call.waitsOn]) (by simp [Slot.registration])
      exact hself.of_calls rfl rfl rfl rfl
    · have hgoto := (h.put_of_ne hj .free).goto hc (.removeAndWait (some o) i .done) rfl
        (by simp [Call.waitsOn, Ne.symm hj])
      exact hgoto.of_calls rfl rfl rfl rfl

/-- Each slot takes a step of its life or is left alone. -/
theorem Holds.step {a : Action O Th} (h : Holds s j σ) (hm : Moves s a s') :
    ∃ σ', Holds s' j σ' ∧ (σ' = σ ∨ ∃ note, σ.Step note σ') := by
  obtain ⟨-, -, ⟨-, hkept⟩ | ⟨i, ρ, note, τ, hch, -⟩⟩ := slot_step hm
  · exact ⟨σ, hkept j σ h, Or.inl rfl⟩
  · by_cases hj : j = i
    · subst hj
      obtain rfl := h.unique hch.before
      exact ⟨τ, hch.after, Or.inr ⟨note, hch.step⟩⟩
    · exact ⟨σ, hch.others j σ hj h, Or.inl rfl⟩

end Slots

section Calls

variable {s s' : State O Th N w}

theorem getElem?_set_cases {α : Type*} {l : List α} {c d : ℕ} {x y : α}
    (h : (l.set c x)[d]? = some y) : (d = c ∧ y = x) ∨ l[d]? = some y := by
  by_cases hd : d = c
  · subst hd
    rw [List.getElem?_set_self'] at h
    obtain ⟨z, hz, hy⟩ := Option.map_eq_some_iff.mp h
    exact Or.inl ⟨rfl, hy.symm⟩
  · rw [List.getElem?_set_ne (Ne.symm hd)] at h
    exact Or.inr h

theorem getElem?_concat_cases {α : Type*} {l : List α} {d : ℕ} {x y : α}
    (h : (l ++ [x])[d]? = some y) : (d = l.length ∧ y = x) ∨ l[d]? = some y := by
  rcases lt_or_ge d l.length with hd | hd
  · rw [List.getElem?_append_left hd] at h
    exact Or.inr h
  · rw [List.getElem?_append_right hd] at h
    obtain ⟨hlt, hget⟩ := List.getElem?_eq_some_iff.mp h
    simp only [List.length_singleton] at hlt
    refine Or.inl ⟨by omega, ?_⟩
    simpa using hget.symm

/-- After a broadcast: the call that made it, or another one with its wait ended. -/
theorem wake_set_cases {calls : List (Call O N w)} {c d : ℕ} {new call : Call O N w}
    (h : ((calls.map Call.wake).set c new)[d]? = some call) :
    (d = c ∧ call = new) ∨ ∃ old, calls[d]? = some old ∧ call = old.wake := by
  rcases getElem?_set_cases h with hnew | hold
  · exact Or.inl hnew
  · rw [List.getElem?_map] at hold
    obtain ⟨old, hget, hwake⟩ := Option.map_eq_some_iff.mp hold
    exact Or.inr ⟨old, hget, hwake.symm⟩

theorem put_observer (l : RawObserverList O N w) (i : Fin N) (σ : Slot O) :
    ((l.put i σ).mEntries i).observer = σ.observer := by
  rw [RawObserverList.Shows.put_self.entry, slotEntry_observer]

theorem put_activeCalls (l : RawObserverList O N w) (i : Fin N) (σ : Slot O) :
    ((l.put i σ).mEntries i).activeCalls = σ.calls := by
  rw [RawObserverList.Shows.put_self.entry]
  cases σ <;> rfl

theorem Holds.activeCalls {i : Fin N} {σ : Slot O} (h : Holds s i σ) :
    (s.list.mEntries i).activeCalls = σ.calls := by
  rw [h.entry]
  cases σ <;> rfl

theorem about_wake (call : Call O N w) : call.wake.about = call.about := by
  rcases call with ⟨_, _, _⟩ | ⟨_, _, _ | _ | _⟩ <;> rfl

variable [DecidableEq Th]

/-- A call comes to rely on a slot when the slot holds its observer. -/
theorem about_step {a : Action O Th} (hm : Moves s a s') {d : ℕ} {call : Call O N w}
    (hd : s'.calls[d]? = some call) {i : Fin N} {o : Option O} (ha : call.about = some (i, o)) :
    (∃ old, s.calls[d]? = some old ∧ old.about = some (i, o)) ∨
      (s'.list.mEntries i).observer = o := by
  have hset {c : ℕ} {new : Call O N w} (h : (s.calls.set c new)[d]? = some call)
      (hnew : new.about = none) : ∃ old, s.calls[d]? = some old ∧ old.about = some (i, o) := by
    rcases getElem?_set_cases h with ⟨-, rfl⟩ | h
    · simp [hnew] at ha
    · exact ⟨call, h, ha⟩
  cases hm with
  | idle | refused | register | unlist | unlistAndReturn | leave => exact Or.inl ⟨call, hd, ha⟩
  | @await th x j r n _ hj =>
    rcases getElem?_concat_cases hd with ⟨-, rfl⟩ | hd
    · simp only [Call.about, Option.some.injEq, Prod.mk.injEq] at ha
      obtain ⟨rfl, rfl⟩ := ha
      exact Or.inr (put_observer s.list j (.awaited x r (n + 1)))
    · exact Or.inl ⟨call, hd, ha⟩
  | snapshot =>
    rcases getElem?_concat_cases hd with ⟨-, rfl⟩ | hd
    · simp [Call.about] at ha
    · exact Or.inl ⟨call, hd, ha⟩
  | skip | refuse | finish | retire => exact Or.inl (hset hd rfl)
  | @borrow th c rest g bits j x r n hcur hj =>
    rcases getElem?_set_cases hd with ⟨-, rfl⟩ | hd
    · simp only [Call.about, Option.some.injEq, Prod.mk.injEq] at ha
      obtain ⟨rfl, rfl⟩ := ha
      exact Or.inr (put_observer s.list j (.listed x r (n + 1)))
    · exact Or.inl ⟨call, hd, ha⟩
  | release => exact Or.inl (hset hd (by split <;> rfl))
  | broadcast =>
    rcases wake_set_cases hd with ⟨-, rfl⟩ | ⟨old, hold, rfl⟩
    · simp [Call.about] at ha
    · exact Or.inl ⟨old, hold, (about_wake old).symm.trans ha⟩
  | recheck hcur | spurious hcur =>
    rcases getElem?_set_cases hd with ⟨rfl, rfl⟩ | hd
    · exact Or.inl ⟨_, (current_call hcur).2, ha⟩
    · exact Or.inl ⟨call, hd, ha⟩

end Calls

section Invariants

variable {s s' : State O Th N w}

theorem consistent_start : Consistent (State.start : State O Th N w) where
  generation := rfl
  slots i := ⟨.free, ⟨rfl, rfl⟩, rfl, rfl, by simp [Slot.registration]⟩
  about c call hc := by simp [State.start] at hc

theorem Holds.busy {i : Fin N} {σ : Slot O} (h : Holds s i σ) {c : ℕ} {call : Call O N w}
    {o : Option O} (hc : s.calls[c]? = some call) (ha : call.about = some (i, o)) :
    σ ≠ .free := by
  rintro rfl
  rcases call with ⟨g, bits, _ | ⟨j, x⟩ | _ | _⟩ | ⟨x, j, _ | _ | _⟩
  case notify.action =>
    obtain rfl : j = i := by simpa [Call.about] using congrArg (Option.map Prod.fst) ha
    exact absurd (h.calls_pos hc (by simp [Call.actsOn])) (by simp [Slot.calls])
  case removeAndWait.blocked | removeAndWait.woken =>
    obtain rfl : j = i := by simpa [Call.about] using congrArg (Option.map Prod.fst) ha
    obtain ⟨_, _, _, hσ⟩ := h.awaited_of_waits hc (by simp [Call.waitsOn])
    simp at hσ
  all_goals simp [Call.about] at ha

variable [DecidableEq Th]

/-- Every section under mLock leaves each slot in one state of its life. -/
theorem consistent_step {a : Action O Th} (h : Consistent s) (hm : Moves s a s') :
    Consistent s' where
  generation := by
    cases hm with
    | register => rfl
    | _ => exact h.generation
  slots i := by
    obtain ⟨σ, hσ⟩ := h.slots i
    obtain ⟨σ', hσ', -⟩ := hσ.step hm
    exact ⟨σ', hσ'⟩
  about d call hd i o ha := by
    rcases about_step hm hd ha with ⟨old, hold, hao⟩ | hobs
    · obtain ⟨σ, hσ⟩ := h.slots i
      obtain ⟨σ', hσ', hstep⟩ := hσ.step hm
      have hkept : σ'.observer = σ.observer := by
        rcases hstep with rfl | ⟨note, hstep⟩
        · rfl
        · exact hstep.observer.resolve_right
            (not_or.mpr ⟨hσ.busy hold hao, hσ'.busy hd ha⟩)
      rw [hσ'.observer, hkept, ← hσ.observer]
      exact h.about d old hold i o hao
    · exact hobs

variable [DecidableEq O]

/-- The slots, and the calls that rely on them, agree in every reachable state. -/
theorem consistent_invariant :
    (system O Th N w).Invariant Machine.anyStep (fun _ => True) Consistent where
  init s hs := by
    obtain rfl : s = State.start := hs
    exact consistent_start
  step s a s' _ _ hs h := consistent_step h (step_moves h hs)

theorem consistent_reachable (hs : (system O Th N w).Reachable Machine.anyStep s) :
    Consistent s :=
  consistent_invariant.always hs

end Invariants

end CWrapper.ObserverList
