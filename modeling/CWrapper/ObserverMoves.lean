import CWrapper.ObserverSlots

/-!
What one step can do, in terms of slots. The relation is read off the program once, for
states in which every entry shows a slot; such states lead to such states only.
-/
namespace CWrapper.ObserverList

open SlotLife Transition

variable {O Th : Type} {N w : ℕ}

/-- The call is between acquireForNotify and releaseAfterNotify on slot `i`. -/
def Call.actsOn (i : Fin N) : Call O N w → Bool
  | .notify _ _ (.action j _) => decide (j = i)
  | _ => false

/-- The call has set waitingRemoval of slot `i` and not yet returned. -/
def Call.waitsOn (i : Fin N) : Call O N w → Bool
  | .removeAndWait _ j .blocked | .removeAndWait _ j .woken => decide (j = i)
  | _ => false

/-- The slot a call relies on, and the observer it takes the slot to hold. -/
def Call.about : Call O N w → Option (Fin N × Option O)
  | .notify _ _ (.action i target) => some (i, some target)
  | .removeAndWait observer i .blocked | .removeAndWait observer i .woken => some (i, observer)
  | _ => none

structure Holds (s : State O Th N w) (i : Fin N) (σ : Slot O) : Prop
    extends s.list.Shows i σ where
  acting : s.calls.countP (Call.actsOn i) = σ.calls
  waiting : s.calls.countP (Call.waitsOn i) = σ.waiters
  registration : ∀ r ∈ σ.registration, s.registration i = r

/-- Every entry shows a slot, which holds the observer of each call that is about it. -/
structure Consistent (s : State O Th N w) : Prop where
  generation : s.list.mGeneration = BitVec.ofNat w s.adds
  slots : ∀ i, ∃ σ, Holds s i σ
  about : ∀ (c : ℕ) (call : Call O N w), s.calls[c]? = some call →
    ∀ i o, call.about = some (i, o) →
    (s.list.mEntries i).observer = o

def State.put (s : State O Th N w) (i : Fin N) (σ : Slot O) : State O Th N w :=
  s.withList (s.list.put i σ)

def State.register (s : State O Th N w) (i : Fin N) (o : O) : State O Th N w where
  list := { s.list.put i (.listed o (s.adds + 1) 0) with
    mGeneration := BitVec.ofNat w (s.adds + 1) }
  calls := s.calls
  stack := s.stack
  adds := s.adds + 1
  registration := Function.update s.registration i (s.adds + 1)
  log := .added (s.adds + 1) o i :: s.log

theorem current_call {s : State O Th N w} {th : Th} {c : ℕ} {rest : List ℕ}
    {call : Call O N w} (h : s.current th = some (c, rest, call)) :
    s.stack th = c :: rest ∧ s.calls[c]? = some call := by
  unfold State.current at h
  split at h
  · simp at h
  · rename_i c' rest' hstack
    obtain ⟨call', hcall, heq⟩ := Option.map_eq_some_iff.mp h
    simp only [Prod.mk.injEq] at heq
    obtain ⟨rfl, rfl, rfl⟩ := heq
    exact ⟨hstack, hcall⟩

theorem Holds.listed_of_active {s : State O Th N w} {i : Fin N} {σ : Slot O} {o : O}
    (h : Holds s i σ) (hi : s.list.IsActive o i) : ∃ r n, σ = .listed o r n := by
  obtain ⟨r, n, hσ⟩ := h.toShows.active_iff.mp hi
  exact ⟨r, n, hσ⟩

theorem Holds.calls_pos {s : State O Th N w} {i : Fin N} {σ : Slot O} {c : ℕ}
    {call : Call O N w} (h : Holds s i σ) (hc : s.calls[c]? = some call)
    (hacts : call.actsOn i = true) : 0 < σ.calls := by
  rw [← h.acting, List.countP_pos_iff]
  exact ⟨call, List.mem_of_getElem? hc, hacts⟩

theorem Holds.awaited_of_waits {s : State O Th N w} {i : Fin N} {σ : Slot O} {c : ℕ}
    {call : Call O N w} (h : Holds s i σ) (hc : s.calls[c]? = some call)
    (hwaits : call.waitsOn i = true) : ∃ o r n, σ = .awaited o r n := by
  have hpos : 0 < σ.waiters := by
    rw [← h.waiting, List.countP_pos_iff]
    exact ⟨call, List.mem_of_getElem? hc, hwaits⟩
  cases σ with
  | awaited o r n => exact ⟨o, r, n, rfl⟩
  | _ => simp [Slot.waiters] at hpos

theorem slotEntry_observer (σ : Slot O) : (slotEntry w σ).observer = σ.observer := by
  cases σ <;> rfl

theorem Holds.observer {s : State O Th N w} {i : Fin N} {σ : Slot O} (h : Holds s i σ) :
    (s.list.mEntries i).observer = σ.observer := by
  rw [h.entry, slotEntry_observer]

theorem Holds.unique {s : State O Th N w} {i : Fin N} {σ τ : Slot O} (h : Holds s i σ)
    (h' : Holds s i τ) : σ = τ := by
  have hentry := h.entry.symm.trans h'.entry
  have hreg := h.registration
  have hreg' := h'.registration
  cases σ <;> cases τ <;> simp_all [slotEntry, Entry.reset, Slot.registration]

theorem Holds.free_of_bit {s : State O Th N w} {i : Fin N} {σ : Slot O} (h : Holds s i σ)
    (hbit : s.list.mOccupiedBits i = false) : σ = .free := by
  have hσ := h.bit
  rw [hbit] at hσ
  cases σ with
  | free => rfl
  | _ => simp [slotBit] at hσ

/-- Replacing an element moves a count by what the old and the new one count for. -/
theorem countP_set_add {α : Type*} (p : α → Bool) {l : List α} {c : ℕ} {x : α} (y : α)
    (hc : l[c]? = some x) : (l.set c y).countP p + (p x).toNat = l.countP p + (p y).toNat := by
  obtain ⟨hlt, hget⟩ := List.getElem?_eq_some_iff.mp hc
  have hset := List.countP_set (p := p) (a := y) hlt
  have hle := List.boole_getElem_le_countP (p := p) hlt
  have htoNat (b : Bool) : b.toNat = if b = true then 1 else 0 := by cases b <;> rfl
  rw [hget] at hset hle
  rw [htoNat, htoNat, hset]
  omega

theorem Holds.of_calls {s s' : State O Th N w} {j : Fin N} {σ : Slot O} (h : Holds s j σ)
    (hlist : s'.list = s.list) (hreg : s'.registration = s.registration)
    (hact : s'.calls.countP (Call.actsOn j) = s.calls.countP (Call.actsOn j))
    (hwait : s'.calls.countP (Call.waitsOn j) = s.calls.countP (Call.waitsOn j)) :
    Holds s' j σ where
  entry := hlist ▸ h.entry
  bit := hlist ▸ h.bit
  acting := hact.trans h.acting
  waiting := hwait.trans h.waiting
  registration := hreg ▸ h.registration

theorem Holds.note {s : State O Th N w} {j : Fin N} {σ : Slot O} (h : Holds s j σ)
    (es : List (Event O Th N)) : Holds (s.note es) j σ :=
  h.of_calls rfl rfl rfl rfl

/-- A call that moves on without taking or giving back slot `j` leaves the slot as it was. -/
theorem Holds.goto {s : State O Th N w} {j : Fin N} {σ : Slot O} (h : Holds s j σ) {c : ℕ}
    {call : Call O N w} (hc : s.calls[c]? = some call) (call' : Call O N w)
    (hact : call'.actsOn j = call.actsOn j) (hwait : call'.waitsOn j = call.waitsOn j) :
    Holds (s.goto c call') j σ := by
  have hactCount := countP_set_add (Call.actsOn j) call' hc
  have hwaitCount := countP_set_add (Call.waitsOn j) call' hc
  rw [hact] at hactCount
  rw [hwait] at hwaitCount
  exact h.of_calls rfl rfl (Nat.add_right_cancel hactCount) (Nat.add_right_cancel hwaitCount)

theorem Holds.put_of_ne {s : State O Th N w} {i j : Fin N} {σ : Slot O} (h : Holds s j σ)
    (hj : j ≠ i) (τ : Slot O) : Holds (s.put i τ) j σ :=
  ⟨h.toShows.put_of_ne hj, h.acting, h.waiting, h.registration⟩

variable [DecidableEq Th]

inductive Moves (s : State O Th N w) : Action O Th → State O Th N w → Prop
  | idle {a : Action O Th} : Moves s a s
  | refused {th : Th} {o : Option O} {r : RemoveResult} : r ≠ .removed →
      (∀ x i, o = some x → ¬ s.list.IsActive x i) →
      Moves s (.removeAndWait th o) (s.note [.returned th o r])
  | register {th : Th} {o : O} {i : Fin N} : Holds s i .free →
      (∀ j, (s.list.mEntries j).observer ≠ some o) →
      Moves s (.add th (some o)) (s.register i o)
  | unlist {th : Th} {o : O} {i : Fin N} {r : ℕ} : Holds s i (.listed o r 0) →
      Moves s (.remove th (some o)) ((s.put i .free).note [.flagged r])
  | unlistAndReturn {th : Th} {o : O} {i : Fin N} {r : ℕ} : Holds s i (.listed o r 0) →
      Moves s (.removeAndWait th (some o))
        ((s.put i .free).note [.returned th (some o) .removed, .flagged r])
  | leave {th : Th} {o : O} {i : Fin N} {r n : ℕ} : Holds s i (.listed o r (n + 1)) →
      Moves s (.remove th (some o)) ((s.put i (.leaving o r n)).note [.flagged r])
  | await {th : Th} {o : O} {i : Fin N} {r n : ℕ} : s.mayCall th = true →
      Holds s i (.listed o r (n + 1)) →
      Moves s (.removeAndWait th (some o))
        (((s.put i (.awaited o r (n + 1))).enter th (.removeAndWait (some o) i .blocked)).note
          [.flagged r])
  | snapshot {th : Th} : s.mayCall th = true → Moves s (.notify th) (notifyStep s th)
  | skip {th : Th} {c : ℕ} {rest : List ℕ} {g : BitVec w} {bits : Fin N → Bool} {i : Fin N} :
      s.current th = some (c, rest, .notify g bits (.walk i)) → bits i = false →
      Moves s (.resume th) (s.goto c (.notify g bits (.walk (i + 1))))
  | refuse {th : Th} {c : ℕ} {rest : List ℕ} {g : BitVec w} {bits : Fin N → Bool} {i : Fin N} :
      s.current th = some (c, rest, .notify g bits (.walk i)) →
      (∀ o r n, Holds s i (.listed o r n) → g < BitVec.ofNat w r) →
      Moves s (.resume th)
        ((s.goto c (.notify g bits (.walk (i + 1)))).note [.reached c i])
  | borrow {th : Th} {c : ℕ} {rest : List ℕ} {g : BitVec w} {bits : Fin N → Bool} {i : Fin N}
      {o : O} {r n : ℕ} :
      s.current th = some (c, rest, .notify g bits (.walk i)) →
      Holds s i (.listed o r n) → ¬ g < BitVec.ofNat w r →
      Moves s (.resume th)
        (((s.put i (.listed o r (n + 1))).goto c (.notify g bits (.action i o))).note
          [.began c r o, .reached c i])
  | release {th : Th} {c : ℕ} {rest : List ℕ} {g : BitVec w} {bits : Fin N → Bool} {i : Fin N}
      {o : O} {σ : Slot O} :
      s.current th = some (c, rest, .notify g bits (.action i o)) →
      Holds s i σ → 0 < σ.calls → σ.observer = some o →
      Moves s (.resume th)
        ((s.put i σ.release).goto c (.notify g bits
          (if σ.waiters = 1 ∧ σ.release.calls = 0 then .broadcast i else .walk (i + 1))))
  | broadcast {th : Th} {c : ℕ} {rest : List ℕ} {g : BitVec w} {bits : Fin N → Bool}
      {i : Fin N} :
      s.current th = some (c, rest, .notify g bits (.broadcast i)) →
      Moves s (.resume th) (({ s with calls := s.calls.map Call.wake }).goto c
        (.notify g bits (.walk (i + 1))))
  | finish {th : Th} {c : ℕ} {rest : List ℕ} {g : BitVec w} {bits : Fin N → Bool} {i : ℕ} :
      s.current th = some (c, rest, .notify g bits (.walk i)) → N ≤ i →
      Moves s (.resume th) ((s.leave th c rest (.notify g bits .done)).note [.finished c])
  | recheck {th : Th} {c : ℕ} {rest : List ℕ} {o : O} {i : Fin N} {r n : ℕ} :
      s.current th = some (c, rest, .removeAndWait (some o) i .woken) →
      Holds s i (.awaited o r (n + 1)) →
      Moves s (.resume th) (s.goto c (.removeAndWait (some o) i .blocked))
  | retire {th : Th} {c : ℕ} {rest : List ℕ} {o : O} {i : Fin N} {r : ℕ} :
      s.current th = some (c, rest, .removeAndWait (some o) i .woken) →
      Holds s i (.awaited o r 0) →
      Moves s (.resume th)
        (((s.put i .free).leave th c rest (.removeAndWait (some o) i .done)).note
          [.returned th (some o) .removed])
  | spurious {th : Th} {c : ℕ} {rest : List ℕ} {o : Option O} {i : Fin N} :
      s.current th = some (c, rest, .removeAndWait o i .blocked) →
      Moves s (.spurious th) (s.goto c (.removeAndWait o i .woken))

section Inversion

variable {s s' : State O Th N w} {th : Th}

/-- A round of the loop of notify begins the action on an observer that is listed, or goes to the
next slot. -/
theorem walkStep_moves (h : Consistent s) {c i : ℕ} {rest : List ℕ} {g : BitVec w}
    {bits : Fin N → Bool} (hcur : s.current th = some (c, rest, .notify g bits (.walk i))) :
    Moves s (.resume th) (walkStep s th c rest g bits i) := by
  unfold walkStep
  by_cases hi : i < N
  · rw [dif_pos hi]
    by_cases hbit : bits ⟨i, hi⟩ = true
    · rw [if_pos hbit]
      obtain ⟨σ, hσ⟩ := h.slots ⟨i, hi⟩
      by_cases hlisted : ∀ o r, σ.Listed o r → g < BitVec.ofNat w r
      · rw [RawObserverList.acquire_refused hσ.toShows hlisted]
        refine .refuse (i := ⟨i, hi⟩) hcur ?_
        intro o r n hn
        exact hlisted o r ⟨n, hσ.unique hn⟩
      · push Not at hlisted
        obtain ⟨o, r, ⟨n, rfl⟩, hg⟩ := hlisted
        have hr : s.registration ⟨i, hi⟩ = r := hσ.registration r rfl
        rw [RawObserverList.acquire_listed hσ.toShows (by simpa using hg)]
        simp only [hr]
        exact .borrow (i := ⟨i, hi⟩) hcur hσ (by simpa using hg)
    · rw [if_neg hbit]
      exact .skip (i := ⟨i, hi⟩) hcur (by simpa using hbit)
  · rw [dif_neg hi, RawObserverList.releaseRemoved_eq fun j => (h.slots j).imp fun _ => (·.toShows)]
    exact .finish hcur (by omega)

theorem callStep_moves (h : Consistent s) {c : ℕ} {rest : List ℕ} {call : Call O N w}
    (hcur : s.current th = some (c, rest, call)) (hs : callStep s th c rest call = some s') :
    Moves s (.resume th) s' := by
  obtain ⟨-, hc⟩ := current_call hcur
  cases call with
  | notify g bits point =>
    cases point with
    | walk i =>
      obtain rfl := Option.some.inj hs
      exact walkStep_moves h hcur
    | action i o =>
      obtain ⟨σ, hσ⟩ := h.slots i
      have hpos := hσ.calls_pos hc (by simp [Call.actsOn])
      have hobs : σ.observer = some o := hσ.observer.symm.trans (h.about c _ hc i (some o) rfl)
      simp only [callStep, RawObserverList.release_put hσ.toShows hpos, Option.some.injEq,
        decide_eq_true_eq] at hs
      subst hs
      exact .release hcur hσ hpos hobs
    | broadcast i =>
      obtain rfl := Option.some.inj hs
      exact .broadcast hcur
    | done => simp [callStep] at hs
  | removeAndWait o i point =>
    cases point with
    | blocked => simp [callStep] at hs
    | woken =>
      obtain ⟨σ, hσ⟩ := h.slots i
      obtain ⟨x, r, n, rfl⟩ := hσ.awaited_of_waits hc (by simp [Call.waitsOn])
      have ho : some x = o := hσ.observer.symm.trans (h.about c _ hc i o rfl)
      subst ho
      have hentry := hσ.entry
      simp only [callStep, hentry, slotEntry] at hs
      rcases n with _ | n
      · obtain rfl := Option.some.inj hs
        exact .retire hcur hσ
      · obtain rfl := Option.some.inj hs
        exact .recheck hcur hσ
    | done => simp [callStep] at hs

variable [DecidableEq O]

theorem addStep_moves (h : Consistent s) (o : Option O) :
    Moves s (.add th o) (addStep s o) := by
  unfold addStep
  rcases o with _ | o
  · exact .idle
  · cases hi : s.list.freeIndexFor o with
    | none =>
      simp only [hi]
      exact .idle
    | some i =>
      obtain ⟨hbit, hfresh⟩ := RawObserverList.freeIndexFor_some hi
      obtain ⟨σ, hσ⟩ := h.slots i
      have hfree := hσ.free_of_bit hbit
      subst hfree
      have hnone (j : Fin N) : (s.list.mEntries j).observer ≠ some o := by
        intro hj
        obtain ⟨τ, hτ⟩ := h.slots j
        by_cases hocc : s.list.mOccupiedBits j = true
        · exact hfresh j hocc hj
        · have hfree := hτ.free_of_bit (by simpa using hocc)
          rw [hτ.observer, hfree] at hj
          simp [Slot.observer] at hj
      have hstate : Moves s (.add th (some o)) (s.register i o) := .register hσ hnone
      have heq : BitVec.ofNat w s.adds + 1#w = BitVec.ofNat w (s.adds + 1) := by
        simp [BitVec.ofNat_add]
      simpa only [State.register, RawObserverList.put, slotEntry, slotBit,
        RawObserverList.add, hi, h.generation, heq] using hstate

theorem removeStep_moves (h : Consistent s) (o : Option O) :
    Moves s (.remove th o) (removeStep s o) := by
  unfold removeStep State.flagEvents
  rcases o with _ | o
  · exact .idle
  · cases hi : s.list.findActiveEntryIndexLocked o with
    | none =>
      simp only [RawObserverList.remove, hi, Option.bind_some]
      exact .idle
    | some i =>
      obtain ⟨σ, hσ⟩ := h.slots i
      obtain ⟨r, n, rfl⟩ := hσ.listed_of_active (RawObserverList.find_some hi)
      have hr : s.registration i = r := hσ.registration r rfl
      simp only [RawObserverList.remove_some hi hσ.toShows, Option.bind_some, hi, hr]
      rcases n with _ | n
      · exact .unlist hσ
      · exact .leave hσ

/-- What removeAndWait() does up to its wait. -/
theorem removeAndWaitStep_moves (h : Consistent s) (hmay : s.mayCall th = true)
    (o : Option O) : Moves s (.removeAndWait th o) (removeAndWaitStep s th o) := by
  unfold removeAndWaitStep State.flagEvents
  rcases o with _ | o
  · exact .refused (by simp) (by simp)
  · cases hi : s.list.findActiveEntryIndexLocked o with
    | none =>
      simp only [RawObserverList.removeAndWait, hi, Option.bind_some]
      refine .refused (by simp) ?_
      rintro x i ⟨⟩
      exact RawObserverList.find_none hi i
    | some i =>
      obtain ⟨σ, hσ⟩ := h.slots i
      obtain ⟨r, n, rfl⟩ := hσ.listed_of_active (RawObserverList.find_some hi)
      have hr : s.registration i = r := hσ.registration r rfl
      rw [RawObserverList.removeAndWait_some hi hσ.toShows]
      simp only [Option.bind_some, hi, hr]
      rcases n with _ | n
      · exact .unlistAndReturn hσ
      · exact .await hmay hσ

/-- The case analysis of the steps, done once; each is a step in the life of one slot, or of none.
-/
theorem step_moves (h : Consistent s) {a : Action O Th} (hs : step s a = some s') :
    Moves s a s' := by
  cases a with
  | add th o =>
    obtain ⟨-, hs⟩ := Option.ite_none_right_eq_some.mp hs
    obtain rfl := Option.some.inj hs
    exact addStep_moves h o
  | remove th o =>
    obtain ⟨-, hs⟩ := Option.ite_none_right_eq_some.mp hs
    obtain rfl := Option.some.inj hs
    exact removeStep_moves h o
  | removeAndWait th o =>
    obtain ⟨hmay, hs⟩ := Option.ite_none_right_eq_some.mp hs
    obtain rfl := Option.some.inj hs
    exact removeAndWaitStep_moves h hmay o
  | notify th =>
    obtain ⟨hmay, hs⟩ := Option.ite_none_right_eq_some.mp hs
    obtain rfl := Option.some.inj hs
    exact .snapshot hmay
  | resume th =>
    simp only [step] at hs
    split at hs
    · simp at hs
    · rename_i c rest call hcur
      exact callStep_moves h hcur hs
  | spurious th =>
    simp only [step] at hs
    split at hs
    · rename_i c rest o i hcur
      obtain rfl := Option.some.inj hs
      exact .spurious hcur
    · simp at hs

end Inversion

end CWrapper.ObserverList
