import CWrapper.ObserverEntries

/-!
The wait of removeAndWait ends. A remover is blocked only while its slot has calls; the last
of them goes on to mChanged.broadcast(), and its thread does nothing else before.
-/
namespace CWrapper.ObserverList

open SlotLife Transition

variable {O Th : Type} {N w : ℕ} {s s' : State O Th N w}

/-- A call at its broadcast is the innermost call of some thread. -/
def BroadcastsNext (s : State O Th N w) : Prop :=
  ∀ (c : ℕ) (g : BitVec w) (bits : Fin N → Bool) (i : Fin N),
    s.calls[c]? = some (.notify g bits (.broadcast i)) → ∃ th rest, s.stack th = c :: rest

/-- A remover blocked on a slot without calls has a broadcast to come. -/
def WakeupDue (s : State O Th N w) : Prop :=
  ∀ (c : ℕ) (o : Option O) (i : Fin N), s.calls[c]? = some (.removeAndWait o i .blocked) →
    (s.list.mEntries i).activeCalls = 0 →
    ∃ (d : ℕ) (g : BitVec w) (bits : Fin N → Bool) (j : Fin N),
      s.calls[d]? = some (.notify g bits (.broadcast j))

theorem mayCall_inAction {th : Th} {c : ℕ} {rest : List ℕ} {call : Call O N w}
    (hmay : s.mayCall th = true) (hstack : s.stack th = c :: rest)
    (hc : s.calls[c]? = some call) : call.inAction = true := by
  simpa [State.mayCall, State.current, hstack, hc] using hmay

theorem wake_eq_broadcast {call : Call O N w} {g : BitVec w} {bits : Fin N → Bool} {i : Fin N}
    (h : call.wake = .notify g bits (.broadcast i)) : call = .notify g bits (.broadcast i) := by
  rcases call with ⟨_, _, _⟩ | ⟨_, _, _ | _ | _⟩ <;> simp_all [Call.wake]

theorem wake_ne_blocked (call : Call O N w) (o : Option O) (i : Fin N) :
    call.wake ≠ .removeAndWait o i .blocked := by
  rcases call with ⟨_, _, _⟩ | ⟨_, _, _ | _ | _⟩ <;> simp [Call.wake]

section Steps

variable [DecidableEq Th]

/-- The call that is to broadcast remains the innermost one of its thread. -/
theorem broadcastsNext_step {a : Action O Th} (h : BroadcastsNext s) (hm : Moves s a s') :
    BroadcastsNext s' := by
  intro c g bits i hc
  have hgoto {d : ℕ} {new : Call O N w} (hnew : new ≠ .notify g bits (.broadcast i))
      (hc : (s.calls.set d new)[c]? = some (.notify g bits (.broadcast i))) :
      s.calls[c]? = some (.notify g bits (.broadcast i)) := by
    rcases getElem?_set_cases hc with ⟨-, hc⟩ | hc
    · exact absurd hc.symm hnew
    · exact hc
  -- the thread of a broadcast neither makes a call nor leaves another one
  have henter {th : Th} {new : Call O N w} (hmay : s.mayCall th = true)
      (hnew : new ≠ .notify g bits (.broadcast i))
      (hc : (s.calls ++ [new])[c]? = some (.notify g bits (.broadcast i))) :
      ∃ th' rest, Function.update s.stack th (s.calls.length :: s.stack th) th' = c :: rest := by
    rcases getElem?_concat_cases hc with ⟨-, hc⟩ | hc
    · exact absurd hc.symm hnew
    · obtain ⟨th', rest, hstack⟩ := h c g bits i hc
      refine ⟨th', rest, ?_⟩
      rw [Function.update_of_ne, hstack]
      rintro rfl
      exact absurd (mayCall_inAction hmay hstack hc) (by simp [Call.inAction])
  have hleave {th : Th} {d : ℕ} {tail : List ℕ} {old new : Call O N w}
      (hcur : s.current th = some (d, tail, old)) (hold : old ≠ .notify g bits (.broadcast i))
      (hnew : new ≠ .notify g bits (.broadcast i))
      (hc : (s.calls.set d new)[c]? = some (.notify g bits (.broadcast i))) :
      ∃ th' rest, Function.update s.stack th tail th' = c :: rest := by
    have hc' := hgoto hnew hc
    obtain ⟨th', rest, hstack⟩ := h c g bits i hc'
    obtain ⟨hstack', hd⟩ := current_call hcur
    refine ⟨th', rest, ?_⟩
    rw [Function.update_of_ne, hstack]
    rintro rfl
    obtain ⟨rfl, -⟩ := List.cons.inj (hstack.symm.trans hstack')
    exact hold (Option.some.inj (hd.symm.trans hc'))
  cases hm with
  | idle | refused | register | unlist | unlistAndReturn | leave => exact h c g bits i hc
  | await hmay => exact henter hmay (by simp) hc
  | snapshot hmay => exact henter hmay (by simp) hc
  | skip | refuse | borrow | recheck | spurious => exact h c g bits i (hgoto (by simp) hc)
  | release hcur =>
    rcases getElem?_set_cases hc with ⟨rfl, -⟩ | hc
    · exact ⟨_, _, (current_call hcur).1⟩
    · exact h c g bits i hc
  | broadcast =>
    rcases wake_set_cases hc with ⟨-, hc⟩ | ⟨old, hold, hwake⟩
    · simp at hc
    · exact h c g bits i (wake_eq_broadcast hwake.symm ▸ hold)
  | finish hcur => exact hleave hcur (by simp) (by simp) hc
  | retire hcur => exact hleave hcur (by simp) (by simp) hc

/-- A remover comes to be blocked only while its slot has calls. -/
theorem blocked_step {a : Action O Th} (hm : Moves s a s') {c : ℕ} {o : Option O} {i : Fin N}
    (hc : s'.calls[c]? = some (.removeAndWait o i .blocked)) :
    s.calls[c]? = some (.removeAndWait o i .blocked) ∨ 0 < (s'.list.mEntries i).activeCalls := by
  have hset {d : ℕ} {new : Call O N w} (hnew : new ≠ .removeAndWait o i .blocked)
      (hc : (s.calls.set d new)[c]? = some (.removeAndWait o i .blocked)) :
      s.calls[c]? = some (.removeAndWait o i .blocked) :=
    (getElem?_set_cases hc).resolve_left fun h => hnew h.2.symm
  cases hm with
  | idle | refused | register | unlist | unlistAndReturn | leave => exact Or.inl hc
  | @await th x j r n _ hj =>
    rcases getElem?_concat_cases hc with ⟨-, hnew⟩ | hc
    · obtain ⟨-, rfl⟩ : _ ∧ i = j := by simpa using hnew
      have hcalls := put_activeCalls s.list i (.awaited x r (n + 1))
      exact Or.inr (lt_of_lt_of_eq (Nat.succ_pos n) hcalls.symm)
    · exact Or.inl hc
  | snapshot =>
    exact Or.inl ((getElem?_concat_cases hc).resolve_left fun h => by simp at h)
  | skip | refuse | borrow | release | finish | retire | spurious =>
    exact Or.inl (hset (by simp) hc)
  | broadcast =>
    rcases wake_set_cases hc with ⟨-, hc⟩ | ⟨old, -, hwake⟩
    · simp at hc
    · exact absurd hwake.symm (wake_ne_blocked old o i)
  | recheck hcur hi =>
    rcases getElem?_set_cases hc with ⟨-, hnew⟩ | hc
    · obtain ⟨-, rfl⟩ := by simpa using hnew
      exact Or.inr (lt_of_lt_of_eq (Nat.succ_pos _) hi.activeCalls.symm)
    · exact Or.inl hc

/-- The last call on a slot that a remover waits for goes on to broadcast. -/
theorem awaited_step {a : Action O Th} (hm : Moves s a s') {i : Fin N} {x : O} {r n : ℕ}
    (h : Holds s i (.awaited x r n)) :
    s'.list.mEntries i = s.list.mEntries i ∨ (s'.list.mEntries i).observer = none ∨
      0 < (s'.list.mEntries i).activeCalls ∨
      ∃ (d : ℕ) (g : BitVec w) (bits : Fin N → Bool),
        s'.calls[d]? = some (.notify g bits (.broadcast i)) := by
  have hput {j : Fin N} {σ τ : Slot O} (hj : Holds s j σ) (hσ : ∀ x r n, σ ≠ .awaited x r n) :
      (s.list.put j τ).mEntries i = s.list.mEntries i := by
    refine Function.update_of_ne ?_ ..
    rintro rfl
    exact hσ x r n (hj.unique h)
  cases hm with
  | idle | refused | snapshot | skip | refuse | broadcast | finish | recheck | spurious =>
    exact Or.inl rfl
  | register hi => exact Or.inl (hput hi (by simp))
  | unlist hi | unlistAndReturn hi | leave hi => exact Or.inl (hput hi (by simp))
  | await _ hi | borrow _ hi => exact Or.inl (hput hi (by simp))
  | @release th c rest g bits j o σ hcur hi hpos =>
    by_cases hj : i = j
    · subst hj
      obtain rfl := h.unique hi
      obtain ⟨m, rfl⟩ : ∃ m, n = m + 1 := ⟨n - 1, by simp only [Slot.calls] at hpos; omega⟩
      rcases Nat.eq_zero_or_pos m with rfl | hm
      · have hlt := (List.getElem?_eq_some_iff.mp (current_call hcur).2).1
        exact Or.inr (Or.inr (Or.inr ⟨c, g, bits, List.getElem?_set_self hlt⟩))
      · have hcalls := put_activeCalls s.list i (Slot.awaited x r m)
        exact Or.inr (Or.inr (Or.inl (lt_of_lt_of_eq hm hcalls.symm)))
    · exact Or.inl (Function.update_of_ne hj ..)
  | @retire th c rest o j r hcur hi =>
    by_cases hj : i = j
    · subst hj
      exact Or.inr (Or.inl (put_observer s.list i .free))
    · exact Or.inl (Function.update_of_ne hj ..)

/-- A broadcast that does not happen in a step stays due; one that does leaves none blocked. -/
theorem broadcast_step {a : Action O Th} (hm : Moves s a s') {d : ℕ} {g : BitVec w}
    {bits : Fin N → Bool} {j : Fin N}
    (hd : s.calls[d]? = some (.notify g bits (.broadcast j))) :
    s'.calls[d]? = some (.notify g bits (.broadcast j)) ∨
      ∀ (c : ℕ) (o : Option O) (i : Fin N),
        s'.calls[c]? ≠ some (.removeAndWait o i .blocked) := by
  have hset {th : Th} {c : ℕ} {rest : List ℕ} {old new : Call O N w}
      (hcur : s.current th = some (c, rest, old)) (hold : old ≠ .notify g bits (.broadcast j)) :
      (s.calls.set c new)[d]? = some (.notify g bits (.broadcast j)) := by
    rw [List.getElem?_set_ne, hd]
    rintro rfl
    exact hold (Option.some.inj ((current_call hcur).2.symm.trans hd))
  have happend (new : Call O N w) :
      (s.calls ++ [new])[d]? = some (.notify g bits (.broadcast j)) := by
    rw [List.getElem?_append_left (List.getElem?_eq_some_iff.mp hd).1, hd]
  cases hm with
  | idle | refused | register | unlist | unlistAndReturn | leave => exact Or.inl hd
  | await | snapshot => exact Or.inl (happend _)
  | skip hcur | refuse hcur | borrow hcur | release hcur | finish hcur | recheck hcur
  | retire hcur | spurious hcur => exact Or.inl (hset hcur (by simp))
  | broadcast =>
    refine Or.inr fun c o i hc => ?_
    rcases wake_set_cases hc with ⟨-, hc⟩ | ⟨old, -, hwake⟩
    · simp at hc
    · exact absurd hwake.symm (wake_ne_blocked old o i)

/-- The last call to leave a slot on which a remover waits goes on to broadcast. -/
theorem wakeupDue_step {a : Action O Th} (hs : Consistent s) (hs' : Consistent s')
    (h : WakeupDue s) (hm : Moves s a s') : WakeupDue s' := by
  intro c o i hc hzero
  rcases blocked_step hm hc with hold | hpos
  · obtain ⟨σ, hσ⟩ := hs.slots i
    obtain ⟨x, r, n, rfl⟩ := hσ.awaited_of_waits hold (by simp [Call.waitsOn])
    have hobs : some x = o := hσ.observer.symm.trans (hs.about c _ hold i o rfl)
    have hobs' : (s'.list.mEntries i).observer = o := hs'.about c _ hc i o rfl
    rcases awaited_step hm hσ with hsame | hnone | hpos | ⟨d, g, bits, hd⟩
    · obtain ⟨d, g, bits, j, hd⟩ := h c o i hold (hsame ▸ hzero)
      rcases broadcast_step hm hd with hd' | hnone
      · exact ⟨d, g, bits, j, hd'⟩
      · exact absurd hc (hnone c o i)
    · simp [← hobs, hnone] at hobs'
    · omega
    · exact ⟨d, g, bits, i, hd⟩
  · omega

end Steps

section Reachable

variable [DecidableEq O] [DecidableEq Th]

theorem broadcastsNext_reachable (hs : (system O Th N w).Reachable Machine.anyStep s) :
    BroadcastsNext s := by
  refine Machine.Invariant.reachable (J := Consistent) ⟨?_, ?_⟩
    (fun _ => consistent_reachable) hs
  · rintro _ rfl c g bits i hc
    simp [State.start] at hc
  · intro s a s' _ hc hs h
    exact broadcastsNext_step h (step_moves hc hs)

/-- A remover that waits on a slot without calls has a broadcast to come, in every reachable state.
-/
theorem wakeupDue_reachable (hs : (system O Th N w).Reachable Machine.anyStep s) :
    WakeupDue s := by
  refine Machine.Invariant.reachable (J := Consistent) ⟨?_, ?_⟩
    (fun _ => consistent_reachable) hs
  · rintro _ rfl c o i hc
    simp [State.start] at hc
  · intro s a s' _ hc hs h
    have hm := step_moves hc hs
    exact wakeupDue_step hc (consistent_step hc hm) h hm

def AboutToBroadcast (s : State O Th N w) (th : Th) : Prop :=
  ∃ (c : ℕ) (rest : List ℕ) (g : BitVec w) (bits : Fin N → Bool) (i : Fin N),
    s.current th = some (c, rest, .notify g bits (.broadcast i))

theorem AboutToBroadcast.wakes {th : Th} (h : AboutToBroadcast s th) {c : ℕ} {o : Option O}
    {i : Fin N} (hc : s.calls[c]? = some (.removeAndWait o i .blocked)) :
    ∃ s', step s (.resume th) = some s' ∧
      s'.calls[c]? = some (.removeAndWait o i .woken) := by
  obtain ⟨d, rest, g, bits, j, hcur⟩ := h
  refine ⟨({ s with calls := s.calls.map Call.wake }).goto d (.notify g bits (.walk (j + 1))),
    ?_, ?_⟩
  · simp only [step, hcur, callStep]
  · have hne : d ≠ c := by
      rintro rfl
      simp [(current_call hcur).2] at hc
    simp [State.goto, List.getElem?_set_ne hne, hc, Call.wake]

end Reachable

end CWrapper.ObserverList
