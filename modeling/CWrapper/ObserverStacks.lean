import CWrapper.ObserverInvariant

/-!
The stacks of the threads that use a RawObserverList. A call that has not returned is on one stack,
and in its action while it is not the innermost call there.
-/
namespace CWrapper.ObserverList

open Transition

variable {O Th : Type} {N w : ℕ} {s s' : State O Th N w} {th u : Th} {c : ℕ} {rest : List ℕ}
  {call n : Call O N w}

def State.running (s : State O Th N w) (c : ℕ) : Bool := (s.calls[c]?).any Call.running

def State.inAction (s : State O Th N w) (c : ℕ) : Bool := (s.calls[c]?).any Call.inAction

structure Stacked (s : State O Th N w) : Prop where
  held : ∀ c, s.running c = true → ∃ th, c ∈ s.stack th
  running : ∀ th, ∀ c ∈ s.stack th, s.running c = true
  outer : ∀ th c rest, s.stack th = c :: rest → ∀ d ∈ rest, s.inAction d = true
  unique : ∀ th u c, c ∈ s.stack th → c ∈ s.stack u → th = u
  nodup : ∀ th, (s.stack th).Nodup

/-- The innermost call is on no other stack, and once on its own. -/
theorem Stacked.innermost (h : Stacked s) (hstack : s.stack th = c :: rest) :
    c ∉ rest ∧ ∀ u, u ≠ th → c ∉ s.stack u := by
  have hnodup := h.nodup th
  rw [hstack, List.nodup_cons] at hnodup
  have hmem : c ∈ s.stack th := by simp [hstack]
  exact ⟨hnodup.1, fun u hne hu => hne (h.unique u th c hu hmem)⟩

theorem Stacked.lt_length (h : Stacked s) (hc : c ∈ s.stack th) : c < s.calls.length := by
  have hrunning := h.running th c hc
  by_contra hle
  rw [State.running, List.getElem?_eq_none (by omega)] at hrunning
  cases hrunning

theorem Stacked.congr (h : Stacked s) (hstack : s'.stack = s.stack)
    (hrunning : ∀ c, s'.running c = s.running c)
    (houter : ∀ th c rest, s.stack th = c :: rest → ∀ d ∈ rest, s'.inAction d = s.inAction d) :
    Stacked s' := by
  refine ⟨fun c hc => ?_, fun th c hc => ?_, fun th c rest hth d hd => ?_, ?_, ?_⟩
  · rw [hrunning] at hc
    rw [hstack]
    exact h.held c hc
  · rw [hstack] at hc
    rw [hrunning]
    exact h.running th c hc
  · rw [hstack] at hth
    rw [houter th c rest hth d hd]
    exact h.outer th c rest hth d hd
  · rw [hstack]
    exact h.unique
  · rw [hstack]
    exact h.nodup

/-- The calls and the stacks stay. -/
theorem Stacked.of_calls (h : Stacked s) (hcalls : s'.calls = s.calls)
    (hstack : s'.stack = s.stack) : Stacked s' :=
  h.congr hstack (fun c => by rw [State.running, State.running, hcalls])
    fun _ _ _ _ d _ => by rw [State.inAction, State.inAction, hcalls]

theorem Stacked.wake (h : Stacked s) : Stacked { s with calls := s.calls.map Call.wake } := by
  have hany (p : Call O N w → Bool) (hp : ∀ call, p call.wake = p call) (d : ℕ) :
      ((s.calls.map Call.wake)[d]?).any p = (s.calls[d]?).any p := by
    rw [List.getElem?_map]
    cases s.calls[d]? with
    | none => rfl
    | some call => exact hp call
  refine h.congr rfl (hany _ fun call => ?_) fun _ _ _ _ d _ => hany _ (fun call => ?_) d
  · rcases call with ⟨_, _, _⟩ | ⟨_, _, _ | _ | _⟩ <;> rfl
  · rcases call with ⟨_, _, _⟩ | ⟨_, _, _ | _ | _⟩ <;> rfl

variable [DecidableEq Th]

/-- The innermost call of a thread goes on. -/
theorem Stacked.goto (h : Stacked s) (hcur : s.current th = some (c, rest, call))
    (hnew : n.running = true) : Stacked (s.goto c n) := by
  obtain ⟨hstack, hc⟩ := current_call hcur
  have hlt := (List.getElem?_eq_some_iff.mp hc).1
  refine h.congr rfl (fun d => ?_) fun u e tail hu d hd => ?_
  · by_cases heq : d = c
    · subst heq
      rw [h.running th d (by simp [hstack])]
      simp [State.running, State.goto, hlt, hnew]
    · simp [State.running, State.goto, List.getElem?_set_ne (Ne.symm heq)]
  · have hne : c ≠ d := by
      intro heq
      subst heq
      by_cases hth : u = th
      · subst hth
        obtain ⟨-, rfl⟩ := List.cons.inj (hstack.symm.trans hu)
        exact (h.innermost hstack).1 hd
      · exact (h.innermost hstack).2 u hth (by simp [hu, hd])
    simp [State.inAction, State.goto, List.getElem?_set_ne hne]

/-- A thread begins a call, from inside an action or outside of all. -/
theorem Stacked.enter (h : Stacked s) (hmay : s.mayCall th = true) (hnew : n.running = true) :
    Stacked (s.enter th n) := by
  have hcalls {d : ℕ} (hd : d < s.calls.length) :
      (s.enter th n).calls[d]? = s.calls[d]? := List.getElem?_append_left hd
  have hfresh (u : Th) : s.calls.length ∉ s.stack u := fun hmem =>
    absurd (h.lt_length hmem) (Nat.lt_irrefl _)
  have hself : (s.enter th n).stack th = s.calls.length :: s.stack th :=
    Function.update_self ..
  have hother {v : Th} (hv : v ≠ th) : (s.enter th n).stack v = s.stack v :=
    Function.update_of_ne hv ..
  have hmem {v : Th} {d : ℕ} (hd : d ∈ (s.enter th n).stack v) :
      v = th ∧ d = s.calls.length ∨ d ∈ s.stack v := by
    by_cases hv : v = th
    · subst hv
      rw [hself, List.mem_cons] at hd
      exact hd.imp (fun hd => ⟨rfl, hd⟩) id
    · rw [hother hv] at hd
      exact Or.inr hd
  refine ⟨fun d hd => ?_, fun v d hd => ?_, fun v d tail hv e he => ?_, fun v v' d hv hv' => ?_,
    fun v => ?_⟩
  · by_cases hlt : d < s.calls.length
    · rw [State.running, hcalls hlt] at hd
      obtain ⟨v, hv⟩ := h.held d hd
      refine ⟨v, ?_⟩
      by_cases heq : v = th
      · subst heq
        simp [hself, hv]
      · rw [hother heq]
        exact hv
    · have heq : d = s.calls.length := by
        by_contra hne
        rw [State.running, List.getElem?_eq_none (by simp [State.enter]; omega)] at hd
        cases hd
      exact ⟨th, by simp [hself, heq]⟩
  · obtain ⟨-, rfl⟩ | hd := hmem hd
    · simp [State.running, State.enter, hnew]
    · rw [State.running, hcalls (h.lt_length hd)]
      exact h.running v d hd
  · by_cases heq : v = th
    · subst heq
      obtain ⟨-, rfl⟩ := List.cons.inj (hself.symm.trans hv)
      rw [State.inAction, hcalls (h.lt_length he)]
      cases hstack : s.stack v with
      | nil =>
        rw [hstack] at he
        cases he
      | cons c rest =>
        rw [hstack, List.mem_cons] at he
        obtain rfl | he := he
        · have hrunning := h.running v e (by simp [hstack])
          obtain ⟨call, hcall, -⟩ := (Option.any_eq_true _ _).mp hrunning
          rw [hcall]
          exact mayCall_inAction hmay hstack hcall
        · exact h.outer v c rest hstack e he
    · rw [hother heq] at hv
      have hold : e ∈ s.stack v := by simp [hv, he]
      rw [State.inAction, hcalls (h.lt_length hold)]
      exact h.outer v d tail hv e he
  · obtain ⟨rfl, rfl⟩ | hold := hmem hv
    · obtain ⟨rfl, -⟩ | hold' := hmem hv'
      · rfl
      · exact absurd hold' (hfresh v')
    · obtain ⟨rfl, rfl⟩ | hold' := hmem hv'
      · exact absurd hold (hfresh v)
      · exact h.unique v v' d hold hold'
  · by_cases heq : v = th
    · subst heq
      rw [hself]
      exact List.nodup_cons.mpr ⟨hfresh v, h.nodup v⟩
    · rw [hother heq]
      exact h.nodup v

/-- The innermost call of a thread returns. -/
theorem Stacked.leave (h : Stacked s) (hcur : s.current th = some (c, rest, call))
    (hnew : n.running = false) : Stacked (s.leave th c rest n) := by
  obtain ⟨hstack, hc⟩ := current_call hcur
  obtain ⟨hrest, hothers⟩ := h.innermost hstack
  have hself : (s.leave th c rest n).stack th = rest := Function.update_self ..
  have hother {v : Th} (hv : v ≠ th) : (s.leave th c rest n).stack v = s.stack v :=
    Function.update_of_ne hv ..
  have hcalls {d : ℕ} (hne : d ≠ c) : (s.leave th c rest n).calls[d]? = s.calls[d]? :=
    List.getElem?_set_ne (Ne.symm hne)
  have hmem {v : Th} {d : ℕ} (hd : d ∈ (s.leave th c rest n).stack v) :
      d ∈ s.stack v ∧ d ≠ c := by
    by_cases hv : v = th
    · subst hv
      rw [hself] at hd
      exact ⟨by simp [hstack, hd], fun heq => hrest (heq ▸ hd)⟩
    · rw [hother hv] at hd
      exact ⟨hd, fun heq => hothers v hv (heq ▸ hd)⟩
  refine ⟨fun d hd => ?_, fun v d hd => ?_, fun v d tail hv e he => ?_,
    fun v v' d hv hv' => h.unique v v' d (hmem hv).1 (hmem hv').1, fun v => ?_⟩
  · have hne : d ≠ c := by
      intro heq
      subst heq
      have hlt := (List.getElem?_eq_some_iff.mp hc).1
      simp [State.running, State.leave, hlt, hnew] at hd
    rw [State.running, hcalls hne] at hd
    obtain ⟨v, hv⟩ := h.held d hd
    refine ⟨v, ?_⟩
    by_cases heq : v = th
    · subst heq
      rw [hstack, List.mem_cons] at hv
      rw [hself]
      exact hv.resolve_left hne
    · rw [hother heq]
      exact hv
  · obtain ⟨hd, hne⟩ := hmem hd
    rw [State.running, hcalls hne]
    exact h.running v d hd
  · rw [State.inAction, hcalls (hmem (v := v) (by rw [hv]; exact List.mem_cons_of_mem d he)).2]
    by_cases heq : v = th
    · subst heq
      rw [hself] at hv
      exact h.outer v c rest hstack e (by simp [hv, he])
    · rw [hother heq] at hv
      exact h.outer v d tail hv e he
  · by_cases heq : v = th
    · subst heq
      have hnodup := h.nodup v
      rw [hstack, List.nodup_cons] at hnodup
      rw [hself]
      exact hnodup.2
    · rw [hother heq]
      exact h.nodup v

/-- A call is in progress as long as it is on the stack of its thread, once. -/
theorem Stacked.step (h : Stacked s) {a : Action O Th} (hm : Moves s a s') : Stacked s' := by
  cases hm with
  | idle => exact h
  | refused | register | unlist | unlistAndReturn | leave => exact h.of_calls rfl rfl
  | await hmay =>
    exact (h.enter hmay (n := .removeAndWait _ _ .blocked) rfl).of_calls rfl rfl
  | snapshot hmay => exact (h.enter hmay (n := .notify _ _ (.walk 0)) rfl).of_calls rfl rfl
  | skip hcur => exact h.goto hcur rfl
  | refuse hcur => exact (h.goto hcur (n := .notify _ _ (.walk _)) rfl).of_calls rfl rfl
  | borrow hcur => exact (h.goto hcur (n := .notify _ _ (.action _ _)) rfl).of_calls rfl rfl
  | release hcur =>
    refine (h.goto hcur (n := .notify _ _ _) ?_).of_calls rfl rfl
    split <;> rfl
  | @broadcast th c rest g bits i hcur =>
    obtain ⟨hstack, hc⟩ := current_call hcur
    have hcur' : ({ s with calls := s.calls.map Call.wake } : State O Th N w).current th =
        some (c, rest, .notify g bits (.broadcast i)) := by
      simp [State.current, hstack, hc, Call.wake]
    exact h.wake.goto hcur' rfl
  | finish hcur => exact (h.leave hcur (n := .notify _ _ .done) rfl).of_calls rfl rfl
  | recheck hcur => exact h.goto hcur rfl
  | retire hcur => exact (h.leave hcur (n := .removeAndWait _ _ .done) rfl).of_calls rfl rfl
  | spurious hcur => exact h.goto hcur rfl

/-- Every call in progress is on one stack, at one place. -/
theorem stacked_reachable [DecidableEq O]
    (hs : (system O Th N w).Reachable Machine.anyStep s) : Stacked s := by
  refine Machine.Invariant.reachable (J := Consistent) ⟨?_, ?_⟩ (fun _ => consistent_reachable) hs
  · intro s hinit
    obtain rfl : s = State.start := hinit
    refine ⟨fun c hc => ?_, fun th c hc => ?_, fun th c rest hth => ?_, fun th u c hc => ?_,
      fun th => List.nodup_nil⟩
    · simp [State.running, State.start] at hc
    all_goals simp [State.start] at *
  · intro s a s' _ hc hstep h
    exact h.step (step_moves hc hstep)

end CWrapper.ObserverList
