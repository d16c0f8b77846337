import Mathlib.Data.Set.Finite.Basic
import CWrapper.ObserverStacks
import CWrapper.Waiting

/-!
The one deadlock of RawObserverList: calls of removeAndWait() made in callbacks, each of which waits
for the callback that the next one is made in. The threads of such a cycle stay in it.
-/
namespace CWrapper.ObserverList

open Relation SlotLife Transition

variable {O Th : Type} {N w : ℕ} {s s' : State O Th N w} {th u v : Th} {i : Fin N}

def State.awaits (s : State O Th N w) (th : Th) (i : Fin N) : Prop :=
  ∃ c rest call, s.current th = some (c, rest, call) ∧ call.waitsOn i = true

/-- In an action on slot `i`, perhaps within which the thread has made further calls. -/
def State.acts (s : State O Th N w) (th : Th) (i : Fin N) : Prop :=
  ∃ c ∈ s.stack th, (s.calls[c]?).any (Call.actsOn i) = true

def WaitsFor (s : State O Th N w) (th u : Th) : Prop := ∃ i, s.awaits th i ∧ s.acts u i

def Blocked (s : State O Th N w) (th : Th) : Prop :=
  ∃ c rest o i, s.current th = some (c, rest, .removeAndWait o i .blocked)

/-- In the same action or in the same wait, if in any. -/
def Alike (call call' : Option (Call O N w)) : Prop := ∀ i,
  call'.any (Call.actsOn i) = call.any (Call.actsOn i) ∧
    call'.any (Call.waitsOn i) = call.any (Call.waitsOn i)

theorem Alike.of_eq {call call' : Option (Call O N w)} (h : call' = call) : Alike call call' :=
  fun _ => ⟨congrArg _ h, congrArg _ h⟩

theorem alike_wake (call : Option (Call O N w)) : Alike call (call.map Call.wake) := by
  intro i
  rcases call with _ | ⟨_, _, _⟩ | ⟨_, _, _ | _ | _⟩ <;> exact ⟨rfl, rfl⟩

theorem not_inAction_of_waitsOn {call : Call O N w} (h : call.waitsOn i = true) :
    call.inAction = false := by
  rcases call with ⟨_, _, _ | _ | _ | _⟩ | ⟨_, _, _ | _ | _⟩ <;>
    first | rfl | simp [Call.waitsOn] at h

theorem State.acts.inAction (h : s.acts u i) :
    ∃ (c : ℕ) (call : Call O N w), s.calls[c]? = some call ∧ call.actsOn i = true := by
  obtain ⟨c, -, hany⟩ := h
  obtain ⟨call, hcall, hacts⟩ := (Option.any_eq_true _ _).mp hany
  exact ⟨c, call, hcall, hacts⟩

section Stuck

/-- A thread that is in a call has an innermost one, which has not returned. -/
theorem Stacked.current (h : Stacked s) (hin : s.stack th ≠ []) :
    ∃ c rest call, s.current th = some (c, rest, call) ∧ call.running = true := by
  obtain ⟨c, rest, hstack⟩ := List.exists_cons_of_ne_nil hin
  have hrunning := h.running th c (by simp [hstack])
  obtain ⟨call, hcall, hrunning⟩ := (Option.any_eq_true _ _).mp hrunning
  exact ⟨c, rest, call, by simp [State.current, hstack, hcall], hrunning⟩

/-- The threads that are in a call are finitely many: each has its own innermost one. -/
theorem Stacked.finite (h : Stacked s) : {th | s.stack th ≠ []}.Finite := by
  refine Set.Finite.of_finite_image (f := fun th => (s.stack th).head?.getD 0)
    ((Set.finite_lt_nat s.calls.length).subset ?_) ?_
  · intro c hc
    obtain ⟨th, hin, rfl⟩ := hc
    obtain ⟨c, rest, hstack⟩ := List.exists_cons_of_ne_nil hin
    have hmem : c ∈ s.stack th := by simp [hstack]
    have hlt := h.lt_length hmem
    simpa [hstack] using hlt
  · intro th hin u hu heq
    obtain ⟨c, rest, hstack⟩ := List.exists_cons_of_ne_nil hin
    obtain ⟨d, tail, hstack'⟩ := List.exists_cons_of_ne_nil hu
    obtain rfl : c = d := by simpa [hstack, hstack'] using heq
    exact h.unique th u c (by simp [hstack]) (by simp [hstack'])

variable [DecidableEq O] [DecidableEq Th]

/-- A thread in a call goes on where it is not blocked. -/
theorem Stacked.resume_isSome (h : Stacked s) (hin : s.stack th ≠ []) (hfree : ¬ Blocked s th) :
    (ObserverList.step s (.resume th)).isSome = true := by
  obtain ⟨c, rest, call, hcur, hrunning⟩ := h.current hin
  simp only [ObserverList.step, hcur]
  rcases call with ⟨g, bits, i | ⟨i, o⟩ | i | _⟩ | ⟨o, i, _ | _ | _⟩
  · rfl
  · rfl
  · rfl
  · cases hrunning
  · exact absurd ⟨c, rest, o, i, hcur⟩ hfree
  · simp only [callStep]
    split <;> rfl
  · cases hrunning

/-- Where all threads are blocked, each waits for another one. -/
theorem waitsFor_of_stuck (hs : (system O Th N w).Reachable Machine.anyStep s)
    (hstuck : ∀ th, s.stack th ≠ [] → Blocked s th) (hin : s.stack th ≠ []) :
    ∃ u, s.stack u ≠ [] ∧ WaitsFor s th u := by
  obtain ⟨c, rest, o, i, hcur⟩ := hstuck th hin
  obtain ⟨hstack, hc⟩ := current_call hcur
  have hst := stacked_reachable hs
  obtain ⟨σ, hσ⟩ := (consistent_reachable hs).slots i
  by_cases hzero : (s.list.mEntries i).activeCalls = 0
  · -- somebody is about to broadcast, and is not blocked
    obtain ⟨d, g, bits, j, hd⟩ := wakeupDue_reachable hs c o i hc hzero
    obtain ⟨u, tail, hu⟩ := broadcastsNext_reachable hs d g bits j hd
    obtain ⟨e, tail', o', i', hcur'⟩ := hstuck u (by simp [hu])
    obtain ⟨hu', he⟩ := current_call hcur'
    obtain ⟨rfl, -⟩ := List.cons.inj (hu.symm.trans hu')
    rw [hd] at he
    cases he
  · have hpos : 0 < s.calls.countP (Call.actsOn i) := by
      rw [hσ.acting, ← hσ.activeCalls]
      omega
    obtain ⟨call, hmem, hacts⟩ := List.countP_pos_iff.mp hpos
    obtain ⟨d, hd⟩ := List.mem_iff_getElem?.mp hmem
    obtain ⟨u, hu⟩ := hst.held d (by simp [State.running, hd, Call.running_of_actsOn hacts])
    refine ⟨u, List.ne_nil_of_mem hu, i, ⟨c, rest, _, hcur, ?_⟩, d, hu, ?_⟩
    · simp [Call.waitsOn]
    · simp [hd, hacts]

end Stuck

section Frozen

variable [DecidableEq Th]

/-- A thread that waits for an action stays where it is, in all its calls. -/
theorem frozen_step (hst : Stacked s) (hwait : s.awaits th i)
    (hact : s.acts u i) {a : Action O Th} (hm : Moves s a s') :
    s'.stack th = s.stack th ∧ ∀ d ∈ s.stack th, Alike s.calls[d]? s'.calls[d]? := by
  obtain ⟨c, rest, call, hcur, hwaits⟩ := hwait
  obtain ⟨hstack, hc⟩ := current_call hcur
  obtain ⟨e, acting, he, hacts⟩ := hact.inAction
  -- whoever moves is another thread, or this one goes round in its wait
  have hne {x : Th} {d : ℕ} {tail : List ℕ} {old : Call O N w}
      (hx : s.current x = some (d, tail, old)) (hold : old.waitsOn i = false) : x ≠ th := by
    intro heq
    subst heq
    obtain ⟨-, -, rfl⟩ := by simpa using Option.some.inj (hcur.symm.trans hx)
    rw [hwaits] at hold
    cases hold
  have hset {x : Th} {d : ℕ} {tail : List ℕ} {old new : Call O N w}
      (hx : s.current x = some (d, tail, old)) (hxth : x ≠ th) (calls : List (Call O N w)) :
      ∀ d' ∈ s.stack th, (calls.set d new)[d']? = calls[d']? := by
    intro d' hd'
    refine List.getElem?_set_ne fun heq => ?_
    subst heq
    exact (hst.innermost (current_call hx).1).2 th (Ne.symm hxth) hd'
  have hmay {x : Th} (hmay : s.mayCall x = true) : x ≠ th := by
    intro heq
    subst heq
    have haction := mayCall_inAction hmay hstack hc
    rw [not_inAction_of_waitsOn hwaits] at haction
    cases haction
  have happend (new : Call O N w) : ∀ d ∈ s.stack th,
      (s.calls ++ [new])[d]? = s.calls[d]? := fun d hd =>
    List.getElem?_append_left (hst.lt_length hd)
  have hround {x : Th} {d : ℕ} {tail : List ℕ} {o : Option O} {k : Fin N} {p p' : WaitPoint}
      (hx : s.current x = some (d, tail, .removeAndWait o k p)) (hp : p ≠ .done)
      (hp' : p' ≠ .done) (d' : ℕ) :
      Alike s.calls[d']? (s.calls.set d (.removeAndWait o k p'))[d']? := by
    by_cases heq : d' = d
    · subst heq
      have hold := (current_call hx).2
      have hlt := (List.getElem?_eq_some_iff.mp hold).1
      rw [List.getElem?_set_self hlt, hold]
      intro j
      cases p <;> cases p' <;> first | exact ⟨rfl, rfl⟩ | exact absurd rfl hp | exact absurd rfl hp'
    · exact .of_eq (List.getElem?_set_ne (Ne.symm heq))
  cases hm with
  | idle | refused | register | unlist | unlistAndReturn | leave =>
    exact ⟨rfl, fun _ _ => .of_eq rfl⟩
  | await hmay' | snapshot hmay' =>
    exact ⟨Function.update_of_ne (hmay hmay').symm .., fun d hd => .of_eq (happend _ d hd)⟩
  | skip hx | refuse hx | borrow hx | release hx =>
    exact ⟨rfl, fun d hd => .of_eq (hset hx (hne hx rfl) s.calls d hd)⟩
  | broadcast hx =>
    refine ⟨rfl, fun d hd => ?_⟩
    have hwake := alike_wake s.calls[d]?
    rw [← List.getElem?_map, ← hset hx (hne hx rfl) (s.calls.map Call.wake) d hd] at hwake
    exact hwake
  | finish hx =>
    exact ⟨Function.update_of_ne (hne hx rfl).symm .., fun d hd =>
      .of_eq (hset hx (hne hx rfl) s.calls d hd)⟩
  | recheck hx => exact ⟨rfl, fun d _ => hround hx (by simp) (by simp) d⟩
  | spurious hx => exact ⟨rfl, fun d _ => hround hx (by simp) (by simp) d⟩
  | @retire x d tail o k r hx hk =>
    have hxth : x ≠ th := by
      intro heq
      subst heq
      obtain ⟨-, -, rfl⟩ := by simpa using Option.some.inj (hcur.symm.trans hx)
      obtain rfl : k = i := by simpa [Call.waitsOn] using hwaits
      exact absurd (hk.calls_pos he hacts) (Nat.lt_irrefl 0)
    exact ⟨Function.update_of_ne hxth.symm .., fun d' hd => .of_eq (hset hx hxth s.calls d' hd)⟩

/-- A wait for a thread that waits itself stays. -/
theorem WaitsFor.step (hst : Stacked s) (h : WaitsFor s th u)
    (hu : WaitsFor s u v) {a : Action O Th} (hm : Moves s a s') :
    WaitsFor s' th u ∧ s'.stack th = s.stack th := by
  obtain ⟨i, hwait, hact⟩ := h
  obtain ⟨j, hwait', hact'⟩ := hu
  obtain ⟨hstack, hcalls⟩ := frozen_step hst hwait hact hm
  obtain ⟨hstack', hcalls'⟩ := frozen_step hst hwait' hact' hm
  refine ⟨⟨i, ?_, ?_⟩, hstack⟩
  · obtain ⟨c, rest, call, hcur, hwaits⟩ := hwait
    obtain ⟨hth, hc⟩ := current_call hcur
    have hany := (hcalls c (by simp [hth]) i).2
    rw [hc, show (some call).any (Call.waitsOn i) = true from hwaits] at hany
    obtain ⟨call', hcall', hwaits'⟩ := (Option.any_eq_true _ _).mp hany
    exact ⟨c, rest, call', by simp [State.current, hstack, hth, hcall'], hwaits'⟩
  · obtain ⟨d, hd, hany⟩ := hact
    exact ⟨d, hstack' ▸ hd, (hcalls' d hd i).1.trans hany⟩

end Frozen

section Reachable

variable [DecidableEq O] [DecidableEq Th]

/-- The threads of a cycle stay in it, in the same calls. -/
theorem cycle_step (hs : (system O Th N w).Reachable Machine.anyStep s)
    (hcycle : TransGen (WaitsFor s) u u) {a : Action O Th} (hstep : step s a = some s') :
    TransGen (WaitsFor s') u u ∧ s'.stack u = s.stack u := by
  have hm := step_moves (consistent_reachable hs) hstep
  have hkept (x y z : Th) (hxy : WaitsFor s x y) (hyz : WaitsFor s y z) :=
    hxy.step (stacked_reachable hs) hyz hm
  obtain ⟨y, z, huy, hyz⟩ := WaitGraph.cycle_starts hcycle
  exact ⟨WaitGraph.cycle_kept hcycle fun a b c hab hbc => (hkept a b c hab hbc).1,
    (hkept u y z huy hyz).2⟩

/-- While a thread is in a call, one of those threads is not blocked and goes on, or some of them
wait for each other in a cycle; and the threads of a cycle never return from removeAndWait(). -/
theorem only_cycles_deadlock (hs : (system O Th N w).Reachable Machine.anyStep s) :
    (∀ th, s.stack th ≠ [] →
      (∃ u, s.stack u ≠ [] ∧ ¬ Blocked s u ∧ (step s (.resume u)).isSome = true) ∨
        ∃ u, TransGen (WaitsFor s) u u) ∧
    ∀ u, TransGen (WaitsFor s) u u → ∀ as s', (system O Th N w).Path Machine.anyStep s as s' →
      TransGen (WaitsFor s') u u ∧ s'.stack u = s.stack u := by
  refine ⟨fun th hin => ?_, fun u hcycle as s' hpath => ?_⟩
  · by_cases hfree : ∃ u, s.stack u ≠ [] ∧ ¬ Blocked s u
    · obtain ⟨u, hu, hfree⟩ := hfree
      exact Or.inl ⟨u, hu, hfree, (stacked_reachable hs).resume_isSome hu hfree⟩
    · have hstuck (u : Th) (hu : s.stack u ≠ []) : Blocked s u := by
        by_contra hblocked
        exact hfree ⟨u, hu, hblocked⟩
      obtain ⟨u, -, hcycle⟩ := WaitGraph.exists_cycle (stacked_reachable hs).finite ⟨th, hin⟩
        fun v hv => waitsFor_of_stuck hs hstuck hv
      exact Or.inr ⟨u, hcycle⟩
  · obtain ⟨-, hcycle', hstack⟩ := hpath.keeps (I := fun t =>
      (system O Th N w).Reachable Machine.anyStep t ∧ TransGen (WaitsFor t) u u ∧
        t.stack u = s.stack u)
      (fun t a t' _ hstep h => by
        obtain ⟨hcycle', hstack⟩ := cycle_step h.1 h.2.1 hstep
        exact ⟨h.1.step trivial hstep, hcycle', hstack.trans h.2.2⟩) ⟨hs, hcycle, rfl⟩
    exact ⟨hcycle', hstack⟩

end Reachable

section Example

/-- Each of two threads is in the action on one observer, and there removes the other one. -/
def crossed : State Bool Bool 2 8 :=
  (system Bool Bool 2 8).after Machine.anyStep State.start
    [.add false (some false), .add false (some true), .notify false, .resume false, .notify true,
      .resume true, .resume true, .resume true, .removeAndWait false (some true),
      .removeAndWait true (some false)]

theorem crossed_waits : WaitsFor crossed false true ∧ WaitsFor crossed true false := by
  refine ⟨⟨1, ⟨2, [0], .removeAndWait (some true) 1 .blocked, rfl, rfl⟩, 1, ?_, ?_⟩,
    ⟨0, ⟨3, [1], .removeAndWait (some false) 0 .blocked, rfl, rfl⟩, 0, ?_, ?_⟩⟩
  all_goals decide +kernel

theorem only_cycles_deadlock_crossed : TransGen (WaitsFor crossed) false false ∧
    ∀ as s', (system Bool Bool 2 8).Path Machine.anyStep crossed as s' →
      TransGen (WaitsFor s') false false ∧ s'.stack false = crossed.stack false := by
  have hs : (system Bool Bool 2 8).Reachable Machine.anyStep crossed :=
    Machine.reachable_after initial_start (by decide +kernel)
  have hcycle : TransGen (WaitsFor crossed) false false :=
    .tail (.single crossed_waits.1) crossed_waits.2
  exact ⟨hcycle, (only_cycles_deadlock hs).2 false hcycle⟩

end Example

end CWrapper.ObserverList
