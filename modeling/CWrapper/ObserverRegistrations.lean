import CWrapper.Sequences
import CWrapper.ObserverEntries

/-!
Registrations and their slots. A registration is made by one add, for one observer and one
slot, and stands in that slot until its removal is flagged; the log tells which is the case.
-/
namespace CWrapper.ObserverList

open Chronicle SlotLife Transition

variable {O Th : Type} {N w : ℕ} {s s' : State O Th N w}

structure Registered (s : State O Th N w) : Prop where
  bound : ∀ r o i, .added r o i ∈ s.log → r ≤ s.adds
  flaggedBound : ∀ r, .flagged r ∈ s.log → r ≤ s.adds
  unique : ∀ r o o' i i', .added r o i ∈ s.log → .added r o' i' ∈ s.log → o = o' ∧ i = i'
  held : ∀ i σ o r, Holds s i σ → σ.observer = some o → σ.registration = some r →
    .added r o i ∈ s.log ∧ (.flagged r ∈ s.log ↔ ¬ σ.Listed o r)
  kept : ∀ r o i, .added r o i ∈ s.log → .flagged r ∈ s.log ∨ ∃ n, Holds s i (.listed o r n)

/-- What is listed has been added, and not been removed since. -/
theorem Registered.listed {i : Fin N} {o : O} {r n : ℕ} (h : Registered s)
    (hi : Holds s i (.listed o r n)) : .added r o i ∈ s.log ∧ .flagged r ∉ s.log := by
  obtain ⟨hadd, hflag⟩ := h.held i _ o r hi rfl rfl
  exact ⟨hadd, fun hf => hflag.mp hf ⟨n, rfl⟩⟩

theorem Silent.log {new : List (Event O Th N)} (h : Silent s s' new)
    (hlog : s'.log = new ++ s.log) : s'.adds = s.adds ∧
      (∀ r o j, .added r o j ∈ s'.log ↔ .added r o j ∈ s.log) ∧
      ∀ r, .flagged r ∈ s'.log ↔ .flagged r ∈ s.log := by
  obtain ⟨hadds, hadd, hflag⟩ := h
  refine ⟨hadds, ?_, ?_⟩
  · intro r o j
    simp [hlog, hadd]
  · intro r
    simp [hlog, hflag]

/-- Nothing is told: the slots keep their registrations, listed or not, or become free. -/
theorem Registered.silent (h : Registered s) (hadds : s'.adds = s.adds)
    (hadd : ∀ r o j, .added r o j ∈ s'.log ↔ .added r o j ∈ s.log)
    (hflag : ∀ r, .flagged r ∈ s'.log ↔ .flagged r ∈ s.log)
    (hheld : ∀ i σ' o r, Holds s' i σ' → σ'.observer = some o → σ'.registration = some r →
      ∃ σ, Holds s i σ ∧ σ.observer = some o ∧ σ.registration = some r ∧
        (σ'.Listed o r ↔ σ.Listed o r))
    (hkept : ∀ i o r n, Holds s i (.listed o r n) → ∃ n', Holds s' i (.listed o r n')) :
    Registered s' := by
  refine ⟨?_, ?_, ?_, ?_, ?_⟩
  · intro r o i hr
    exact hadds ▸ h.bound r o i ((hadd r o i).mp hr)
  · intro r hr
    exact hadds ▸ h.flaggedBound r ((hflag r).mp hr)
  · intro r o o' i i' hr hr'
    exact h.unique r o o' i i' ((hadd ..).mp hr) ((hadd ..).mp hr')
  · intro i σ' o r hσ' ho hr
    obtain ⟨σ, hσ, hoσ, hrσ, hlisted⟩ := hheld i σ' o r hσ' ho hr
    obtain ⟨hadded, hiff⟩ := h.held i σ o r hσ hoσ hrσ
    exact ⟨(hadd r o i).mpr hadded, by rw [hflag, hiff, hlisted]⟩
  · intro r o i hr
    rcases h.kept r o i ((hadd r o i).mp hr) with hf | ⟨n, hn⟩
    · exact Or.inl ((hflag r).mpr hf)
    · exact Or.inr (hkept i o r n hn)

theorem Changes.holds_cases {i j : Fin N} {σ τ ρ : Slot O} {note : Option (Note O)}
    (h : Changes s s' i σ note τ) (hs : Consistent s) (hj : Holds s' j ρ) :
    (j = i ∧ ρ = τ) ∨ j ≠ i ∧ Holds s j ρ := by
  by_cases hji : j = i
  · subst hji
    exact Or.inl ⟨rfl, hj.unique h.after⟩
  · obtain ⟨π, hπ⟩ := hs.slots j
    obtain rfl := hj.unique (h.others j π hji hπ)
    exact Or.inr ⟨hji, hπ⟩

theorem registered_register {i : Fin N} {σ τ : Slot O} {o : O} {r : ℕ}
    {new : List (Event O Th N)} (hs : Consistent s) (h : Registered s)
    (hch : Changes s s' i σ (some (.registered o r)) τ)
    (htells : Tells s s' i new (some (.registered o r))) (hlog : s'.log = new ++ s.log) :
    Registered s' := by
  obtain ⟨hadds, rfl, rfl⟩ := htells
  obtain ⟨rfl, rfl⟩ := hch.step.registering
  have hadd (q : ℕ) (x : O) (j : Fin N) : .added q x j ∈ s'.log ↔
      (q = s.adds + 1 ∧ x = o ∧ j = i) ∨ .added q x j ∈ s.log := by simp [hlog]
  have hflag (q : ℕ) : .flagged q ∈ s'.log ↔ .flagged q ∈ s.log := by simp [hlog]
  refine ⟨?_, ?_, ?_, ?_, ?_⟩
  · intro q x j hq
    rcases (hadd q x j).mp hq with ⟨rfl, -, -⟩ | hq
    · omega
    · have hle := h.bound q x j hq
      omega
  · intro q hq
    have hle := h.flaggedBound q ((hflag q).mp hq)
    omega
  · intro q x x' j j' hq hq'
    rcases (hadd q x j).mp hq with ⟨hnew, rfl, rfl⟩ | hq <;>
      rcases (hadd q x' j').mp hq' with ⟨hnew', rfl, rfl⟩ | hq'
    · exact ⟨rfl, rfl⟩
    · have hle := h.bound q x' j' hq'
      omega
    · have hle := h.bound q x j hq
      omega
    · exact h.unique q x x' j j' hq hq'
  · intro j ρ x q hρ hx hq
    rcases hch.holds_cases hs hρ with ⟨rfl, rfl⟩ | ⟨hj, hρ⟩
    · obtain rfl := Option.some.inj hx
      obtain rfl := Option.some.inj hq
      refine ⟨(hadd ..).mpr (Or.inl ⟨rfl, rfl, rfl⟩), ?_⟩
      have hnot : .flagged (s.adds + 1) ∉ s'.log := by
        intro hf
        have hle := h.flaggedBound _ ((hflag _).mp hf)
        omega
      exact iff_of_false hnot (not_not.mpr ⟨0, rfl⟩)
    · obtain ⟨hadded, hiff⟩ := h.held j ρ x q hρ hx hq
      exact ⟨(hadd q x j).mpr (Or.inr hadded), (hflag q).trans hiff⟩
  · intro q x j hq
    rcases (hadd q x j).mp hq with ⟨rfl, rfl, rfl⟩ | hq
    · exact Or.inr ⟨0, hch.after⟩
    · rcases h.kept q x j hq with hf | ⟨n, hn⟩
      · exact Or.inl ((hflag q).mpr hf)
      · refine Or.inr ⟨n, hch.others j _ ?_ hn⟩
        rintro rfl
        simpa using hn.unique hch.before

theorem registered_unlist {i : Fin N} {σ τ : Slot O} {r : ℕ} {new : List (Event O Th N)}
    (hs : Consistent s) (h : Registered s)
    (hch : Changes s s' i σ (some (.unlisted r)) τ)
    (htells : Tells s s' i new (some (.unlisted r))) (hlog : s'.log = new ++ s.log) :
    Registered s' := by
  obtain ⟨hadds, hnone, hone⟩ := htells
  obtain ⟨⟨o, hσ⟩, hτ, hobs, hreg⟩ := hch.step.unlisting
  have hadd (q : ℕ) (x : O) (j : Fin N) : .added q x j ∈ s'.log ↔ .added q x j ∈ s.log := by
    simp [hlog, hnone]
  have hflag (q : ℕ) : .flagged q ∈ s'.log ↔ q = r ∨ .flagged q ∈ s.log := by
    simp [hlog, hone]
  have hr : .added r o i ∈ s.log :=
    (h.held i σ o r hch.before hσ.registration.1 hσ.registration.2).1
  refine ⟨?_, ?_, ?_, ?_, ?_⟩
  · intro q x j hq
    exact hadds ▸ h.bound q x j ((hadd q x j).mp hq)
  · intro q hq
    rcases (hflag q).mp hq with rfl | hq
    · exact hadds ▸ h.bound q o i hr
    · exact hadds ▸ h.flaggedBound q hq
  · intro q x x' j j' hq hq'
    exact h.unique q x x' j j' ((hadd ..).mp hq) ((hadd ..).mp hq')
  · intro j ρ x q hρ hx hq
    rcases hch.holds_cases hs hρ with ⟨rfl, rfl⟩ | ⟨hj, hρ⟩
    · obtain ⟨hadded, -⟩ := h.held j σ x q hch.before (hobs x hx) (hreg q hq)
      have hqr : q = r :=
        Option.some.inj ((hreg q hq).symm.trans hσ.registration.2)
      exact ⟨(hadd q x j).mpr hadded, iff_of_true ((hflag q).mpr (Or.inl hqr)) (hτ x q)⟩
    · obtain ⟨hadded, hiff⟩ := h.held j ρ x q hρ hx hq
      have hqr : q ≠ r := by
        rintro rfl
        exact hj (h.unique q x o j i hadded hr).2
      exact ⟨(hadd q x j).mpr hadded, by rw [hflag, or_iff_right hqr, hiff]⟩
  · intro q x j hq
    rcases h.kept q x j ((hadd q x j).mp hq) with hf | ⟨n, hn⟩
    · exact Or.inl ((hflag q).mpr (Or.inr hf))
    · by_cases hj : j = i
      · subst hj
        have hlisted : σ.Listed x q := ⟨n, hch.before.unique hn⟩
        exact Or.inl ((hflag q).mpr (Or.inl (hlisted.unique hσ).2))
      · exact Or.inr ⟨n, hch.others j _ hj hn⟩

/-- The log tells of each registration what its slot has gone through. -/
theorem registered_step [DecidableEq Th] {a : Action O Th} (hs : Consistent s)
    (h : Registered s) (hm : Moves s a s') : Registered s' := by
  obtain ⟨new, hlog, ⟨htells, hkept⟩ | ⟨i, σ, note, τ, hch, htells⟩⟩ := slot_step hm
  · obtain ⟨hadds, hadd, hflag⟩ := htells.log hlog
    refine h.silent hadds hadd hflag ?_ fun j x q n hn => ⟨n, hkept j _ hn⟩
    intro j ρ x q hρ hx hq
    obtain ⟨π, hπ⟩ := hs.slots j
    obtain rfl := hρ.unique (hkept j π hπ)
    exact ⟨ρ, hπ, hx, hq, Iff.rfl⟩
  · rcases note with _ | ⟨o, r⟩ | r
    · obtain ⟨hadds, hadd, hflag⟩ := Silent.log htells hlog
      obtain ⟨hlisted, hobs, hreg⟩ := hch.step.silent
      refine h.silent hadds hadd hflag ?_ ?_
      · intro j ρ x q hρ hx hq
        rcases hch.holds_cases hs hρ with ⟨rfl, rfl⟩ | ⟨-, hρ⟩
        · exact ⟨σ, hch.before, hobs x hx, hreg q hq, hlisted x q⟩
        · exact ⟨ρ, hρ, hx, hq, Iff.rfl⟩
      · intro j x q n hn
        by_cases hj : j = i
        · subst hj
          obtain ⟨n', hτ⟩ := (hlisted x q).mpr ⟨n, hch.before.unique hn⟩
          exact ⟨n', hτ ▸ hch.after⟩
        · exact ⟨n, hch.others j _ hj hn⟩
    · exact registered_register hs h hch htells hlog
    · exact registered_unlist hs h hch htells hlog

theorem registered_start : Registered (State.start : State O Th N w) := by
  refine ⟨?_, ?_, ?_, ?_, ?_⟩
  · intro r o i hr
    simp [State.start] at hr
  · intro r hr
    simp [State.start] at hr
  · intro r o o' i i' hr
    simp [State.start] at hr
  · intro i σ o r hσ ho
    have hempty := hσ.observer.trans ho
    simp [State.start, RawObserverList.empty, Entry.reset] at hempty
  · intro r o i hr
    simp [State.start] at hr

/-- The registrations of the log are those of the slots, in every reachable state. -/
theorem registered_reachable [DecidableEq O] [DecidableEq Th]
    (hs : (system O Th N w).Reachable Machine.anyStep s) : Registered s := by
  refine Machine.Invariant.reachable (J := Consistent) ⟨?_, ?_⟩
    (fun _ => consistent_reachable) hs
  · rintro _ rfl
    exact registered_start
  · intro s a s' _ hc hs h
    exact registered_step hc h (step_moves hc hs)

end CWrapper.ObserverList
