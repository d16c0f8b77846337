import Mathlib.Data.Nat.Notation

/-!
The life of a slot that lends out what it holds. A registration `r` puts an observer into a
free slot. Calls borrow the observer while it is listed. It is taken off the list at any time,
but leaves the slot with the last call only, or with the remover that waits for that call.
-/
namespace CWrapper.SlotLife

/-- `leaving` counts the calls besides the last one, so that there is one. -/
inductive Slot (O : Type*)
  | free
  | listed (o : O) (r calls : ℕ)
  | leaving (o : O) (r others : ℕ)
  | awaited (o : O) (r calls : ℕ)

inductive Note (O : Type*)
  | registered (o : O) (r : ℕ)
  | unlisted (r : ℕ)

namespace Slot

variable {O : Type*}

def observer : Slot O → Option O
  | free => none
  | listed o _ _ | leaving o _ _ | awaited o _ _ => some o

def registration : Slot O → Option ℕ
  | free => none
  | listed _ r _ | leaving _ r _ | awaited _ r _ => some r

def calls : Slot O → ℕ
  | free => 0
  | listed _ _ n | awaited _ _ n => n
  | leaving _ _ n => n + 1

def waiters : Slot O → ℕ
  | awaited _ _ _ => 1
  | _ => 0

def Listed (σ : Slot O) (o : O) (r : ℕ) : Prop := ∃ n, σ = listed o r n

def release : Slot O → Slot O
  | listed o r (n + 1) => listed o r n
  | leaving o r (n + 1) => leaving o r n
  | leaving _ _ 0 => free
  | awaited o r (n + 1) => awaited o r n
  | σ => σ

inductive Step : Slot O → Option (Note O) → Slot O → Prop
  | register (o : O) (r : ℕ) : Step free (some (.registered o r)) (listed o r 0)
  | borrow (o : O) (r n : ℕ) : Step (listed o r n) none (listed o r (n + 1))
  | release (σ : Slot O) : 0 < σ.calls → Step σ none σ.release
  | unlist (o : O) (r : ℕ) : Step (listed o r 0) (some (.unlisted r)) free
  | leave (o : O) (r n : ℕ) : Step (listed o r (n + 1)) (some (.unlisted r)) (leaving o r n)
  | await (o : O) (r n : ℕ) :
      Step (listed o r (n + 1)) (some (.unlisted r)) (awaited o r (n + 1))
  | retire (o : O) (r : ℕ) : Step (awaited o r 0) none free

theorem calls_release (σ : Slot O) : σ.release.calls = σ.calls - 1 := by
  cases σ with
  | free => rfl
  | listed o r n => cases n <;> rfl
  | leaving o r n => cases n <;> rfl
  | awaited o r n => cases n <;> rfl

theorem waiters_release (σ : Slot O) : σ.release.waiters = σ.waiters := by
  cases σ with
  | free => rfl
  | listed o r n => cases n <;> rfl
  | leaving o r n => cases n <;> rfl
  | awaited o r n => cases n <;> rfl

theorem registration_release {σ : Slot O} (h : 0 < σ.calls) :
    ∀ r ∈ σ.release.registration, σ.registration = some r := by
  cases σ with
  | free => simp [calls] at h
  | listed o r n => cases n <;> simp [release, registration]
  | leaving o r n => cases n <;> simp [release, registration]
  | awaited o r n => cases n <;> simp [release, registration]

/-- A slot keeps its observer until it is free. -/
theorem Step.observer {σ τ : Slot O} {note : Option (Note O)} (h : σ.Step note τ) :
    τ.observer = σ.observer ∨ σ = free ∨ τ = free := by
  cases h with
  | register => exact Or.inr (Or.inl rfl)
  | borrow => exact Or.inl rfl
  | release _ hpos =>
    cases σ with
    | free => exact Or.inr (Or.inl rfl)
    | listed o r n => cases n <;> exact Or.inl rfl
    | leaving o r n =>
      cases n with
      | zero => exact Or.inr (Or.inr rfl)
      | succ n => exact Or.inl rfl
    | awaited o r n => cases n <;> exact Or.inl rfl
  | unlist => exact Or.inr (Or.inr rfl)
  | leave => exact Or.inl rfl
  | await => exact Or.inl rfl
  | retire => exact Or.inr (Or.inr rfl)

theorem Listed.unique {σ : Slot O} {o o' : O} {r r' : ℕ} (h : σ.Listed o r)
    (h' : σ.Listed o' r') : o = o' ∧ r = r' := by
  obtain ⟨n, rfl⟩ := h
  obtain ⟨n', h'⟩ := h'
  simp only [listed.injEq] at h'
  exact ⟨h'.1, h'.2.1⟩

theorem Listed.registration {σ : Slot O} {o : O} {r : ℕ} (h : σ.Listed o r) :
    σ.observer = some o ∧ σ.registration = some r := by
  obtain ⟨n, rfl⟩ := h
  exact ⟨rfl, rfl⟩

theorem listed_release {σ : Slot O} (o : O) (r : ℕ) :
    σ.release.Listed o r ↔ σ.Listed o r := by
  cases σ with
  | free => rfl
  | listed x q n => cases n <;> simp [release, Listed]
  | leaving x q n => cases n <;> simp [release, Listed]
  | awaited x q n => cases n <;> simp [release, Listed]

theorem observer_of_release {σ : Slot O} {o : O} (h : σ.release.observer = some o) :
    σ.observer = some o := by
  cases σ with
  | free => exact h
  | listed x q n => cases n <;> exact h
  | leaving x q n =>
    cases n with
    | zero => simp [release, observer] at h
    | succ n => exact h
  | awaited x q n => cases n <;> exact h

/-- A step that tells nothing keeps what is listed, and frees the slot or keeps the rest. -/
theorem Step.silent {σ τ : Slot O} (h : σ.Step none τ) :
    (∀ o r, τ.Listed o r ↔ σ.Listed o r) ∧ (∀ o, τ.observer = some o → σ.observer = some o) ∧
      ∀ r, τ.registration = some r → σ.registration = some r := by
  cases h with
  | borrow o r n => exact ⟨by simp [Listed], fun _ => id, fun _ => id⟩
  | release σ hpos =>
    exact ⟨listed_release, fun _ => observer_of_release, registration_release hpos⟩
  | retire o r => exact ⟨by simp [Listed], by simp [Slot.observer], by simp [registration]⟩

/-- A step that takes a registration off the list lists no other. -/
theorem Step.unlisting {σ τ : Slot O} {r : ℕ} (h : σ.Step (some (.unlisted r)) τ) :
    (∃ o, σ.Listed o r) ∧ (∀ o r', ¬ τ.Listed o r') ∧
      (∀ o, τ.observer = some o → σ.observer = some o) ∧
      ∀ r', τ.registration = some r' → σ.registration = some r' := by
  cases h with
  | unlist o r =>
    exact ⟨⟨o, 0, rfl⟩, by simp [Listed], by simp [Slot.observer], by simp [registration]⟩
  | leave o r n => exact ⟨⟨o, n + 1, rfl⟩, by simp [Listed], fun _ => id, fun _ => id⟩
  | await o r n => exact ⟨⟨o, n + 1, rfl⟩, by simp [Listed], fun _ => id, fun _ => id⟩

theorem Step.registering {σ τ : Slot O} {o : O} {r : ℕ}
    (h : σ.Step (some (.registered o r)) τ) : σ = free ∧ τ = listed o r 0 := by
  cases h with
  | register => exact ⟨rfl, rfl⟩

end Slot

end CWrapper.SlotLife
