import CWrapper.Platform
import Mathlib.Data.List.TakeDrop
import Mathlib.Data.Nat.Find
import Mathlib.Data.Nat.Init

/-!
The callbacks of deinit. A successful init stores its callback; nothing replaces it before deinit
or the destructor runs it, and these run no other.
-/
namespace CWrapper.Platform

variable {L D Cb : Type}

section Callbacks

variable (start : State L D Cb) (actions : List (Action Cb))

def before (i : ℕ) : State L D Cb := start.exec (actions.take i)

/-- The action at a place is a call of init that newly succeeds and brings a callback. -/
def Registers (i : ℕ) (deinitCb : Cb) : Prop :=
  (before start actions i).mSignalInstalled = false ∧
  ∃ intOk termOk initCb,
    actions[i]? = some (.call (.init intOk termOk initCb (some deinitCb))) ∧
    ((before start actions i).init intOk termOk initCb (some deinitCb)).1 = true

def Closes (i : ℕ) : Prop :=
  actions[i]? = some (.call .deinit) ∨ actions[i]? = some .destructor

/-- The action at place `j` is the first deinit or destructor after place `i`. -/
def ClosedFirst (i j : ℕ) : Prop :=
  i < j ∧ Closes actions j ∧ ∀ k, i < k → k < j → ¬Closes actions k

def Runs (i : ℕ) (deinitCb : Cb) : Prop :=
  ∃ a, actions[i]? = some a ∧ ((before start actions i).step a).1.ran = some deinitCb

variable {start actions}

theorem exec_append (s : State L D Cb) (actions rest : List (Action Cb)) :
    s.exec (actions ++ rest) = (s.exec actions).exec rest := by
  induction actions generalizing s with
  | nil => rfl
  | cons a actions ih => exact ih (s.step a).2

theorem before_succ {i : ℕ} {a : Action Cb} (h : actions[i]? = some a) :
    before start actions (i + 1) = ((before start actions i).step a).2 := by
  rw [before, List.take_add_one, h, exec_append]
  rfl

theorem before_succ_end {i : ℕ} (h : actions[i]? = none) :
    before start actions (i + 1) = before start actions i := by
  rw [before, List.take_add_one, h, Option.toList_none, List.append_nil]
  rfl

theorem consistent_before {sigint sigterm : D} (h : Consistent start sigint sigterm) (i : ℕ) :
    Consistent (before start actions i) sigint sigterm :=
  h.exec (actions.take i)

/-- Only deinit and the destructor run a callback, the one that is stored. -/
theorem ran_eq (s : State L D Cb) (a : Action Cb) {deinitCb : Cb}
    (h : (s.step a).1.ran = some deinitCb) :
    (a = .call .deinit ∨ a = .destructor) ∧ s.mDeinitCallback = some deinitCb := by
  have hdeinit : s.deinit.1 = some deinitCb → s.mDeinitCallback = some deinitCb := by
    intro hran
    rcases deinit_cases s with ⟨-, heq⟩ | ⟨-, heq⟩
    · rw [heq] at hran
      cases hran
    · rwa [heq] at hran
  rcases a with (⟨intOk, termOk, initCb, cb⟩ | _) | _
  · cases h
  · exact ⟨Or.inl rfl, hdeinit h⟩
  · exact ⟨Or.inr rfl, hdeinit h⟩

/-- A closing action runs the callback that is stored where the signals are installed, and leaves
none behind. -/
theorem closing_step {s : State L D Cb} {a : Action Cb}
    (ha : a = .call .deinit ∨ a = .destructor) (hflag : s.mSignalInstalled = true) :
    (s.step a).1.ran = s.mDeinitCallback := by
  rcases deinit_cases s with ⟨hnot, -⟩ | ⟨-, heq⟩
  · simp [hflag] at hnot
  · rcases ha with rfl | rfl
    · exact congrArg Prod.fst heq
    · exact congrArg Prod.fst heq

/-- deinit and the destructor leave no callback behind. -/
theorem closing_clears {s : State L D Cb} {sigint sigterm : D} (h : Consistent s sigint sigterm)
    {a : Action Cb} (ha : a = .call .deinit ∨ a = .destructor) :
    (s.step a).2.mDeinitCallback = none := by
  have hdeinit : s.deinit.2.mDeinitCallback = none := by
    rcases deinit_cases s with ⟨hflag, heq⟩ | ⟨-, heq⟩
    · rw [heq]
      exact h.owed hflag
    · rw [heq]
  rcases ha with rfl | rfl
  · exact hdeinit
  · exact hdeinit

theorem not_closes {i : ℕ} {a : Action Cb} (ha : actions[i]? = some a)
    (h : ¬Closes actions i) : ¬(a = .call .deinit ∨ a = .destructor) := by
  intro hor
  apply h
  rw [Closes, ha]
  simpa using hor

/-- From the call that registers a callback to the first closing action the callback is stored. -/
theorem stored_of_registers {i j : ℕ} {deinitCb : Cb} (hreg : Registers start actions i deinitCb)
    (hlt : i < j) (hopen : ∀ k, i < k → k < j → ¬Closes actions k) :
    (before start actions j).mSignalInstalled = true ∧
      (before start actions j).mDeinitCallback = some deinitCb := by
  induction j, hlt using Nat.le_induction with
  | base =>
    obtain ⟨hflag, intOk, termOk, initCb, hat, hok⟩ := hreg
    rw [before_succ hat]
    rcases init_cases (before start actions i) intOk termOk initCb (some deinitCb) with
      ⟨hset, -⟩ | ⟨-, mOldInt, mOldTerm, heq⟩ | ⟨-, heq⟩
    · simp [hflag] at hset
    · rw [heq] at hok
      cases hok
    · have hstate : ((before start actions i).step
          (.call (.init intOk termOk initCb (some deinitCb)))).2 =
          installed (before start actions i) (some deinitCb) := congrArg Prod.snd heq
      rw [hstate]
      exact ⟨rfl, rfl⟩
  | succ j hle ih =>
    obtain ⟨hset, hstored⟩ := ih fun k hk hkj => hopen k hk (by omega)
    cases hat : actions[j]? with
    | none =>
      rw [before_succ_end hat]
      exact ⟨hset, hstored⟩
    | some a =>
      rw [before_succ hat]
      have hnot := not_closes hat (hopen j hle (by omega))
      rcases a with (⟨intOk, termOk, initCb, cb⟩ | _) | _
      · rcases init_cases (before start actions j) intOk termOk initCb cb with
          ⟨-, heq⟩ | ⟨hflag, -⟩ | ⟨hflag, -⟩
        · have hstate : ((before start actions j).step
              (.call (.init intOk termOk initCb cb))).2 = before start actions j :=
            congrArg Prod.snd heq
          rw [hstate]
          exact ⟨hset, hstored⟩
        · simp [hset] at hflag
        · simp [hset] at hflag
      · exact absurd (Or.inl rfl) hnot
      · exact absurd (Or.inr rfl) hnot

/-- A stored callback has been registered since the last closing action. -/
theorem registers_of_stored (hstart : start.mDeinitCallback = none) {j : ℕ} {deinitCb : Cb}
    {sigint sigterm : D} (hcons : Consistent start sigint sigterm)
    (h : (before start actions j).mDeinitCallback = some deinitCb) :
    ∃ i, i < j ∧ Registers start actions i deinitCb ∧
      ∀ k, i < k → k < j → ¬Closes actions k := by
  induction j with
  | zero =>
    have hzero : before start actions 0 = start := rfl
    rw [hzero, hstart] at h
    cases h
  | succ j ih =>
    have hkeep : (before start actions (j + 1)).mDeinitCallback =
        (before start actions j).mDeinitCallback → ¬Closes actions j →
        ∃ i, i < j + 1 ∧ Registers start actions i deinitCb ∧
          ∀ k, i < k → k < j + 1 → ¬Closes actions k := by
      intro hsame hj
      rw [hsame] at h
      obtain ⟨i, hlt, hreg, hopen⟩ := ih h
      refine ⟨i, by omega, hreg, fun k hk hkj => ?_⟩
      rcases (by omega : k < j ∨ k = j) with hkj | rfl
      · exact hopen k hk hkj
      · exact hj
    cases hat : actions[j]? with
    | none =>
      apply hkeep (by rw [before_succ_end hat])
      simp [Closes, hat]
    | some a =>
      have hnext : before start actions (j + 1) = _ := before_succ hat
      rcases a with (⟨intOk, termOk, initCb, cb⟩ | _) | _
      · have hj : ¬Closes actions j := by simp [Closes, hat]
        rcases init_cases (before start actions j) intOk termOk initCb cb with
          ⟨-, heq⟩ | ⟨-, mOldInt, mOldTerm, heq⟩ | ⟨hflag, heq⟩
        · apply hkeep _ hj
          rw [hnext]
          exact congrArg (fun p => p.2.mDeinitCallback) heq
        · apply hkeep _ hj
          rw [hnext]
          exact congrArg (fun p => p.2.mDeinitCallback) heq
        · have hcb : (before start actions (j + 1)).mDeinitCallback = cb := by
            rw [hnext]
            exact congrArg (fun p => p.2.mDeinitCallback) heq
          obtain rfl := hcb.symm.trans h
          refine ⟨j, by omega, ⟨hflag, intOk, termOk, initCb, hat, congrArg Prod.fst heq⟩, ?_⟩
          intro k hk hkj
          omega
      · rw [hnext, closing_clears (consistent_before hcons j) (Or.inl rfl)] at h
        cases h
      · rw [hnext, closing_clears (consistent_before hcons j) (Or.inr rfl)] at h
        cases h

theorem closing_at {i : ℕ} (h : Closes actions i) :
    ∃ a, actions[i]? = some a ∧ (a = .call .deinit ∨ a = .destructor) := by
  rcases h with h | h
  · exact ⟨_, h, Or.inl rfl⟩
  · exact ⟨_, h, Or.inr rfl⟩

/-- A registered callback is run by the first closing action after it. -/
theorem runs_of_registers {i j : ℕ} {deinitCb : Cb} (hreg : Registers start actions i deinitCb)
    (hfirst : ClosedFirst actions i j) : Runs start actions j deinitCb := by
  obtain ⟨hlt, hcloses, hopen⟩ := hfirst
  obtain ⟨hset, hstored⟩ := stored_of_registers hreg hlt hopen
  obtain ⟨a, hat, ha⟩ := closing_at hcloses
  exact ⟨a, hat, (closing_step ha hset).trans hstored⟩

/-- A callback that runs is the one of exactly one call. -/
theorem registers_of_runs {sigint sigterm : D} (hcons : Consistent start sigint sigterm)
    (hstart : start.mDeinitCallback = none) {j : ℕ} {deinitCb : Cb}
    (hruns : Runs start actions j deinitCb) :
    ∃! i, Registers start actions i deinitCb ∧ ClosedFirst actions i j := by
  obtain ⟨a, hat, hran⟩ := hruns
  obtain ⟨ha, hstored⟩ := ran_eq _ a hran
  obtain ⟨i, hlt, hreg, hopen⟩ := registers_of_stored hstart hcons hstored
  have hcloses : Closes actions j := by
    rw [Closes, hat]
    simpa using ha
  -- of two registrations the later one would have found the signals installed
  have hafter : ∀ i' k, Registers start actions i' deinitCb →
      Registers start actions k deinitCb → ClosedFirst actions i' j → k < j → ¬i' < k := by
    intro i' k hreg' hk hfirst hkj hik
    obtain ⟨hset, -⟩ := stored_of_registers hreg' hik fun m hm hmk => hfirst.2.2 m hm (by omega)
    rw [hk.1] at hset
    cases hset
  refine ⟨i, ⟨hreg, hlt, hcloses, hopen⟩, ?_⟩
  intro k ⟨hk, hfirst⟩
  have hle := hafter i k hreg hk ⟨hlt, hcloses, hopen⟩ hfirst.1
  have hge := hafter k i hk hreg hfirst hlt
  omega

/-- After every call there is a closing one, the destructor at the latest. -/
theorem exists_closedFirst (calls : List (Call Cb)) {i : ℕ}
    (hi : i < calls.length) : ∃ j, ClosedFirst (lifetime calls) i j := by
  classical
  have hlast : Closes (lifetime calls) calls.length := by
    right
    simp [lifetime]
  have hex : ∃ j, i < j ∧ Closes (lifetime calls) j := ⟨calls.length, hi, hlast⟩
  refine ⟨Nat.find hex, (Nat.find_spec hex).1, (Nat.find_spec hex).2, fun k hk hkj hcloses => ?_⟩
  exact Nat.find_min hex hkj ⟨hk, hcloses⟩

end Callbacks

section Transactions

theorem init_false {s : State L D Cb} {intOk termOk : Bool} {initCb : Option Bool}
    {deinitCb : Option Cb} (h : (s.init intOk termOk initCb deinitCb).1 = false) :
    ∃ mOldInt mOldTerm, (s.init intOk termOk initCb deinitCb).2 =
      { s with mOldInt := mOldInt, mOldTerm := mOldTerm } := by
  rcases init_cases s intOk termOk initCb deinitCb with
    ⟨-, heq⟩ | ⟨-, mOldInt, mOldTerm, heq⟩ | ⟨-, heq⟩
  · simp [heq] at h
  · exact ⟨mOldInt, mOldTerm, congrArg Prod.snd heq⟩
  · simp [heq] at h

/-- init and deinit are transactions. Both signals are handled while the flag is set and are what
they were at the start otherwise; a failed init leaves dispositions, flag and callback alone; and
a callback is run once for each call that registered it, by the first deinit or the destructor
after that call. -/
theorem init_deinit_transactional (loop : L) (zero sigint sigterm : D) (calls : List (Call Cb)) :
    let start : State L D Cb := construct loop zero sigint sigterm
    let actions := lifetime calls
    (∀ i, let s := before start actions i
      (s.sigint = .handler ∧ s.sigterm = .handler ↔ s.mSignalInstalled = true) ∧
      (s.mSignalInstalled = false → s.sigint = .foreign sigint ∧ s.sigterm = .foreign sigterm)) ∧
    (∀ i intOk termOk initCb deinitCb, let s := before start actions i
      let s' := before start actions (i + 1)
      actions[i]? = some (.call (.init intOk termOk initCb deinitCb)) →
      (s.init intOk termOk initCb deinitCb).1 = false →
      s'.sigint = s.sigint ∧ s'.sigterm = s.sigterm ∧
        s'.mSignalInstalled = s.mSignalInstalled ∧ s'.mDeinitCallback = s.mDeinitCallback) ∧
    (∀ i deinitCb, Registers start actions i deinitCb →
      ∃ j, ClosedFirst actions i j ∧ Runs start actions j deinitCb) ∧
    ∀ j deinitCb, Runs start actions j deinitCb →
      ∃! i, Registers start actions i deinitCb ∧ ClosedFirst actions i j := by
  intro start actions
  have hstart : Consistent start sigint sigterm := consistent_construct loop zero
  refine ⟨fun i => ?_, ?_, ?_, fun j deinitCb => registers_of_runs hstart rfl⟩
  · have hcons : Consistent (before start actions i) sigint sigterm := consistent_before hstart i
    refine ⟨⟨fun hboth => ?_, hcons.handled⟩, hcons.restored⟩
    by_contra hflag
    obtain ⟨hint, -⟩ := hcons.restored (by simpa using hflag)
    rw [hboth.1] at hint
    cases hint
  · intro i intOk termOk initCb deinitCb s s' hat hfalse
    obtain ⟨mOldInt, mOldTerm, heq⟩ := init_false hfalse
    have hs' : s' = { s with mOldInt := mOldInt, mOldTerm := mOldTerm } :=
      (before_succ hat).trans heq
    rw [hs']
    exact ⟨rfl, rfl, rfl, rfl⟩
  · intro i deinitCb hreg
    obtain ⟨-, intOk, termOk, initCb, hat, -⟩ := id hreg
    have hi : i < calls.length := by
      rcases Nat.lt_trichotomy i calls.length with hlt | rfl | hgt
      · exact hlt
      · simp [actions, lifetime] at hat
      · rw [List.getElem?_eq_none (by simp [actions, lifetime]; omega)] at hat
        cases hat
    obtain ⟨j, hfirst⟩ := exists_closedFirst calls hi
    exact ⟨j, hfirst, runs_of_registers hreg hfirst⟩

end Transactions

end CWrapper.Platform
