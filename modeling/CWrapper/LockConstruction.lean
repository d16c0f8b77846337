import Mathlib.Data.List.Basic
import Mathlib.Data.Int.Notation
import Mathlib.Data.Nat.Notation

/-!
The constructors of Mutex.h and CondVar.h, and the members of a class built one after the other.
Any pthread call can answer with any code. The constructor of Mutex has the test the wrong way
round, so that a Mutex is built exactly when pthread_mutex_init failed.
-/
namespace CWrapper.LockConstruction

/-- ABORT_IF. There is no result after abort(). -/
def abortIf (expr : Prop) [Decidable expr] : Option Unit :=
  if expr then none else some ()

@[simp]
theorem abortIf_eq_none (expr : Prop) [Decidable expr] : abortIf expr = none ↔ expr := by
  simp [abortIf]

theorem abortIf_bind_eq_none (expr : Prop) [Decidable expr] (rest : Unit → Option Unit) :
    (abortIf expr >>= rest) = none ↔ expr ∨ rest () = none := by
  by_cases h : expr <;> simp [abortIf, h]

def mutex (rc : ℤ) : Option Unit := abortIf (rc = 0)

/-- The codes of pthread_mutexattr_init, pthread_mutexattr_settype and pthread_mutex_init. -/
def recursiveMutex (attrInit settype init : ℤ) : Option Unit := do
  abortIf (attrInit ≠ 0)
  abortIf (settype ≠ 0)
  abortIf (init ≠ 0)

/-- The codes of pthread_condattr_init, pthread_condattr_setclock, pthread_cond_init and
pthread_condattr_destroy. -/
def condVar (attrInit setclock init attrDestroy : ℤ) : Option Unit := do
  abortIf (attrInit ≠ 0)
  abortIf (setclock ≠ 0)
  abortIf (init ≠ 0)
  abortIf (attrDestroy ≠ 0)

inductive Member
  | mutex (rc : ℤ)
  | recursiveMutex (attrInit settype init : ℤ)
  | condVar (attrInit setclock init attrDestroy : ℤ)
  deriving DecidableEq, Repr

namespace Member

def codes : Member → List ℤ
  | mutex rc => [rc]
  | recursiveMutex attrInit settype init => [attrInit, settype, init]
  | condVar attrInit setclock init attrDestroy => [attrInit, setclock, init, attrDestroy]

def construct : Member → Option Unit
  | mutex rc => LockConstruction.mutex rc
  | recursiveMutex attrInit settype init => LockConstruction.recursiveMutex attrInit settype init
  | condVar attrInit setclock init attrDestroy =>
      LockConstruction.condVar attrInit setclock init attrDestroy

def Failed (m : Member) : Prop := ∃ rc ∈ m.codes, rc ≠ 0

instance (m : Member) : Decidable m.Failed := inferInstanceAs (Decidable (∃ rc ∈ m.codes, rc ≠ 0))

def isMutex : Member → Bool
  | mutex _ => true
  | recursiveMutex .. | condVar .. => false

theorem not_failed_iff (m : Member) : ¬m.Failed ↔ ∀ rc ∈ m.codes, rc = 0 := by
  simp [Failed]

/-- A Mutex aborts exactly when its code tells of no failure. -/
theorem construct_mutex (rc : ℤ) : (mutex rc).construct = none ↔ ¬(mutex rc).Failed := by
  simp [construct, LockConstruction.mutex, Failed, codes]

/-- The two other constructors abort when a call has failed. -/
theorem construct_eq_none {m : Member} (h : m.isMutex = false) :
    m.construct = none ↔ m.Failed := by
  cases m with
  | mutex rc => cases h
  | recursiveMutex attrInit settype init =>
    rw [construct, LockConstruction.recursiveMutex, abortIf_bind_eq_none, abortIf_bind_eq_none,
      abortIf_eq_none]
    simp [Failed, codes]
  | condVar attrInit setclock init attrDestroy =>
    rw [construct, LockConstruction.condVar, abortIf_bind_eq_none, abortIf_bind_eq_none,
      abortIf_bind_eq_none, abortIf_eq_none]
    simp [Failed, codes]

end Member

/-- The members are constructed in order. The result is the one whose constructor aborts. -/
def construct : List Member → Option ℕ
  | [] => none
  | m :: members =>
    match m.construct with
    | none => some 0
    | some () => (construct members).map (· + 1)

def workerThread (mLifecycleLock mStateLock : ℤ) (mStateCv mSleepCv : ℤ × ℤ × ℤ × ℤ) :
    List Member :=
  [.mutex mLifecycleLock, .mutex mStateLock,
    .condVar mStateCv.1 mStateCv.2.1 mStateCv.2.2.1 mStateCv.2.2.2,
    .condVar mSleepCv.1 mSleepCv.2.1 mSleepCv.2.2.1 mSleepCv.2.2.2]

/-- All goes well when no tested code tells of a failure, and otherwise the first member that has
such a code is the one that aborts. -/
def AbortsExactly (members : List Member) : Prop :=
  (construct members = none ↔ ∀ m ∈ members, ∀ rc ∈ m.codes, rc = 0) ∧
  ∀ i, construct members = some i → members.findIdx? (fun m => decide m.Failed) = some i

/-- Every Mutex comes after a member of another kind that has failed. -/
def NoMutexReached (members : List Member) : Prop :=
  ∀ before rc after, members = before ++ .mutex rc :: after →
    ∃ m ∈ before, m.isMutex = false ∧ m.Failed

/-- The constructors abort as they should when the construction ends at the first member that
failed. -/
theorem abortsExactly_iff (members : List Member) :
    AbortsExactly members ↔
      construct members = members.findIdx? (fun m => decide m.Failed) := by
  have hnone : members.findIdx? (fun m => decide m.Failed) = none ↔
      ∀ m ∈ members, ∀ rc ∈ m.codes, rc = 0 := by
    rw [List.findIdx?_eq_none_iff]
    simp only [decide_eq_false_iff_not, Member.not_failed_iff]
  unfold AbortsExactly
  rw [← hnone]
  constructor
  · intro ⟨hends, haborts⟩
    cases hc : construct members with
    | none => exact (hends.mp hc).symm
    | some i => exact (haborts i hc).symm
  · intro h
    rw [h]
    exact ⟨Iff.rfl, fun i hi => hi⟩

theorem not_noMutexReached_mutex (rc : ℤ) (members : List Member) :
    ¬NoMutexReached (.mutex rc :: members) := by
  intro h
  obtain ⟨m, hm, -⟩ := h [] rc members rfl
  cases hm

theorem noMutexReached_cons {m : Member} (h : m.isMutex = false) (members : List Member) :
    NoMutexReached (m :: members) ↔ m.Failed ∨ NoMutexReached members := by
  constructor
  · intro hreach
    by_cases hfailed : m.Failed
    · exact Or.inl hfailed
    · refine Or.inr fun before rc after heq => ?_
      obtain ⟨m', hm', hkind, hf⟩ := hreach (m :: before) rc after (by rw [heq]; rfl)
      rcases List.mem_cons.mp hm' with rfl | hmem
      · exact absurd hf hfailed
      · exact ⟨m', hmem, hkind, hf⟩
  · intro hor before rc after heq
    cases before with
    | nil =>
      obtain ⟨rfl, -⟩ := List.cons.inj heq
      cases h
    | cons m' before =>
      obtain ⟨rfl, htail⟩ := List.cons.inj heq
      rcases hor with hfailed | hreach
      · exact ⟨m, List.mem_cons_self, h, hfailed⟩
      · obtain ⟨m', hm', hfound⟩ := hreach before rc after htail
        exact ⟨m', List.mem_cons_of_mem m hm', hfound⟩

theorem construct_cons_mutex_ne (rc : ℤ) (members : List Member) :
    construct (.mutex rc :: members) ≠
      (Member.mutex rc :: members).findIdx? fun m => decide m.Failed := by
  by_cases hfailed : (Member.mutex rc).Failed
  · have hsome : (Member.mutex rc).construct ≠ none := by
      rw [Ne, Member.construct_mutex]
      simpa using hfailed
    obtain ⟨⟨⟩, hc⟩ := Option.ne_none_iff_exists'.mp hsome
    simp [construct, hc, hfailed, List.findIdx?_cons]
  · have hnone := (Member.construct_mutex rc).mpr hfailed
    cases hrest : members.findIdx? fun m => decide m.Failed with
    | none => simp [construct, hnone, hfailed, List.findIdx?_cons, hrest]
    | some i => simp [construct, hnone, hfailed, List.findIdx?_cons, hrest]

theorem construct_cons_eq_iff {m : Member} (h : m.isMutex = false) (members : List Member) :
    (construct (m :: members) = (m :: members).findIdx? fun m => decide m.Failed) ↔
      m.Failed ∨ construct members = members.findIdx? fun m => decide m.Failed := by
  by_cases hfailed : m.Failed
  · have hnone := (Member.construct_eq_none h).mpr hfailed
    simp [construct, hnone, hfailed, List.findIdx?_cons]
  · have hsome : m.construct ≠ none := by
      rwa [Ne, Member.construct_eq_none h]
    obtain ⟨⟨⟩, hc⟩ := Option.ne_none_iff_exists'.mp hsome
    have hinj : Function.Injective (Option.map fun i : ℕ => i + 1) :=
      Option.map_injective fun i j hij => Nat.succ.inj hij
    simp only [construct, hc, List.findIdx?_cons, hfailed, decide_false, false_or]
    exact hinj.eq_iff

/-- The abort comes where the codes ask for it when no Mutex is reached, and only then. -/
theorem aborts_exactly_iff (members : List Member) :
    AbortsExactly members ↔ NoMutexReached members := by
  rw [abortsExactly_iff]
  induction members with
  | nil =>
    simp [construct, NoMutexReached]
  | cons m members ih =>
    cases hkind : m.isMutex with
    | true =>
      cases m with
      | mutex rc =>
        exact iff_of_false (construct_cons_mutex_ne rc members)
          (not_noMutexReached_mutex rc members)
      | recursiveMutex attrInit settype init => cases hkind
      | condVar attrInit setclock init attrDestroy => cases hkind
    | false =>
      rw [construct_cons_eq_iff hkind, noMutexReached_cons hkind, ih]

/-- No WorkerThread can be built when all calls succeed. -/
theorem workerThread_aborts :
    ¬AbortsExactly (workerThread 0 0 (0, 0, 0, 0) (0, 0, 0, 0)) := by
  intro h
  have hends := h.1.mpr (by decide)
  simp [construct, workerThread, Member.construct, mutex, abortIf] at hends

end CWrapper.LockConstruction
