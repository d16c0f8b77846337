import CWrapper.SyncQueue

/-!
What one step of the queue can do. The relation is read off the program once; it says which
section ran, what it found and what it did.
-/
namespace CWrapper.SyncQueue

variable {T Th : Type} {Capacity : ℕ+}

/-- To take mLock and to test the loop's condition. -/
def WaitPoint.tests : WaitPoint → Bool
  | .enter | .woken false => true
  | _ => false

def ThreadPoint.isEntry : ThreadPoint T → Bool
  | .put _ _ .enter | .get _ _ .enter | .putForce _ | .flush false | .setEOS _ => true
  | _ => false

def State.putFails (s : State T Th Capacity) (ms : ℤ) (point : WaitPoint) : Prop :=
  point = .woken true ∨
    point.tests = true ∧ (s.mQueue.isFull = true ∧ ms = 0 ∨ s.mEOS = true)

def State.getFails (s : State T Th Capacity) (ms : ℤ) (point : WaitPoint) : Prop :=
  point = .woken true ∨
    point.tests = true ∧ (s.mQueue.isEmpty = true ∧ ms = 0 ∨ s.mEOS = true)

def State.front (s : State T Th Capacity) : T := s.mQueue.mBuffer s.mQueue.mFront

theorem get_target {moved : T → T} {s : State T Th Capacity} (h : s.mQueue.isEmpty = false)
    (t : Option T) : (s.mQueue.get (assign moved) t).1.2.1 = t.map fun _ => s.front := by
  cases t with
  | none => rw [CircularQueue.get_null h]; rfl
  | some t => rw [CircularQueue.get_eq h]; rfl

theorem isEmpty_of_isFull {q : CircularQueue T Capacity} (h : q.isFull = true) :
    q.isEmpty = false := by
  have hpos := Capacity.pos
  simp only [CircularQueue.isFull, ge_iff_le, decide_eq_true_eq] at h
  simp only [CircularQueue.isEmpty, beq_eq_false_iff_ne]
  omega

variable [Inhabited T] [DecidableEq Th] (moved : T → T)

inductive Moves (s : State T Th Capacity) : Action T Th → State T Th Capacity → Prop
  | tick (d : ℕ) : Moves s (.tick d) { s with now := s.now + d }
  | call {a : Action T Th} {th : Th} {p : ThreadPoint T} : s.thread th = .idle →
      p.isEntry = true → (∀ u choice, a ≠ .resume u choice) → Moves s a (s.goto th p)
  | putFail {th : Th} {choice : ℕ} {t : T} {ms : ℤ} {point : WaitPoint} :
      s.thread th = .put t ms point → s.putFails ms point →
      Moves s (.resume th choice) (s.return th (.put false))
  | getFail {th : Th} {choice : ℕ} {t : Option T} {ms : ℤ} {point : WaitPoint} :
      s.thread th = .get t ms point → s.getFails ms point →
      Moves s (.resume th choice) (s.return th (.get false t))
  | putForceFail {th : Th} {choice : ℕ} {t : T} : s.thread th = .putForce t → s.mEOS = true →
      Moves s (.resume th choice) (s.return th (.putForce (some false)))
  | putBlock {th : Th} {choice : ℕ} {t : T} {ms : ℤ} {point : WaitPoint} {e : Option ℕ} :
      s.thread th = .put t ms point → point.tests = true → s.mQueue.isFull = true →
      s.mEOS = false → (∀ expireTime ∈ e, 0 < ms ∧ expireTime = s.now + ms.toNat) →
      Moves s (.resume th choice)
        { s.goto th (.put t ms (.blocked e)) with mCvFull := s.mCvFull ++ [th] }
  | getBlock {th : Th} {choice : ℕ} {t : Option T} {ms : ℤ} {point : WaitPoint} {e : Option ℕ} :
      s.thread th = .get t ms point → point.tests = true → s.mQueue.isEmpty = true →
      s.mEOS = false → (∀ expireTime ∈ e, 0 < ms ∧ expireTime = s.now + ms.toNat) →
      Moves s (.resume th choice)
        { s.goto th (.get t ms (.blocked e)) with mCvEmpty := s.mCvEmpty ++ [th] }
  | put {th : Th} {choice : ℕ} {t : T} {ms : ℤ} {point : WaitPoint} :
      s.thread th = .put t ms point → point.tests = true → s.mQueue.isFull = false →
      s.mEOS = false → mayChoose s.mCvEmpty choice = true →
      Moves s (.resume th choice)
        (((s.enqueue moved t).signalEmpty choice).return th (.put true))
  | get {th : Th} {choice : ℕ} {t : Option T} {ms : ℤ} {point : WaitPoint} :
      s.thread th = .get t ms point → point.tests = true → s.mQueue.isEmpty = false →
      s.mEOS = false → mayChoose s.mCvFull choice = true →
      Moves s (.resume th choice)
        (((s.dequeue moved t .got).signalFull choice).return th
          (.get true (t.map fun _ => s.front)))
  | putForce {th : Th} {choice : ℕ} {t : T} : s.thread th = .putForce t →
      s.mQueue.isFull = false → s.mEOS = false → mayChoose s.mCvEmpty choice = true →
      Moves s (.resume th choice)
        (((s.enqueue moved t).signalEmpty choice).return th (.putForce none))
  | evict {th : Th} {choice : ℕ} {t : T} : s.thread th = .putForce t →
      s.mQueue.isFull = true → s.mEOS = false → mayChoose s.mCvEmpty choice = true →
      Moves s (.resume th choice)
        ((((s.dequeue moved (some default) .evicted).enqueue moved t).signalEmpty choice).goto th
          (.putForceDispose s.removed.length s.front))
  | putForceDispose {th : Th} {choice k : ℕ} {d : T} : s.thread th = .putForceDispose k d →
      Moves s (.resume th choice) ((s.dispose k d).return th (.putForce none))
  | flushEnd {th : Th} {choice : ℕ} {removedAny : Bool} : s.thread th = .flush removedAny →
      s.mQueue.isEmpty = true → Moves s (.resume th choice) (s.goto th .flushBroadcast)
  | flushItem {th : Th} {choice : ℕ} {removedAny : Bool} : s.thread th = .flush removedAny →
      s.mQueue.isEmpty = false →
      Moves s (.resume th choice) ((s.dequeue moved (some default) .flushed).goto th
        (.flushDispose s.removed.length s.front))
  | flushDispose {th : Th} {choice k : ℕ} {d : T} : s.thread th = .flushDispose k d →
      Moves s (.resume th choice) ((s.dispose k d).goto th (.flush true))
  | flushBroadcast {th : Th} {choice : ℕ} : s.thread th = .flushBroadcast →
      Moves s (.resume th choice)
        ({ s with mCvFull := [], thread := wakeAll s.mCvFull s.thread }.return th .flush)
  | storeEOS {th : Th} {choice : ℕ} {eos : Bool} : s.thread th = .setEOS eos →
      Moves s (.resume th choice) ({ s with mEOS := eos }.goto th .broadcastFull)
  | broadcastFull {th : Th} {choice : ℕ} : s.thread th = .broadcastFull →
      Moves s (.resume th choice)
        ({ s with mCvFull := [], thread := wakeAll s.mCvFull s.thread }.goto th .broadcastEmpty)
  | broadcastEmpty {th : Th} {choice : ℕ} : s.thread th = .broadcastEmpty →
      Moves s (.resume th choice)
        ({ s with mCvEmpty := [], thread := wakeAll s.mCvEmpty s.thread }.return th .setEOS)
  | putLeave {a : Action T Th} {th : Th} {timedOut : Bool} {t : T} {ms : ℤ} {e : Option ℕ} :
      s.thread th = .put t ms (.blocked e) → (∀ u choice, a ≠ .resume u choice) →
      Moves s a (s.leaveWait th timedOut)
  | getLeave {a : Action T Th} {th : Th} {timedOut : Bool} {t : Option T} {ms : ℤ}
      {e : Option ℕ} :
      s.thread th = .get t ms (.blocked e) → (∀ u choice, a ≠ .resume u choice) →
      Moves s a (s.leaveWait th timedOut)

variable {moved} {s s' : State T Th Capacity} {th : Th} {choice : ℕ}

theorem expireTime_pos {now : ℕ} {ms : ℤ} (h : ms ≠ 0) :
    ∀ expire ∈ expireTime now ms, 0 < ms ∧ expire = now + ms.toNat := by
  intro expire he
  unfold expireTime at he
  split at he
  · simp at he
  · obtain rfl := Option.some.inj he
    exact ⟨by omega, rfl⟩

/-- The outcomes of the section of put(): it gives up, waits, or puts the item in. -/
theorem putSection_moves {t : T} {ms : ℤ} {point : WaitPoint}
    (hp : s.thread th = .put t ms point) (htests : point.tests = true)
    (hs : putSection moved s th t ms choice = some s') :
    Moves moved s (.resume th choice) s' := by
  unfold putSection at hs
  by_cases hfull : s.mQueue.isFull = true
  · cases heos : s.mEOS with
    | true =>
      simp only [hfull, heos, Bool.not_true, Bool.and_false, Bool.false_eq_true, if_false,
        if_true, Option.some.injEq] at hs
      subst hs
      exact .putFail hp (Or.inr ⟨htests, Or.inr heos⟩)
    | false =>
      simp only [hfull, heos, Bool.not_false, Bool.and_true, if_true] at hs
      split at hs
      · obtain rfl := Option.some.inj hs
        exact .putBlock hp htests hfull heos (by simp)
      · split at hs
        · rename_i hms
          obtain rfl := Option.some.inj hs
          exact .putFail hp (Or.inr ⟨htests, Or.inl ⟨hfull, hms⟩⟩)
        · rename_i hms
          obtain rfl := Option.some.inj hs
          exact .putBlock hp htests hfull heos (expireTime_pos hms)
  · simp only [hfull, Bool.false_and, Bool.false_eq_true, if_false] at hs
    split at hs
    · rename_i heos
      obtain rfl := Option.some.inj hs
      exact .putFail hp (Or.inr ⟨htests, Or.inr heos⟩)
    · rename_i heos
      obtain ⟨hmay, hs⟩ := Option.ite_none_right_eq_some.mp hs
      obtain rfl := Option.some.inj hs
      exact .put hp htests (by simpa using hfull) (by simpa using heos) hmay

/-- The outcomes of the section of get(). -/
theorem getSection_moves {t : Option T} {ms : ℤ} {point : WaitPoint}
    (hp : s.thread th = .get t ms point) (htests : point.tests = true)
    (hs : getSection moved s th t ms choice = some s') :
    Moves moved s (.resume th choice) s' := by
  unfold getSection at hs
  by_cases hempty : s.mQueue.isEmpty = true
  · cases heos : s.mEOS with
    | true =>
      simp only [hempty, heos, Bool.not_true, Bool.and_false, Bool.false_eq_true, if_false,
        if_true, Option.some.injEq] at hs
      subst hs
      exact .getFail hp (Or.inr ⟨htests, Or.inr heos⟩)
    | false =>
      simp only [hempty, heos, Bool.not_false, Bool.and_true, if_true] at hs
      split at hs
      · obtain rfl := Option.some.inj hs
        exact .getBlock hp htests hempty heos (by simp)
      · split at hs
        · rename_i hms
          obtain rfl := Option.some.inj hs
          exact .getFail hp (Or.inr ⟨htests, Or.inl ⟨hempty, hms⟩⟩)
        · rename_i hms
          obtain rfl := Option.some.inj hs
          exact .getBlock hp htests hempty heos (expireTime_pos hms)
  · have hsome : s.mQueue.isEmpty = false := by simpa using hempty
    simp only [hsome, Bool.false_and, Bool.false_eq_true, if_false] at hs
    split at hs
    · rename_i heos
      obtain rfl := Option.some.inj hs
      exact .getFail hp (Or.inr ⟨htests, Or.inr heos⟩)
    · rename_i heos
      obtain ⟨hmay, hs⟩ := Option.ite_none_right_eq_some.mp hs
      rw [get_target hsome] at hs
      obtain rfl := Option.some.inj hs
      exact .get hp htests hsome (by simpa using heos) hmay

/-- The outcomes of the section of putForce(), with an eviction or without. -/
theorem putForceSection_moves {t : T} (hp : s.thread th = .putForce t)
    (hs : putForceSection moved s th t choice = some s') :
    Moves moved s (.resume th choice) s' := by
  unfold putForceSection at hs
  split at hs
  · rename_i heos
    obtain rfl := Option.some.inj hs
    exact .putForceFail hp heos
  · rename_i heos
    obtain ⟨hmay, hs⟩ := Option.ite_none_right_eq_some.mp hs
    split at hs
    · rename_i hfull
      rw [get_target (isEmpty_of_isFull hfull)] at hs
      obtain rfl := Option.some.inj hs
      exact .evict hp hfull (by simpa using heos) hmay
    · rename_i hfull
      obtain rfl := Option.some.inj hs
      exact .putForce hp (by simpa using hfull) (by simpa using heos) hmay

theorem flushSection_moves {removedAny : Bool} (hp : s.thread th = .flush removedAny) :
    Moves moved s (.resume th choice) (flushSection moved s th) := by
  unfold flushSection
  split
  · rename_i hempty
    exact .flushEnd hp hempty
  · rename_i hempty
    have hsome : s.mQueue.isEmpty = false := by simpa using hempty
    rw [get_target hsome]
    exact .flushItem hp hsome

theorem threadStep_moves (hs : threadStep moved s th choice = some s') :
    Moves moved s (.resume th choice) s' := by
  unfold threadStep at hs
  split at hs
  · simp at hs
  · simp at hs
  · simp at hs
  · exact putSection_moves ‹_› rfl hs
  · exact putSection_moves ‹_› rfl hs
  · obtain rfl := Option.some.inj hs
    exact .putFail ‹_› (Or.inl rfl)
  · exact getSection_moves ‹_› rfl hs
  · exact getSection_moves ‹_› rfl hs
  · obtain rfl := Option.some.inj hs
    exact .getFail ‹_› (Or.inl rfl)
  · exact putForceSection_moves ‹_› hs
  · obtain rfl := Option.some.inj hs
    exact .putForceDispose ‹_›
  · obtain rfl := Option.some.inj hs
    exact flushSection_moves ‹_›
  · obtain rfl := Option.some.inj hs
    exact .flushDispose ‹_›
  · obtain rfl := Option.some.inj hs
    exact .flushBroadcast ‹_›
  · obtain rfl := Option.some.inj hs
    exact .storeEOS ‹_›
  · obtain rfl := Option.some.inj hs
    exact .broadcastFull ‹_›
  · obtain rfl := Option.some.inj hs
    exact .broadcastEmpty ‹_›

omit [Inhabited T] in
theorem call_eq {p : ThreadPoint T} (hs : s.call th p = some s') :
    s.thread th = .idle ∧ s' = s.goto th p := by
  unfold State.call at hs
  split at hs
  · rename_i hidle
    exact ⟨hidle, (Option.some.inj hs).symm⟩
  · cases hs

theorem call_moves {a : Action T Th} {p : ThreadPoint T} (hentry : p.isEntry = true)
    (hother : ∀ u choice, a ≠ .resume u choice) (hs : s.call th p = some s') :
    Moves moved s a s' := by
  obtain ⟨hidle, rfl⟩ := call_eq hs
  exact .call hidle hentry hother

/-- The case analysis of the steps, done once. -/
theorem step_moves {a : Action T Th} (hs : step moved s a = some s') : Moves moved s a s' := by
  cases a with
  | tick d =>
    obtain rfl := Option.some.inj hs
    exact .tick d
  | put | get | putForce | flush | setEOS => exact call_moves rfl (by simp) hs
  | resume th choice => exact threadStep_moves hs
  | spurious th =>
    simp only [step] at hs
    split at hs
    · obtain rfl := Option.some.inj hs
      exact .putLeave ‹_› (by simp)
    · obtain rfl := Option.some.inj hs
      exact .getLeave ‹_› (by simp)
    · simp at hs
  | timeout th =>
    simp only [step] at hs
    split at hs
    · obtain ⟨-, hs⟩ := Option.ite_none_right_eq_some.mp hs
      obtain rfl := Option.some.inj hs
      exact .putLeave ‹_› (by simp)
    · obtain ⟨-, hs⟩ := Option.ite_none_right_eq_some.mp hs
      obtain rfl := Option.some.inj hs
      exact .getLeave ‹_› (by simp)
    · simp at hs

end CWrapper.SyncQueue
