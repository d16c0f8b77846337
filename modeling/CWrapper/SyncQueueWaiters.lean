import CWrapper.SyncQueueHistory
import CWrapper.Waiting

/-!
The two condition variables are two sets of waiters: those of mCvEmpty wait for items, those of
mCvFull for free cells.
-/
namespace CWrapper.SyncQueue

open Transition WaitSet

variable {T Th : Type} {Capacity : ℕ+}

inductive Condition
  | full
  | empty
  deriving DecidableEq

def ThreadPoint.waits : Condition → ThreadPoint T → Bool
  | .full, .put _ _ (.blocked _) => true
  | .empty, .get _ _ (.blocked _) => true
  | _, _ => false

/-- Woken, but not to give up: the thread will test the queue again. -/
def ThreadPoint.retries : Condition → ThreadPoint T → Bool
  | .full, .put _ _ (.woken false) => true
  | .empty, .get _ _ (.woken false) => true
  | _, _ => false

/-- The call has changed the queue and has yet to broadcast. -/
def ThreadPoint.owes : Condition → ThreadPoint T → Bool
  | .full, .flush true | .full, .flushDispose _ _ | .full, .flushBroadcast => true
  | _, .broadcastFull => true
  | .empty, .broadcastEmpty => true
  | _, _ => false

/-- Out of a wait, and not yet in possession of mLock. -/
def ThreadPoint.woken : ThreadPoint T → Bool
  | .put _ _ (.woken _) | .get _ _ (.woken _) => true
  | _ => false

def State.waiters (s : State T Th Capacity) : Condition → List Th
  | .full => s.mCvFull
  | .empty => s.mCvEmpty

/-- What the waiters of a condition wait for: free cells, or items. -/
def State.units (s : State T Th Capacity) : Condition → ℕ
  | .full => Capacity - s.mQueue.mSize
  | .empty => s.mQueue.mSize

/-- The waiters of a condition are those in its waits, and `units` are covered. -/
structure Attended (c : Condition) (units : ℕ) (s : State T Th Capacity) : Prop where
  mem : ∀ th, th ∈ s.waiters c ↔ (s.thread th).waits c = true
  nodup : (s.waiters c).Nodup
  covered : Covered s.mEOS (s.waiters c) units (fun u => (s.thread u).retries c = true)
    (∃ u, (s.thread u).owes c = true)

variable {c : Condition} {p : ThreadPoint T}

/-- The waiters of a condition are the calls of one function. -/
theorem waits_cases (h : p.waits c = true) :
    (∃ t ms e, c = .full ∧ p = .put t ms (.blocked e)) ∨
      ∃ t ms e, c = .empty ∧ p = .get t ms (.blocked e) := by
  unfold ThreadPoint.waits at h
  split at h
  · exact Or.inl ⟨_, _, _, rfl, rfl⟩
  · exact Or.inr ⟨_, _, _, rfl, rfl⟩
  · simp at h

theorem waits_wake {timedOut : Bool} : (p.wake timedOut).waits c = false := by
  rcases p with _ | ⟨_, _, _ | _ | _⟩ | ⟨_, _, _ | _ | _⟩ <;> cases c <;> rfl

theorem retries_of_waits (h : p.waits c = true) : p.retries c = false := by
  obtain ⟨t, ms, e, rfl, rfl⟩ | ⟨t, ms, e, rfl, rfl⟩ := waits_cases h <;> rfl

theorem retries_wake (h : p.waits c = true) : (p.wake false).retries c = true := by
  obtain ⟨t, ms, e, rfl, rfl⟩ | ⟨t, ms, e, rfl, rfl⟩ := waits_cases h <;> rfl

theorem owes_wake {timedOut : Bool} : (p.wake timedOut).owes c = p.owes c := by
  rcases p with _ | ⟨_, _, _ | _ | _⟩ | ⟨_, _, _ | _ | _⟩ <;> cases c <;> rfl

/-- Waking a waiter of one condition is nothing to the other. -/
theorem waits_wake_other {d : Condition} (h : p.waits d = true) (hd : d ≠ c) (timedOut : Bool) :
    p.waits c = false ∧ (p.wake timedOut).retries c = p.retries c := by
  obtain ⟨t, ms, e, rfl, rfl⟩ | ⟨t, ms, e, rfl, rfl⟩ := waits_cases h
  · cases c with
    | full => exact absurd rfl hd
    | empty => exact ⟨rfl, rfl⟩
  · cases c with
    | full => exact ⟨rfl, rfl⟩
    | empty => exact absurd rfl hd

theorem chosen {ws : List Th} {choice : ℕ} (hmay : mayChoose ws choice = true)
    (h : ws[choice]? = none) :
    ws = [] := by
  rw [List.getElem?_eq_none_iff] at h
  simp only [mayChoose, Bool.or_eq_true, List.isEmpty_iff, decide_eq_true_eq] at hmay
  exact hmay.resolve_right (by omega)

/-- No thread is on its way out of a wait, and no flush or setEOS owes a broadcast. -/
def Quiescent (s : State T Th Capacity) : Prop :=
  ∀ th, (s.thread th).woken = false ∧ ∀ c, (s.thread th).owes c = false

theorem retries_woken (h : p.woken = false) : p.retries c = false := by
  rcases p with _ | ⟨_, _, _ | _ | _⟩ | ⟨_, _, _ | _ | _⟩ <;> cases c <;>
    first | rfl | simp [ThreadPoint.woken] at h

/-- With no wake-up under way, a waiter has nothing to go on with. -/
theorem Attended.settled {s : State T Th Capacity} {th : Th} (h : Attended c (s.units c) s)
    (hq : Quiescent s)
    (hth : (s.thread th).waits c = true) : s.mEOS = false ∧ s.units c = 0 :=
  h.covered.settled ((h.mem th).mpr hth)
    (fun u => by simp [retries_woken (hq u).1]) (by simp [fun u => (hq u).2 c])

theorem Attended.mono {s : State T Th Capacity} {units units' : ℕ} (h : Attended c units s)
    (hle : units' ≤ units) : Attended c units' s :=
  ⟨h.mem, h.nodup, h.covered.mono id hle (fun _ => id) id⟩

theorem put_tests {point : WaitPoint} {t : T} {ms : ℤ} (h : point.tests = true) :
    (ThreadPoint.put t ms point).waits c = false := by
  rcases point with _ | _ | _ <;> cases c <;> first | rfl | simp [WaitPoint.tests] at h

theorem get_tests {point : WaitPoint} {t : Option T} {ms : ℤ} (h : point.tests = true) :
    (ThreadPoint.get t ms point).waits c = false := by
  rcases point with _ | _ | _ <;> cases c <;> first | rfl | simp [WaitPoint.tests] at h

theorem entry_waits (h : p.isEntry = true) : p.waits c = false := by
  by_contra hw
  obtain ⟨t, ms, e, rfl, rfl⟩ | ⟨t, ms, e, rfl, rfl⟩ := waits_cases (by simpa using hw) <;>
    simp [ThreadPoint.isEntry] at h

section Threads

variable [DecidableEq Th] {s s' : State T Th Capacity} {th : Th} {units units' choice : ℕ}

theorem mem_update {thread : Th → ThreadPoint T} {ws : List Th}
    (h : ∀ u, u ∈ ws ↔ (thread u).waits c = true) (hth : (thread th).waits c = false)
    (hp : p.waits c = false) (u : Th) :
    u ∈ ws ↔ (Function.update thread th p u).waits c = true := by
  by_cases hu : u = th
  · subst hu
    simp [h, hth, hp]
  · rw [Function.update_of_ne hu]
    exact h u

theorem owes_update {thread : Th → ThreadPoint T}
    (hp : (thread th).owes c = true → p.owes c = true) (h : ∃ u, (thread u).owes c = true) :
    ∃ u, (Function.update thread th p u).owes c = true := by
  obtain ⟨u, hu⟩ := h
  by_cases hut : u = th
  · subst hut
    exact ⟨u, by rw [Function.update_self]; exact hp hu⟩
  · exact ⟨u, by rw [Function.update_of_ne hut]; exact hu⟩

theorem owes_self {thread : Th → ThreadPoint T} (hp : p.owes c = true) :
    ∃ u, (Function.update thread th p u).owes c = true :=
  ⟨th, by rw [Function.update_self]; exact hp⟩

/-- A thread that does not wait moves on; if it was to try, it takes at most one unit. -/
theorem Attended.goto (h : Attended c units s) (hth : (s.thread th).waits c = false)
    (hp : p.waits c = false) (howes : (s.thread th).owes c = true → p.owes c = true)
    (hle : units' ≤ units) (htake : (s.thread th).retries c = true → units' ≤ units - 1) :
    Attended c units' (s.goto th p) where
  mem := mem_update h.mem hth hp
  nodup := h.nodup
  covered := by
    have hother (u : Th) (hu : u ≠ th) : (s.goto th p).thread u = s.thread u :=
      Function.update_of_ne hu ..
    by_cases hretries : (s.thread th).retries c = true
    · refine Covered.take th h.covered (htake hretries) (fun u hu hr => ?_)
        (owes_update howes)
      rw [hother u hu]
      exact hr
    · refine h.covered.mono id hle (fun u hr => ?_) (owes_update howes)
      rw [hother u (by rintro rfl; exact hretries hr)]
      exact hr

/-- A thread that does not wait moves on to owe a broadcast. -/
theorem Attended.owe (h : Attended c units s) (hth : (s.thread th).waits c = false)
    (hp : p.waits c = false) (howes : p.owes c = true) (eos : Bool) (units' : ℕ) :
    Attended c units' ({ s with mEOS := eos }.goto th p) where
  mem := mem_update h.mem hth hp
  nodup := h.nodup
  covered := .of_owed (owes_self howes)

/-- What a signal does: it wakes one of the waiters, if there are any. -/
structure Signals (d : Condition) (s s' : State T Th Capacity) : Prop where
  eos : s'.mEOS = s.mEOS
  queue : s'.mQueue = s.mQueue
  others : ∀ e, e ≠ d → s'.waiters e = s.waiters e
  wakes : s.waiters d = [] ∧ s'.waiters d = [] ∧ s'.thread = s.thread ∨
    ∃ u ∈ s.waiters d, s'.waiters d = (s.waiters d).erase u ∧
      s'.thread = Function.update s.thread u ((s.thread u).wake false)

theorem eraseIdx_eq_erase {α : Type*} [DecidableEq α] {l : List α} {i : ℕ} {x : α}
    (hnodup : l.Nodup) (h : l[i]? = some x) : l.eraseIdx i = l.erase x := by
  obtain ⟨hlt, rfl⟩ := List.getElem?_eq_some_iff.mp h
  exact (hnodup.erase_getElem i hlt).symm

theorem signalEmpty_signals (hnodup : s.mCvEmpty.Nodup)
    (hmay : mayChoose s.mCvEmpty choice = true) : Signals .empty s (s.signalEmpty choice) := by
  unfold State.signalEmpty
  split
  · rename_i hnone
    have hnil := chosen hmay hnone
    exact ⟨rfl, rfl, fun _ _ => rfl, Or.inl ⟨hnil, hnil, rfl⟩⟩
  · rename_i u hu
    refine ⟨rfl, rfl, fun e he => ?_, Or.inr ⟨u, List.mem_of_getElem? hu, ?_, rfl⟩⟩
    · cases e with
      | full => rfl
      | empty => exact absurd rfl he
    · exact eraseIdx_eq_erase hnodup hu

theorem signalFull_signals (hnodup : s.mCvFull.Nodup)
    (hmay : mayChoose s.mCvFull choice = true) : Signals .full s (s.signalFull choice) := by
  unfold State.signalFull
  split
  · rename_i hnone
    have hnil := chosen hmay hnone
    exact ⟨rfl, rfl, fun _ _ => rfl, Or.inl ⟨hnil, hnil, rfl⟩⟩
  · rename_i u hu
    refine ⟨rfl, rfl, fun e he => ?_, Or.inr ⟨u, List.mem_of_getElem? hu, ?_, rfl⟩⟩
    · cases e with
      | full => exact absurd rfl he
      | empty => rfl
    · exact eraseIdx_eq_erase hnodup hu

theorem Signals.thread_eq {d : Condition} (hs : Signals d s s')
    (hmem : ∀ u, u ∈ s.waiters d ↔ (s.thread u).waits d = true)
    (hth : (s.thread th).waits d = false) : s'.thread th = s.thread th := by
  rcases hs.wakes with ⟨-, -, hthread⟩ | ⟨u, hu, -, hthread⟩
  · rw [hthread]
  · rw [hthread, Function.update_of_ne]
    rintro rfl
    simp [(hmem th).mp hu] at hth

/-- The signal covers one more unit of its own condition. -/
theorem Attended.signal (h : Attended c units s) (hs : Signals c s s') :
    Attended c (units + 1) s' := by
  rcases hs.wakes with ⟨hnil, hnil', hthread⟩ | ⟨u, hu, herase, hthread⟩
  · refine ⟨fun th => ?_, ?_, ?_⟩
    · rw [hnil', hthread, ← hnil]
      exact h.mem th
    · rw [hnil']
      exact List.nodup_nil
    · rw [hnil']
      exact .of_empty
  · have hwaits := (h.mem u).mp hu
    refine ⟨fun th => ?_, ?_, ?_⟩
    · rw [herase, hthread, h.nodup.mem_erase_iff, h.mem]
      by_cases hth : th = u
      · subst hth
        simp [waits_wake]
      · simp [hth]
    · rw [herase]
      exact h.nodup.erase u
    · rw [hs.eos]
      have hfresh : ¬ (s.thread u).retries c = true := by simp [retries_of_waits hwaits]
      refine h.covered.signal hfresh le_rfl (fun hnil => ?_) (fun v hv => ?_) fun ⟨v, hv⟩ => ?_
      · rw [herase, hnil]
        rfl
      · rw [hthread]
        by_cases hvu : v = u
        · rw [hvu, Function.update_self]
          exact retries_wake hwaits
        · rw [Function.update_of_ne hvu]
          exact hv.resolve_left hvu
      · rw [hthread]
        exact owes_update (fun ho => owes_wake.trans ho) ⟨v, hv⟩

/-- Nothing changes for a condition when a waiter of the other is woken. -/
theorem attended_of_other {d : Condition} (h : Attended c units s) {u : Th} {timedOut : Bool}
    (heos : s'.mEOS = s.mEOS) (hwaiters : s'.waiters c = s.waiters c) (hu : (s.thread u).waits d)
    (hd : d ≠ c)
    (hthread : s'.thread = Function.update s.thread u ((s.thread u).wake timedOut)) :
    Attended c units s' := by
  obtain ⟨hwaits, hretries⟩ := waits_wake_other hu hd timedOut
  refine ⟨fun th => ?_, ?_, ?_⟩
  · rw [hwaiters, hthread]
    exact mem_update h.mem hwaits waits_wake th
  · rw [hwaiters]
    exact h.nodup
  · rw [hwaiters, heos]
    refine h.covered.mono id le_rfl (fun v hv => ?_) fun ho => ?_
    · rw [hthread]
      by_cases hvu : v = u
      · subst hvu
        rw [Function.update_self, hretries]
        exact hv
      · rw [Function.update_of_ne hvu]
        exact hv
    · rw [hthread]
      exact owes_update (fun ho => owes_wake.trans ho) ho

/-- A signal leaves the waiters of the other condition as they are. -/
theorem Attended.signal_other {d : Condition} (h : Attended c units s) (hs : Signals d s s')
    (hmem : ∀ u, u ∈ s.waiters d ↔ (s.thread u).waits d = true) (hd : c ≠ d) :
    Attended c units s' := by
  rcases hs.wakes with ⟨-, -, hthread⟩ | ⟨u, hu, -, hthread⟩
  · refine ⟨fun th => ?_, ?_, ?_⟩
    · rw [hs.others c hd, hthread]
      exact h.mem th
    · rw [hs.others c hd]
      exact h.nodup
    · rw [hs.others c hd, hs.eos, hthread]
      exact h.covered
  · exact attended_of_other h hs.eos (hs.others c hd) ((hmem u).mp hu) (Ne.symm hd) hthread

/-- A waiter leaves its wait by itself. -/
theorem Attended.leaveWait {d : Condition} (h : ∀ c, Attended c (s.units c) s)
    (hth : (s.thread th).waits d = true) (timedOut : Bool) (c : Condition) :
    Attended c (s.units c) (s.leaveWait th timedOut) := by
  have hwaiters (e : Condition) : (s.leaveWait th timedOut).waiters e = (s.waiters e).erase th := by
    cases e <;> rfl
  by_cases hd : d = c
  · subst hd
    refine ⟨fun u => ?_, ?_, ?_⟩
    · rw [hwaiters, (h d).nodup.mem_erase_iff, (h d).mem, State.leaveWait]
      by_cases hu : u = th
      · subst hu
        simp [waits_wake]
      · simp [hu]
    · rw [hwaiters]
      exact (h d).nodup.erase th
    · rw [hwaiters]
      refine (h d).covered.mono (fun hnil => by rw [hnil]; rfl) le_rfl (fun u hu => ?_)
        (owes_update fun ho => owes_wake.trans ho)
      have hne : u ≠ th := by
        rintro rfl
        simp [retries_of_waits hth] at hu
      have hkept : (s.leaveWait th timedOut).thread u = s.thread u := Function.update_of_ne hne ..
      rw [hkept]
      exact hu
  · refine attended_of_other (h c) rfl ?_ hth hd rfl
    rw [hwaiters, List.erase_of_not_mem]
    rw [(h c).mem]
    simp [(waits_wake_other hth hd timedOut).1]

/-- A broadcast ends the waits of its condition and is nothing to the other. -/
structure Broadcasts (d : Condition) (s s' : State T Th Capacity) : Prop where
  eos : s'.mEOS = s.mEOS
  waiters : s'.waiters d = []
  others : ∀ e, e ≠ d → s'.waiters e = s.waiters e
  thread : s'.thread = wakeAll (s.waiters d) s.thread

theorem owes_wakeAll {ws : List Th} {thread : Th → ThreadPoint T} (u : Th) :
    (wakeAll ws thread u).owes c = (thread u).owes c := by
  unfold wakeAll
  split
  · exact owes_wake
  · rfl

theorem Attended.broadcast {d : Condition} (h : ∀ c, Attended c (s.units c) s)
    (hb : Broadcasts d s s') (c : Condition) : Attended c (s.units c) s' := by
  by_cases hd : d = c
  · subst hd
    refine ⟨fun u => ?_, ?_, ?_⟩
    · rw [hb.waiters, hb.thread, wakeAll]
      split
      · simp [waits_wake]
      · rename_i hu
        rw [(h d).mem] at hu
        simp [hu]
    · rw [hb.waiters]
      exact List.nodup_nil
    · rw [hb.waiters]
      exact .of_empty
  · have hsame (u : Th) : (s'.thread u).waits c = (s.thread u).waits c ∧
        (s'.thread u).retries c = (s.thread u).retries c := by
      rw [hb.thread, wakeAll]
      split
      · rename_i hu
        obtain ⟨hwaits, hretries⟩ := waits_wake_other (((h d).mem u).mp hu) hd false
        exact ⟨waits_wake.trans hwaits.symm, hretries⟩
      · exact ⟨rfl, rfl⟩
    refine ⟨fun u => ?_, ?_, ?_⟩
    · rw [hb.others c (Ne.symm hd), (h c).mem, (hsame u).1]
    · rw [hb.others c (Ne.symm hd)]
      exact (h c).nodup
    · rw [hb.others c (Ne.symm hd), hb.eos]
      refine (h c).covered.mono id le_rfl (fun u hu => (hsame u).2.trans hu) fun ⟨u, hu⟩ => ?_
      exact ⟨u, by rw [hb.thread, owes_wakeAll]; exact hu⟩

theorem Attended.return (h : Attended c units (s.goto th .idle)) (r : Returned T) :
    Attended c units (s.return th r) :=
  ⟨h.mem, h.nodup, h.covered⟩

/-- A call that neither waits nor owes returns, and takes at most one unit. -/
theorem Attended.finish (h : Attended c units s) (hth : (s.thread th).waits c = false)
    (howes : (s.thread th).owes c = false) (hle : units' ≤ units)
    (htake : (s.thread th).retries c = true → units' ≤ units - 1) (r : Returned T) :
    Attended c units' (s.return th r) :=
  (h.goto hth (p := .idle) (by cases c <;> rfl) (by simp [howes]) hle htake).return r

end Threads

end CWrapper.SyncQueue
