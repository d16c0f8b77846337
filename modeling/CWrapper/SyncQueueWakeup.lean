import CWrapper.SyncQueueWaiters

/-!
No thread waits in vain. A put brings an item and signals it; a get brings a cell. flush and setEOS
broadcast, after they have unlocked the mutex.
-/
namespace CWrapper.SyncQueue

open Transition WaitSet

variable {T Th : Type} {Capacity : ℕ+} {c : Condition} {p : ThreadPoint T}

section Sizes

variable {s : State T Th Capacity} {moved : T → T}

theorem enqueue_size (hfull : s.mQueue.isFull = false) (t : T) :
    (s.enqueue moved t).mQueue.mSize = s.mQueue.mSize + 1 := by
  simp [State.enqueue, CircularQueue.put, hfull]

theorem dequeue_size (hempty : s.mQueue.isEmpty = false) (t : Option T) (why : Removal) :
    (s.dequeue moved t why).mQueue.mSize = s.mQueue.mSize - 1 := by
  simp [State.dequeue, CircularQueue.get, hempty]

theorem room_of_full (hfull : s.mQueue.isFull = true) : s.units .full = 0 := by
  simp only [CircularQueue.isFull, ge_iff_le, decide_eq_true_eq] at hfull
  exact Nat.sub_eq_zero_of_le hfull

theorem items_of_empty (hempty : s.mQueue.isEmpty = true) : s.units .empty = 0 := by
  simpa [CircularQueue.isEmpty, State.units] using hempty

theorem put_fails {s : State T Th Capacity} {t : T} {ms : ℤ} {point : WaitPoint}
    (h : s.putFails ms point) :
    (ThreadPoint.put t ms point).waits c = false ∧
      ((ThreadPoint.put t ms point).retries c = true → s.units c = 0 ∨ s.mEOS = true) := by
  rcases h with rfl | ⟨htests, hwhy⟩
  · cases c <;> exact ⟨rfl, by simp [ThreadPoint.retries]⟩
  · refine ⟨put_tests htests, fun hr => ?_⟩
    cases c with
    | full => exact hwhy.imp_left fun hfull => room_of_full hfull.1
    | empty => simp [ThreadPoint.retries] at hr

theorem get_fails {s : State T Th Capacity} {t : Option T} {ms : ℤ} {point : WaitPoint}
    (h : s.getFails ms point) :
    (ThreadPoint.get t ms point).waits c = false ∧
      ((ThreadPoint.get t ms point).retries c = true → s.units c = 0 ∨ s.mEOS = true) := by
  rcases h with rfl | ⟨htests, hwhy⟩
  · cases c <;> exact ⟨rfl, by simp [ThreadPoint.retries]⟩
  · refine ⟨get_tests htests, fun hr => ?_⟩
    cases c with
    | full => simp [ThreadPoint.retries] at hr
    | empty => exact hwhy.imp_left fun hempty => items_of_empty hempty.1

end Sizes

section Sections

variable [DecidableEq Th] {moved : T → T} {s : State T Th Capacity}

/-- A section changes the queue and signals: one unit more for the condition it signals, at
most one less for the thread itself. -/
theorem attended_serve {d : Condition} {s₁ s₂ : State T Th Capacity} {th : Th}
    (h : ∀ c, Attended c (s.units c) s) (hs : Signals d s₁ s₂) (hthread : s₁.thread = s.thread)
    (heos : s₁.mEOS = s.mEOS) (hwaiters : ∀ c, s₁.waiters c = s.waiters c)
    (hth : ∀ c, (s.thread th).waits c = false ∧ (s.thread th).owes c = false)
    (hself : (s.thread th).retries d = false) (hp : ∀ c, p.waits c = false)
    (hunits : s₂.units d ≤ s.units d + 1)
    (hother : ∀ c, c ≠ d → s₂.units c ≤ s.units c ∧
      ((s.thread th).retries c = true → s₂.units c ≤ s.units c - 1)) (c : Condition) :
    Attended c (s₂.units c) (s₂.goto th p) := by
  have hsame (c : Condition) : Attended c (s.units c) s₁ :=
    ⟨fun u => by rw [hwaiters, hthread]; exact (h c).mem u, by rw [hwaiters]; exact (h c).nodup,
      by rw [hwaiters, hthread, heos]; exact (h c).covered⟩
  have hkept : s₂.thread th = s.thread th := by
    rw [hs.thread_eq (hsame d).mem (hthread ▸ (hth d).1), hthread]
  by_cases hc : c = d
  · subst hc
    refine ((hsame c).signal hs).goto (hkept ▸ (hth c).1) (hp c) (fun ho => ?_) hunits fun hr => ?_
    · rw [hkept, (hth c).2] at ho
      cases ho
    · rw [hkept, hself] at hr
      cases hr
  · obtain ⟨hle, htake⟩ := hother c hc
    refine ((hsame c).signal_other hs (hsame d).mem hc).goto (hkept ▸ (hth c).1) (hp c)
      (fun ho => ?_) hle fun hr => htake (hkept ▸ hr)
    rw [hkept, (hth c).2] at ho
    cases ho

/-- A put accepts an item: one item more, one free cell less. -/
theorem attended_put (h : ∀ c, Attended c (s.units c) s) {th : Th} {choice : ℕ} {t : T}
    (hth : ∀ c, (s.thread th).waits c = false ∧ (s.thread th).owes c = false)
    (hretries : (s.thread th).retries .empty = false) (hfull : s.mQueue.isFull = false)
    (hmay : mayChoose s.mCvEmpty choice = true) (c : Condition) :
    Attended c (((s.enqueue moved t).signalEmpty choice).units c)
      (((s.enqueue moved t).signalEmpty choice).goto th .idle) := by
  have hsignal := signalEmpty_signals (s := s.enqueue moved t) (h .empty).nodup hmay
  have hsize : ((s.enqueue moved t).signalEmpty choice).mQueue.mSize = s.mQueue.mSize + 1 := by
    rw [hsignal.queue, enqueue_size hfull]
  refine attended_serve h hsignal rfl rfl (fun c => by cases c <;> rfl) hth hretries
    (fun c => by cases c <;> rfl) (by simp only [State.units, hsize, le_refl]) (fun c hc => ?_) c
  cases c with
  | full =>
    simp only [State.units, hsize]
    omega
  | empty => exact absurd rfl hc

/-- A get takes an item: one item less, one free cell more. -/
theorem attended_get (h : ∀ c, Attended c (s.units c) s) {th : Th} {choice : ℕ} {t : Option T}
    (hth : ∀ c, (s.thread th).waits c = false ∧ (s.thread th).owes c = false)
    (hretries : (s.thread th).retries .full = false) (hempty : s.mQueue.isEmpty = false)
    (hmay : mayChoose s.mCvFull choice = true) (c : Condition) :
    Attended c (((s.dequeue moved t .got).signalFull choice).units c)
      (((s.dequeue moved t .got).signalFull choice).goto th .idle) := by
  have hsignal := signalFull_signals (s := s.dequeue moved t .got) (h .full).nodup hmay
  have hsize : ((s.dequeue moved t .got).signalFull choice).mQueue.mSize = s.mQueue.mSize - 1 := by
    rw [hsignal.queue, dequeue_size hempty]
  refine attended_serve h hsignal rfl rfl (fun c => by cases c <;> rfl) hth hretries
    (fun c => by cases c <;> rfl) (by simp only [State.units, hsize]; omega) (fun c hc => ?_) c
  cases c with
  | full => exact absurd rfl hc
  | empty =>
    simp only [State.units, hsize]
    omega

variable [Inhabited T]

/-- putForce replaces an item, and signals as if it were one more. -/
theorem attended_evict (h : ∀ c, Attended c (s.units c) s) {th : Th} {choice k : ℕ} {t d : T}
    (hth : s.thread th = .putForce t) (hfull : s.mQueue.isFull = true)
    (hroom : (s.dequeue moved (some default) .evicted).mQueue.isFull = false)
    (hmay : mayChoose s.mCvEmpty choice = true) (c : Condition) :
    Attended c ((((s.dequeue moved (some default) .evicted).enqueue moved t).signalEmpty
        choice).units c)
      ((((s.dequeue moved (some default) .evicted).enqueue moved t).signalEmpty choice).goto th
        (.putForceDispose k d)) := by
  have hsignal := signalEmpty_signals
    (s := (s.dequeue moved (some default) .evicted).enqueue moved t) (h .empty).nodup hmay
  have hsize : (((s.dequeue moved (some default) .evicted).enqueue moved t).signalEmpty
      choice).mQueue.mSize = s.mQueue.mSize - 1 + 1 := by
    rw [hsignal.queue, enqueue_size hroom, dequeue_size (isEmpty_of_isFull hfull)]
  have hpos : s.mQueue.mSize ≠ 0 := by
    simpa [CircularQueue.isEmpty] using isEmpty_of_isFull hfull
  refine attended_serve h hsignal rfl rfl (fun c => by cases c <;> rfl)
    (fun c => by rw [hth]; cases c <;> exact ⟨rfl, rfl⟩) (by rw [hth]; rfl)
    (fun c => by cases c <;> rfl) (by simp only [State.units, hsize]; omega) (fun c hc => ?_) c
  cases c with
  | full =>
    rw [hth]
    refine ⟨?_, by simp [ThreadPoint.retries]⟩
    simp only [State.units, hsize]
    omega
  | empty => exact absurd rfl hc

end Sections

section Steps

variable [DecidableEq Th] {moved : T → T} {s s' : State T Th Capacity} {th : Th}

/-- A call with no part in a condition moves on. -/
theorem Attended.quiet {units : ℕ} {p₀ : ThreadPoint T} (h : Attended c units s)
    (hth : s.thread th = p₀) (hwaits : p₀.waits c = false) (hretries : p₀.retries c = false)
    (hp : p.waits c = false) (howes : p₀.owes c = true → p.owes c = true) :
    Attended c units (s.goto th p) :=
  h.goto (hth ▸ hwaits) hp (hth ▸ howes) le_rfl (by simp [hth, hretries])

/-- A call gives up: there is no unit for it, or the units are closed. -/
theorem Attended.giveUp {units : ℕ} (h : Attended c units s)
    (hth : (s.thread th).waits c = false) (howes : (s.thread th).owes c = false)
    (hwhy : (s.thread th).retries c = true → units = 0 ∨ s.mEOS = true) (r : Returned T) :
    Attended c units (s.return th r) := by
  by_cases heos : s.mEOS = true
  · have hclosed : Attended c (units + 1) s :=
      ⟨h.mem, h.nodup, by simp [heos], fun hc => h.covered.closed hc⟩
    exact hclosed.finish hth howes (Nat.le_succ _) (fun _ => le_rfl) r
  · refine h.finish hth howes le_rfl (fun hr => ?_) r
    rw [(hwhy hr).resolve_right heos]

/-- Nobody waits any more for the call that goes on. -/
theorem Attended.deliver {units : ℕ} (h : Attended c units s) (hnobody : s.waiters c = [])
    (hth : (s.thread th).waits c = false) (hp : p.waits c = false) :
    Attended c units (s.goto th p) where
  mem := mem_update h.mem hth hp
  nodup := h.nodup
  covered := by
    have hwaiters : (s.goto th p).waiters c = [] := by
      rw [← hnobody]
      cases c <;> rfl
    rw [hwaiters]
    exact .of_empty

/-- A thread that found no unit, and nothing closed, waits. -/
theorem Attended.block {units : ℕ} (h : Attended c units s) (hth : (s.thread th).waits c = false)
    (hp : p.waits c = true) (heos : s.mEOS = false) (s₁ : State T Th Capacity)
    (hthread : s₁.thread = Function.update s.thread th p) (heos₁ : s₁.mEOS = s.mEOS)
    (hwaiters : s₁.waiters c = s.waiters c ++ [th]) : Attended c 0 s₁ where
  mem u := by
    rw [hwaiters, hthread, List.mem_append, List.mem_singleton, h.mem]
    by_cases hu : u = th
    · subst hu
      simp [hp]
    · simp [hu]
  nodup := by
    have hnew : th ∉ s.waiters c := by simp [h.mem, hth]
    rw [hwaiters, List.nodup_append]
    refine ⟨h.nodup, by simp, ?_⟩
    rintro u hu v hv rfl
    obtain rfl := List.mem_singleton.mp hv
    exact hnew hu
  covered := by
    rw [heos₁, heos]
    exact .no_units

theorem wakeAll_self (ws : List Th) {thread : Th → ThreadPoint T} (hth : thread th = p)
    (hp : p.wake false = p) : wakeAll ws thread th = p := by
  unfold wakeAll
  split
  · rw [hth, hp]
  · exact hth

theorem broadcasts_full : Broadcasts .full s
    { s with mCvFull := [], thread := wakeAll s.mCvFull s.thread } where
  eos := rfl
  waiters := rfl
  others e he := by
    cases e with
    | full => exact absurd rfl he
    | empty => rfl
  thread := rfl

theorem broadcasts_empty : Broadcasts .empty s
    { s with mCvEmpty := [], thread := wakeAll s.mCvEmpty s.thread } where
  eos := rfl
  waiters := rfl
  others e he := by
    cases e with
    | full => rfl
    | empty => exact absurd rfl he
  thread := rfl

variable [Inhabited T]

/-- Each cell that becomes free, and each item that is put in, comes with a signal or finds no
waiter. -/
theorem attended_step {a : Action T Th} (hl : Lawful s) (h : ∀ c, Attended c (s.units c) s)
    (hm : Moves moved s a s') (c : Condition) : Attended c (s'.units c) s' := by
  cases hm with
  | tick => exact ⟨(h c).mem, (h c).nodup, (h c).covered⟩
  | @call _ th p hth hentry =>
    exact (h c).quiet hth (by cases c <;> rfl) (by cases c <;> rfl) (entry_waits hentry)
      (by cases c <;> simp [ThreadPoint.owes])
  | putFail hth hfails =>
    obtain ⟨hwaits, hwhy⟩ := put_fails hfails
    exact (h c).giveUp (hth ▸ hwaits) (by rw [hth]; cases c <;> rfl) (hth ▸ hwhy) _
  | getFail hth hfails =>
    obtain ⟨hwaits, hwhy⟩ := get_fails hfails
    exact (h c).giveUp (hth ▸ hwaits) (by rw [hth]; cases c <;> rfl) (hth ▸ hwhy) _
  | putForceFail hth heos =>
    exact (h c).giveUp (by rw [hth]; cases c <;> rfl) (by rw [hth]; cases c <;> rfl)
      (fun _ => Or.inr heos) _
  | @putBlock th _ t ms _ e hth htests hfull heos =>
    have hwaits (c : Condition) : (ThreadPoint.put t ms _).waits c = false := put_tests htests
    cases c with
    | full =>
      have hblock := (h .full).block (p := .put t ms (.blocked e)) (hth ▸ hwaits .full) rfl heos
        { s.goto th (.put t ms (.blocked e)) with mCvFull := s.mCvFull ++ [th] } rfl rfl rfl
      rw [← room_of_full hfull] at hblock
      exact hblock
    | empty =>
      have hquiet := (h .empty).quiet (p := .put t ms (.blocked e)) hth (hwaits .empty) rfl rfl
        (by simp [ThreadPoint.owes])
      exact ⟨hquiet.mem, hquiet.nodup, hquiet.covered⟩
  | @getBlock th _ t ms _ e hth htests hempty heos =>
    have hwaits (c : Condition) : (ThreadPoint.get t ms _).waits c = false := get_tests htests
    cases c with
    | full =>
      have hquiet := (h .full).quiet (p := .get t ms (.blocked e)) hth (hwaits .full) rfl rfl
        (by simp [ThreadPoint.owes])
      exact ⟨hquiet.mem, hquiet.nodup, hquiet.covered⟩
    | empty =>
      have hblock := (h .empty).block (p := .get t ms (.blocked e)) (hth ▸ hwaits .empty) rfl heos
        { s.goto th (.get t ms (.blocked e)) with mCvEmpty := s.mCvEmpty ++ [th] } rfl rfl rfl
      rw [← items_of_empty hempty] at hblock
      exact hblock
  | @put th _ t ms _ hth htests hfull heos hmay =>
    refine (attended_put h (fun c => ?_) (by rw [hth]; rfl) hfull hmay c).return _
    rw [hth]
    exact ⟨put_tests htests, by cases c <;> rfl⟩
  | @get th _ t ms _ hth htests hempty heos hmay =>
    refine (attended_get h (fun c => ?_) (by rw [hth]; rfl) hempty hmay c).return _
    rw [hth]
    exact ⟨get_tests htests, by cases c <;> rfl⟩
  | putForce hth hfull heos hmay =>
    refine (attended_put h (fun c => ?_) (by rw [hth]; rfl) hfull hmay c).return _
    rw [hth]
    cases c <;> exact ⟨rfl, rfl⟩
  | evict hth hfull heos hmay =>
    have hroom := dequeue_not_full hl moved (isEmpty_of_isFull hfull) (some default) .evicted
    exact attended_evict h hth hfull hroom hmay c
  | @putForceDispose th _ k d hth =>
    have hdispose : Attended c (s.units c) (s.dispose k d) :=
      ⟨(h c).mem, (h c).nodup, (h c).covered⟩
    exact (hdispose.quiet hth (by cases c <;> rfl) (by cases c <;> rfl) (by cases c <;> rfl)
      (by cases c <;> simp [ThreadPoint.owes])).return _
  | flushEnd hth =>
    exact (h c).quiet hth (by cases c <;> rfl) (by cases c <;> rfl) (by cases c <;> rfl)
      (by cases c <;> simp [ThreadPoint.owes])
  | @flushItem th _ _ hth hempty =>
    cases c with
    | full =>
      have htaken : Attended .full (s.units .full) (s.dequeue moved (some default) .flushed) :=
        ⟨(h .full).mem, (h .full).nodup, (h .full).covered⟩
      exact htaken.owe (by rw [State.dequeue, hth]; rfl) rfl rfl s.mEOS _
    | empty =>
      have htaken : Attended .empty (s.units .empty) (s.dequeue moved (some default) .flushed) :=
        ⟨(h .empty).mem, (h .empty).nodup, (h .empty).covered⟩
      refine (htaken.quiet hth rfl rfl rfl (by simp [ThreadPoint.owes])).mono ?_
      simp only [State.units, State.goto, dequeue_size hempty]
      omega
  | @flushDispose th _ k d hth =>
    have hdispose : Attended c (s.units c) (s.dispose k d) :=
      ⟨(h c).mem, (h c).nodup, (h c).covered⟩
    exact hdispose.quiet hth (by cases c <;> rfl) (by cases c <;> rfl) (by cases c <;> rfl)
      (by cases c <;> simp [ThreadPoint.owes])
  | flushBroadcast hth =>
    have hwoken := Attended.broadcast h broadcasts_full c
    have hself := wakeAll_self s.mCvFull hth rfl
    cases c with
    | full => exact (hwoken.deliver rfl (congrArg (ThreadPoint.waits _) hself) rfl).return _
    | empty => exact (hwoken.quiet hself rfl rfl rfl (by simp [ThreadPoint.owes])).return _
  | storeEOS hth =>
    exact (h c).owe (by rw [hth]; cases c <;> rfl) (by cases c <;> rfl) (by cases c <;> rfl) _ _
  | broadcastFull hth =>
    have hwoken := Attended.broadcast h broadcasts_full c
    have hself := wakeAll_self s.mCvFull hth rfl
    cases c with
    | full => exact hwoken.deliver rfl (congrArg (ThreadPoint.waits _) hself) rfl
    | empty => exact hwoken.quiet hself rfl rfl rfl fun _ => rfl
  | broadcastEmpty hth =>
    have hwoken := Attended.broadcast h broadcasts_empty c
    have hself := wakeAll_self s.mCvEmpty hth rfl
    cases c with
    | full => exact (hwoken.quiet hself rfl rfl rfl (by simp [ThreadPoint.owes])).return _
    | empty => exact (hwoken.deliver rfl (congrArg (ThreadPoint.waits _) hself) rfl).return _
  | putLeave hth => exact Attended.leaveWait (d := .full) h (by rw [hth]; rfl) _ c
  | getLeave hth => exact Attended.leaveWait (d := .empty) h (by rw [hth]; rfl) _ c

/-- The waiters of a condition, in every reachable state: what they wait for comes with a wake-up
that is under way. -/
theorem attended_reachable (hs : (system T Th Capacity moved).Reachable Machine.anyStep s)
    (c : Condition) : Attended c (s.units c) s := by
  refine Machine.Invariant.reachable (J := Lawful) (I := fun s => ∀ c, Attended c (s.units c) s)
    ⟨?_, ?_⟩ (fun _ => lawful_reachable) hs c
  · rintro _ ⟨now, rfl⟩ c
    cases c <;> exact ⟨by simp [State.start, State.waiters, ThreadPoint.waits], List.nodup_nil,
      .of_empty⟩
  · intro s a s' _ hl hstep h c
    exact attended_step hl h (step_moves hstep) c

/-- Once every wake-up has taken effect, a thread that waits has nothing to do. -/
theorem no_stuck_thread (hs : (system T Th Capacity moved).Reachable Machine.anyStep s)
    (hq : Quiescent s) :
    (s.mEOS = false → ∀ th,
      ((s.thread th).waits .empty = true → s.mQueue.isEmpty = true) ∧
      ((s.thread th).waits .full = true → s.mQueue.isFull = true)) ∧
    (s.mEOS = true → ∀ th c, (s.thread th).waits c = false) := by
  refine ⟨fun _ th => ⟨fun hth => ?_, fun hth => ?_⟩, fun heos th c => ?_⟩
  · have hzero := ((attended_reachable hs .empty).settled hq hth).2
    simpa [CircularQueue.isEmpty, State.units] using hzero
  · have hzero := ((attended_reachable hs .full).settled hq hth).2
    simpa [CircularQueue.isFull, State.units, Nat.sub_eq_zero_iff_le] using hzero
  · by_contra hth
    have hopen := ((attended_reachable hs c).settled hq (by simpa using hth)).1
    simp [heos] at hopen

/-- A thread has got the item that woke it and waits for the next one. -/
def waiting : State ℕ Bool oneCell :=
  (system ℕ Bool oneCell id).after Machine.anyStep (State.start 0)
    [.get false none INFINITE, .resume false 0, .put true 1 INFINITE, .resume true 0,
      .resume false 0, .get false none 5, .resume false 0]

theorem no_stuck_thread_waiting :
    (waiting.thread false).waits .empty = true ∧ waiting.mQueue.isEmpty = true := by
  have hwaits : (waiting.thread false).waits .empty = true := by decide +kernel
  exact ⟨hwaits, ((no_stuck_thread (Machine.reachable_after initial_start (by decide +kernel))
    fun th => ⟨by revert th; decide +kernel, fun c => by revert th; cases c <;> decide +kernel⟩).1
      (by decide +kernel) false).1 hwaits⟩

end Steps

end CWrapper.SyncQueue
