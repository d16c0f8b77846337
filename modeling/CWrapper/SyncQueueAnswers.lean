import CWrapper.SyncQueueThreads

/-!
What put and get answer. A call that gives up because its time is over takes mLock again and
returns without another look at the queue.
-/
namespace CWrapper.SyncQueue

open Transition

variable {T Th : Type} {Capacity : ℕ+}

/-- A call whose wait has timed out finds, with mLock taken again, that it could go on. -/
def State.gaveUpLate (s : State T Th Capacity) (th : Th) : Bool :=
  match s.thread th with
  | .put _ _ (.woken true) => !s.mQueue.isFull && !s.mEOS
  | .get _ _ (.woken true) => !s.mQueue.isEmpty && !s.mEOS
  | _ => false

/-- put(t) returns false when the queue is full or closed, and otherwise puts one item. -/
def PutHonest (s : State T Th Capacity) (th : Th) (t : T) (s' : State T Th Capacity) : Prop :=
  if s.mQueue.isFull = true ∨ s.mEOS = true then
    s'.returned = s.returned ++ [(th, .put false)] ∧ s'.mQueue.contents = s.mQueue.contents
  else
    s'.returned = s.returned ++ [(th, .put true)] ∧
      s'.mQueue.contents = s.mQueue.contents ++ [t]

/-- get(t) returns false when the queue is empty or closed, and otherwise takes one item. -/
def GetHonest (s : State T Th Capacity) (th : Th) (t : Option T) (s' : State T Th Capacity) :
    Prop :=
  if s.mQueue.isEmpty = true ∨ s.mEOS = true then
    s'.returned = s.returned ++ [(th, .get false t)] ∧
      s'.mQueue.contents = s.mQueue.contents
  else
    ∃ x, s.mQueue.contents = x :: s'.mQueue.contents ∧
      s'.returned = s.returned ++ [(th, .get true (t.map fun _ => x))]

/-- The section in which a put or a get returns. -/
def Honest (s : State T Th Capacity) (th : Th) (s' : State T Th Capacity) : Prop :=
  match s.thread th with
  | .put t _ _ => PutHonest s th t s'
  | .get t _ _ => GetHonest s th t s'
  | _ => True

variable {s s' : State T Th Capacity} {th : Th} {choice : ℕ}

theorem gaveUpLate_of_put {t : T} {ms : ℤ} {point : WaitPoint}
    (hth : s.thread th = .put t ms point) (htests : point.tests = true) :
    s.gaveUpLate th = false := by
  rcases point with _ | _ | _ | _ <;> simp_all [State.gaveUpLate, WaitPoint.tests]

theorem gaveUpLate_of_get {t : Option T} {ms : ℤ} {point : WaitPoint}
    (hth : s.thread th = .get t ms point) (htests : point.tests = true) :
    s.gaveUpLate th = false := by
  rcases point with _ | _ | _ | _ <;> simp_all [State.gaveUpLate, WaitPoint.tests]

/-- A thread in neither put nor get has nothing to answer for. -/
theorem honest_of_other (hput : ∀ t ms point, s.thread th ≠ .put t ms point)
    (hget : ∀ t ms point, s.thread th ≠ .get t ms point) :
    Honest s th s' ↔ s.gaveUpLate th = false := by
  unfold Honest State.gaveUpLate
  cases hth : s.thread th with
  | put t ms point => exact absurd hth (hput t ms point)
  | get t ms point => exact absurd hth (hget t ms point)
  | _ => simp

variable [DecidableEq Th]

/-- A thread that is woken or makes a call leaves a thread that is idle where it is. -/
theorem honest_of_idle {u : Th} {p : ThreadPoint T} (hp : p ≠ .idle)
    (h : Function.update s.thread u p th = .idle) :
    Honest s th s' ↔ s.gaveUpLate th = false := by
  by_cases hu : th = u
  · subst hu
    exact absurd ((Function.update_self ..).symm.trans h) hp
  · rw [Function.update_of_ne hu] at h
    exact honest_of_other (by simp [h]) (by simp [h])

/-- A put gives up, rightly unless its time was over and it could have gone on. -/
theorem putFail_honest {t : T} {ms : ℤ} {point : WaitPoint} (hth : s.thread th = .put t ms point)
    (hfails : s.putFails ms point) :
    PutHonest s th t (s.return th (.put false)) ↔ s.gaveUpLate th = false := by
  unfold PutHonest
  split
  · rename_i hclosed
    refine iff_of_true ⟨rfl, rfl⟩ ?_
    unfold State.gaveUpLate
    rw [hth]
    split
    · rcases hclosed with hfull | heos
      · simp [hfull]
      · simp [heos]
    · simp_all
    · rfl
  · rename_i hopen
    refine iff_of_false (fun h => returned_ne (by simp) h.1) ?_
    rw [not_or, Bool.not_eq_true, Bool.not_eq_true] at hopen
    rcases hfails with rfl | ⟨-, hwhy⟩
    · simp [State.gaveUpLate, hth, hopen.1, hopen.2]
    · rcases hwhy with ⟨hfull, -⟩ | heos
      · simp [hopen.1] at hfull
      · simp [hopen.2] at heos

/-- Giving up is honest exactly where get() could not have gone on. -/
theorem getFail_honest {t : Option T} {ms : ℤ} {point : WaitPoint}
    (hth : s.thread th = .get t ms point) (hfails : s.getFails ms point) :
    GetHonest s th t (s.return th (.get false t)) ↔ s.gaveUpLate th = false := by
  unfold GetHonest
  split
  · rename_i hclosed
    refine iff_of_true ⟨rfl, rfl⟩ ?_
    unfold State.gaveUpLate
    rw [hth]
    split
    · simp_all
    · rcases hclosed with hempty | heos
      · simp [hempty]
      · simp [heos]
    · rfl
  · rename_i hopen
    refine iff_of_false ?_ ?_
    · rintro ⟨x, -, hret⟩
      exact returned_ne (by simp) hret
    · rw [not_or, Bool.not_eq_true, Bool.not_eq_true] at hopen
      rcases hfails with rfl | ⟨-, hwhy⟩
      · simp [State.gaveUpLate, hth, hopen.1, hopen.2]
      · rcases hwhy with ⟨hempty, -⟩ | heos
        · simp [hopen.1] at hempty
        · simp [hopen.2] at heos

variable {moved : T → T}

/-- A put that is not kept back puts its item at the end. -/
theorem put_honest (hl : Lawful s) (hfull : s.mQueue.isFull = false) (heos : s.mEOS = false)
    (t : T) :
    PutHonest s th t (((s.enqueue moved t).signalEmpty choice).return th (.put true)) := by
  rw [PutHonest, if_neg (by simp [hfull, heos])]
  constructor
  · show (State.signalEmpty _ choice).returned ++ _ = _
    rw [signalEmpty_returned]
    rfl
  · show (State.signalEmpty _ choice).mQueue.contents = _
    rw [signalEmpty_same.1]
    exact CircularQueue.put_contents (assign moved) t hl.ring hfull

/-- A get() that succeeds hands out the item at the front. -/
theorem get_honest (hl : Lawful s) (hempty : s.mQueue.isEmpty = false) (heos : s.mEOS = false)
    (t : Option T) : GetHonest s th t (((s.dequeue moved t .got).signalFull choice).return th
      (.get true (t.map fun _ => s.front))) := by
  rw [GetHonest, if_neg (by simp [hempty, heos])]
  refine ⟨s.front, ?_, ?_⟩
  · show _ = s.front :: (State.signalFull _ choice).mQueue.contents
    rw [signalFull_same.1]
    have hget := CircularQueue.get_contents (assign moved) t hl.ring hempty
    rw [State.dequeue, hget]
    exact CircularQueue.contents_cons hempty
  · show (State.signalFull _ choice).returned ++ _ = _
    rw [signalFull_returned]
    rfl

variable [Inhabited T]

/-- Whatever a call returns in a section is right, unless the call has timed out in its wait and
its section finds the queue ready for it. -/
theorem answers_honest_iff (hs : (system T Th Capacity moved).Reachable Machine.anyStep s)
    (hstep : (system T Th Capacity moved).step s (.resume th choice) = some s')
    (hret : s'.thread th = .idle) : Honest s th s' ↔ s.gaveUpLate th = false := by
  have hl := lawful_reachable hs
  generalize ha : Action.resume th choice = a at hstep
  cases step_moves hstep with
  | tick => simp at ha
  | call _ hentry =>
    refine honest_of_idle ?_ hret
    rintro rfl
    simp [ThreadPoint.isEntry] at hentry
  | putLeave hth | getLeave hth =>
    refine honest_of_idle ?_ hret
    simp [hth, ThreadPoint.wake, WaitPoint.wake]
  | putFail hth hfails =>
    obtain ⟨rfl, -⟩ := Action.resume.inj ha
    unfold Honest
    rw [hth]
    exact putFail_honest hth hfails
  | getFail hth hfails =>
    obtain ⟨rfl, -⟩ := Action.resume.inj ha
    unfold Honest
    rw [hth]
    exact getFail_honest hth hfails
  | put hth htests hfull heos =>
    obtain ⟨rfl, -⟩ := Action.resume.inj ha
    unfold Honest
    rw [hth]
    exact iff_of_true (put_honest hl hfull heos _) (gaveUpLate_of_put hth htests)
  | get hth htests hempty heos =>
    obtain ⟨rfl, -⟩ := Action.resume.inj ha
    unfold Honest
    rw [hth]
    exact iff_of_true (get_honest hl hempty heos _) (gaveUpLate_of_get hth htests)
  | putBlock hth | getBlock hth =>
    obtain ⟨rfl, -⟩ := Action.resume.inj ha
    simp [State.goto] at hret
  | putForceFail hth | putForce hth | evict hth | putForceDispose hth | flushEnd hth
  | flushItem hth | flushDispose hth | flushBroadcast hth | storeEOS hth | broadcastFull hth
  | broadcastEmpty hth =>
    obtain ⟨rfl, -⟩ := Action.resume.inj ha
    exact honest_of_other (by simp [hth]) (by simp [hth])

/-- A get has timed out, and an item is put before it has taken mLock again. -/
def lateGet : State ℕ Bool oneCell :=
  (system ℕ Bool oneCell id).after Machine.anyStep (State.start 0)
    [.get false (some 0) 5, .resume false 0, .tick 5, .timeout false, .put true 7 0,
      .resume true 0]

def lateAnswer : State ℕ Bool oneCell :=
  (system ℕ Bool oneCell id).next lateGet (.resume false 0)

theorem lateGet_reachable : (system ℕ Bool oneCell id).Reachable Machine.anyStep lateGet :=
  Machine.reachable_after initial_start (by decide +kernel)

theorem lateAnswer_step :
    (system ℕ Bool oneCell id).step lateGet (.resume false 0) = some lateAnswer :=
  Machine.step_next (by decide +kernel)

theorem answers_honest_iff_late :
    Honest lateGet false lateAnswer ↔ lateGet.gaveUpLate false = false :=
  answers_honest_iff lateGet_reachable lateAnswer_step (by decide +kernel)

/-- get returns false although an item is in the queue and mEOS is not set. -/
theorem get_fails_with_item :
    ¬ ∀ (s s' : State ℕ Bool oneCell) (th : Bool) (choice : ℕ),
      (system ℕ Bool oneCell id).Reachable Machine.anyStep s →
      (system ℕ Bool oneCell id).step s (.resume th choice) = some s' → s'.thread th = .idle →
      Honest s th s' := by
  intro h
  have hget : GetHonest lateGet false (some 0) lateAnswer :=
    h lateGet lateAnswer false 0 lateGet_reachable lateAnswer_step (by decide +kernel)
  rw [GetHonest, if_neg (by decide +kernel)] at hget
  obtain ⟨x, -, hret⟩ := hget
  have hfalse : lateAnswer.returned = lateGet.returned ++ [(false, .get false (some 0))] := by
    decide +kernel
  exact returned_ne (by simp) (hfalse.symm.trans hret)

end CWrapper.SyncQueue
