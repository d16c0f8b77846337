import CWrapper.WorkerProgress

/-!
A thread that is not blocked in a WorkerThread goes on when callbacks and pthread functions answer
what they may always answer.
-/
namespace CWrapper.WorkerThread

open Transition

variable {W Th : Type}

/-- What a pthread function or a callback may always answer. -/
def answerAt : Call W Th → Answer Th
  | .start _ (.prepare .create) => .no
  | _ => .yes

theorem answerAt_ne_thread (c : Call W Th) (id : Th) : answerAt c ≠ .thread id := by
  unfold answerAt
  split
  · simp
  · simp

section Inside

variable {s : State W Th} {th : Th}

theorem inside_of_section (h : s.inSection th = true) : s.inside th = true := by
  cases hcall : (s.call th).isNone with
  | false => exact inside_of_call hcall
  | true =>
    rw [inSection_of_task (isNone_iff.mp hcall)] at h
    apply inside_of_task
    cases htask : s.task th with
    | none | exited =>
      rw [htask] at h
      cases h
    | entry | await | released | run | exit => rfl

theorem inside_of_blocked (hwaits : Waits s) (h : Blocked s th) : s.inside th = true := by
  cases h with
  | stateLock hsection _ _ _ => exact inside_of_section hsection
  | stateCv hasleep => exact inside_of_section (hwaits.state th hasleep).inSection
  | sleepCv hasleep _ => exact inside_of_call (by rw [(hwaits.sleep th hasleep).1]; rfl)
  | lifecycleLock hcall _ | pthreadJoin hcall _ => exact inside_of_call (by rw [hcall]; rfl)

/-- In run() and in no function, a thread is not blocked. -/
theorem not_blocked_of_run (hwaits : Waits s) {w : W} (hcall : s.call th = .none)
    (htask : s.task th = .run w) : ¬ Blocked s th := by
  intro hblocked
  have hsection : s.inSection th = false := by
    rw [inSection_of_task hcall, htask]
    rfl
  cases hblocked with
  | stateLock hin _ _ _ =>
    rw [hsection] at hin
    cases hin
  | stateCv hasleep =>
    have hin := (hwaits.state th hasleep).inSection
    rw [hsection] at hin
    cases hin
  | sleepCv hasleep _ =>
    rw [(hwaits.sleep th hasleep).1] at hcall
    cases hcall
  | lifecycleLock hcall' _ | pthreadJoin hcall' _ =>
    rw [hcall'] at hcall
    cases hcall

end Inside

variable [DecidableEq Th] {s : State W Th} {th : Th}

theorem callStep_answerAt {c : Call W Th} (hc : c.isNone = false)
    (hlock : ∀ op, c = .lockLifecycle op → s.mLifecycleLock = none)
    (hjoin : ∀ op threadId, c = .joinLocked op (.pthreadJoin threadId) →
      ∃ id, threadId = some id ∧ s.task id = .exited) :
    (callStep s th (answerAt c) c).isSome = true := by
  obtain ⟨answer, hsome⟩ := callStep_isSome hc hlock hjoin
  cases c with
  | none => cases hc
  | isCurrentThread | lockLifecycle | load | requestStop | onStopRequested | unlock | msleep =>
    exact hsome
  | start w pt =>
    cases pt with
    | prepare pt => cases pt <;> rfl
    | cleanup inside => cases inside <;> rfl
    | claim | handshake => exact hsome
  | joinLocked op pt =>
    cases pt with
    | pthreadJoin threadId =>
      obtain ⟨id, rfl, hexited⟩ := hjoin op threadId rfl
      simp only [callStep, answerAt, joinLockedStep, hexited]
      rfl
    | cleanup w inside => cases inside <;> rfl
    | read | await | reset => exact hsome

/-- A thread that can go on in a function can do so with this answer. -/
theorem resume_answerAt (hfree : ¬ Blocked s th) (hcall : (s.call th).isNone = false)
    {answer : Answer Th} (hsome : (step s (.resume th answer)).isSome = true) :
    (step s (.resume th (answerAt (s.call th)))).isSome = true := by
  have hlock (op : Operation W) (hc : s.call th = .lockLifecycle op) : s.mLifecycleLock = none := by
    by_contra hheld
    obtain ⟨holder, hholder⟩ := Option.ne_none_iff_exists'.mp hheld
    exact hfree (.lifecycleLock hc hholder)
  have hjoin (op : Operation W) (threadId : Option Th)
      (hc : s.call th = .joinLocked op (.pthreadJoin threadId)) :
      ∃ id, threadId = some id ∧ s.task id = .exited := by
    by_contra hnot
    exact hfree (.pthreadJoin hc fun id hid hexited => hnot ⟨id, hid, hexited⟩)
  have hbody (lock : Option Th) :
      (body { s with mStateLock := lock } th (answerAt (s.call th))).isSome = true := by
    unfold body
    rw [if_neg (by simp [hcall])]
    exact callStep_answerAt hcall hlock hjoin
  simp only [step] at hsome ⊢
  by_cases hsection : s.inSection th = true
  · by_cases hholds : s.mStateLock = some th
    · rw [if_pos hsection, if_pos hholds]
      exact hbody none
    · rw [if_pos hsection, if_neg hholds] at hsome
      cases hsome
  · rw [if_neg hsection]
    exact hbody s.mStateLock

/-- A thread that is not blocked gets a lock, goes on with that answer, or ends its wait. -/
theorem goes_on_answerAt (hin : s.inside th = true) (hfree : ¬ Blocked s th) :
    (step s (.lock th)).isSome = true ∨
      (step s (.resume th (answerAt (s.call th)))).isSome = true ∨
      (step s (.expire th)).isSome = true := by
  obtain hlock | ⟨answer, hresume⟩ | hexpire := canStep_of_not_blocked hin hfree
  · exact Or.inl hlock
  · refine Or.inr (Or.inl ?_)
    cases hcall : (s.call th).isNone with
    | false => exact resume_answerAt hfree hcall hresume
    | true => simpa [step, body, hcall] using hresume
  · exact Or.inr (Or.inr hexpire)

end CWrapper.WorkerThread
