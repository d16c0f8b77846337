import CWrapper.WorkerNesting

/-!
The threads in the functions of a WorkerThread never all block each other. Whoever holds
mStateLock goes on. Where nobody does, the holder of mLifecycleLock waits for the worker thread or
for the thread that delivers onStopRequested, and these wait for nobody.
-/
namespace CWrapper.WorkerThread

open Transition

variable {W Th : Type}

def Task.ended : Task W → Bool
  | .none | .exited => true
  | _ => false

def State.inside (s : State W Th) (th : Th) : Bool :=
  !((s.call th).isNone && (s.task th).ended)

/-- The thread cannot go on before another one has. A wait of msleep ends by itself while the
worker may sleep. -/
inductive Blocked (s : State W Th) (th : Th) : Prop
  | stateLock {holder : Th} : s.inSection th = true → s.asleep th = false →
      s.mStateLock = some holder → holder ≠ th → Blocked s th
  | stateCv : s.mStateCv th = true → Blocked s th
  | sleepCv : s.mSleepCv th = true → s.shouldRun = false → Blocked s th
  | lifecycleLock {op : Operation W} {holder : Th} : s.call th = .lockLifecycle op →
      s.mLifecycleLock = some holder → Blocked s th
  | pthreadJoin {op : Operation W} {threadId : Option Th} :
      s.call th = .joinLocked op (.pthreadJoin threadId) →
      (∀ id, threadId = some id → s.task id ≠ .exited) → Blocked s th

variable {s s' : State W Th} {th : Th}

section Enabled

variable [DecidableEq Th]

def State.canStep (s : State W Th) (th : Th) : Prop :=
  (step s (.lock th)).isSome = true ∨ (∃ answer, (step s (.resume th answer)).isSome = true) ∨
    (step s (.expire th)).isSome = true

theorem callStep_isSome {c : Call W Th} (hc : c.isNone = false)
    (hlock : ∀ op, c = .lockLifecycle op → s.mLifecycleLock = none)
    (hjoin : ∀ op threadId, c = .joinLocked op (.pthreadJoin threadId) →
      ∃ id, threadId = some id ∧ s.task id = .exited) :
    ∃ answer, (callStep s th answer c).isSome = true := by
  cases c with
  | none => cases hc
  | isCurrentThread op | load op | requestStop k | onStopRequested k w pt | unlock | msleep pt =>
    exact ⟨.yes, rfl⟩
  | lockLifecycle op => exact ⟨.yes, by simp [callStep, hlock op rfl]⟩
  | start w pt =>
    cases pt with
    | claim =>
      refine ⟨.yes, ?_⟩
      simp only [callStep, startStep]
      split <;> rfl
    | prepare pt => exact ⟨.no, by cases pt <;> rfl⟩
    | handshake createdId => exact ⟨.yes, rfl⟩
    | cleanup inside => exact ⟨.yes, by cases inside <;> rfl⟩
  | joinLocked op pt =>
    refine ⟨.yes, ?_⟩
    simp only [callStep]
    cases pt with
    | read =>
      simp only [joinLockedStep]
      split <;> rfl
    | pthreadJoin threadId =>
      obtain ⟨id, rfl, hexited⟩ := hjoin op threadId rfl
      simp only [joinLockedStep, hexited]
      rfl
    | await =>
      simp only [joinLockedStep]
      split
      · split <;> rfl
      · rfl
    | cleanup w inside => cases inside <;> rfl
    | reset => rfl

theorem taskStep_isSome {t : Task W} (ht : t.ended = false) :
    (taskStep s th t).isSome = true := by
  cases t with
  | none | exited => cases ht
  | released worker => cases worker <;> rfl
  | entry | await | run w | exit => rfl

/-- A thread has its next step unless it waits for mLifecycleLock or for the end of a thread. -/
theorem body_isSome (hin : s.inside th = true)
    (hlock : ∀ op, s.call th = .lockLifecycle op → s.mLifecycleLock = none)
    (hjoin : ∀ op threadId, s.call th = .joinLocked op (.pthreadJoin threadId) →
      ∃ id, threadId = some id ∧ s.task id = .exited) :
    ∃ answer, (body s th answer).isSome = true := by
  unfold body
  split
  · rename_i hnone
    have htask : (s.task th).ended = false := by simpa [State.inside, hnone] using hin
    exact ⟨.yes, taskStep_isSome htask⟩
  · rename_i hcall
    exact callStep_isSome (by simpa using hcall) hlock hjoin

/-- A thread that is not blocked can go on. -/
theorem canStep_of_not_blocked (hin : s.inside th = true) (hfree : ¬ Blocked s th) :
    s.canStep th := by
  have hlifecycle (op : Operation W) (hcall : s.call th = .lockLifecycle op) :
      s.mLifecycleLock = none := by
    by_contra hheld
    obtain ⟨holder, hholder⟩ := Option.ne_none_iff_exists'.mp hheld
    exact hfree (.lifecycleLock hcall hholder)
  have hjoin (op : Operation W) (threadId : Option Th)
      (hcall : s.call th = .joinLocked op (.pthreadJoin threadId)) :
      ∃ id, threadId = some id ∧ s.task id = .exited := by
    by_contra hnot
    exact hfree (.pthreadJoin hcall fun id hid hexited => hnot ⟨id, hid, hexited⟩)
  by_cases hsection : s.inSection th = true
  · by_cases hsleep : s.mSleepCv th = true
    · refine Or.inr (Or.inr ?_)
      simp [step, hsleep]
    · have hawake : s.asleep th = false := by
        have hstate : s.mStateCv th = false := by
          by_contra hasleep
          exact hfree (.stateCv (by simpa using hasleep))
        rw [State.asleep, hstate, Bool.false_or]
        simpa using hsleep
      cases hlock : s.mStateLock with
      | none =>
        refine Or.inl ?_
        simp [step, hsection, hawake, hlock]
      | some holder =>
        obtain rfl : holder = th := by
          by_contra hne
          exact hfree (.stateLock hsection hawake hlock hne)
        obtain ⟨answer, hsome⟩ :=
          body_isSome (s := { s with mStateLock := none }) hin hlifecycle hjoin
        refine Or.inr (Or.inl ⟨answer, ?_⟩)
        simpa [step, hsection, hlock] using hsome
  · obtain ⟨answer, hsome⟩ := body_isSome hin hlifecycle hjoin
    refine Or.inr (Or.inl ⟨answer, ?_⟩)
    simpa [step, hsection] using hsome

end Enabled

section Deadlock

theorem inside_of_call (hcall : (s.call th).isNone = false) : s.inside th = true := by
  simp [State.inside, hcall]

theorem inside_of_task (htask : (s.task th).ended = false) : s.inside th = true := by
  simp [State.inside, htask]

theorem inside_of_holds (hholds : (s.call th).holds = true) : s.inside th = true := by
  refine inside_of_call ?_
  cases hcall : s.call th <;> first | rfl | (rw [hcall] at hholds; cases hholds)

/-- Whoever has mStateLock goes on. -/
theorem Waits.holder_goes_on (h : Waits s) (hlock : s.mStateLock = some th) :
    s.inside th = true ∧ ¬ Blocked s th := by
  obtain ⟨hin, hawake⟩ := h.lock th hlock
  have hsleep := hawake
  rw [State.asleep, Bool.or_eq_false_iff] at hsleep
  refine ⟨?_, fun hblocked => ?_⟩
  · cases hcall : (s.call th).isNone with
    | false => exact inside_of_call hcall
    | true =>
      rw [inSection_of_task (isNone_iff.mp hcall)] at hin
      apply inside_of_task
      cases htask : s.task th with
      | none | exited =>
        rw [htask] at hin
        cases hin
      | entry | await | released | run | exit => rfl
  · cases hblocked with
    | stateLock _ _ hheld hne => exact hne (Option.some.inj (hheld.symm.trans hlock))
    | stateCv hstate => rw [hsleep.1] at hstate; cases hstate
    | sleepCv hasleep _ => rw [hsleep.2] at hasleep; cases hasleep
    | lifecycleLock hcall _ | pthreadJoin hcall _ =>
      rw [inSection_of_call hcall rfl] at hin
      cases hin

/-- Where a thread may be blocked while nobody has mStateLock. -/
theorem Blocked.waits_for (h : Blocked s th) (hwaits : Waits s) (hlock : s.mStateLock = none) :
    AwaitsState s th ∨
      (∃ op holder, s.call th = .lockLifecycle op ∧ s.mLifecycleLock = some holder) ∨
      ∃ op threadId, s.call th = .joinLocked op (.pthreadJoin threadId) ∧
        ∀ id, threadId = some id → s.task id ≠ .exited := by
  cases h with
  | stateLock _ _ hheld _ => rw [hlock] at hheld; cases hheld
  | stateCv hstate => exact Or.inl (hwaits.state th hstate)
  | sleepCv hasleep hstop =>
    rw [shouldRun_iff.mpr (hwaits.sleep th hasleep).2.1] at hstop
    cases hstop
  | lifecycleLock hcall hheld => exact Or.inr (Or.inl ⟨_, _, hcall, hheld⟩)
  | pthreadJoin hcall hrun => exact Or.inr (Or.inr ⟨_, _, hcall, hrun⟩)

/-- A worker thread that does not wait for mStartReleased is not blocked. -/
theorem worker_goes_on (hwaits : Waits s) (hnested : s.Nested) (hlock : s.mStateLock = none)
    (htask : (s.task th).ended = false) (hreleased : s.task th = .await → s.mStartReleased = true) :
    s.inside th = true ∧ ¬ Blocked s th := by
  refine ⟨inside_of_task htask, fun hblocked => ?_⟩
  have hnot {c : Call W Th} (hcall : s.call th = c) (hc : c.isNone = false)
      (hrun : c.byRun = false) : False := by
    have hnests := hnested th
    rw [hcall] at hnests
    obtain hth | ⟨-, hbyRun⟩ := task_of_nests hnests hc
    · rw [hth] at htask
      cases htask
    · rw [hrun] at hbyRun
      cases hbyRun
  obtain hawaits | ⟨op, holder, hcall, -⟩ | ⟨op, threadId, hcall, -⟩ :=
    hblocked.waits_for hwaits hlock
  · cases hawaits with
    | ready hcall _ | callbacks hcall _ => exact hnot hcall rfl rfl
    | released _ hth hfalse =>
      rw [hreleased hth] at hfalse
      cases hfalse
  · exact hnot hcall rfl rfl
  · exact hnot hcall rfl rfl

/-- The thread that delivers onStopRequested is not blocked. -/
theorem deliverer_goes_on (hwaits : Waits s) (hlock : s.mStateLock = none) {k : Notifier} {w : W}
    {pt : CallbackPoint} (hcall : s.call th = .onStopRequested k w pt) :
    s.inside th = true ∧ ¬ Blocked s th := by
  refine ⟨inside_of_call (by rw [hcall]; rfl), fun hblocked => ?_⟩
  obtain hawaits | ⟨op, holder, hcall', -⟩ | ⟨op, threadId, hcall', -⟩ :=
    hblocked.waits_for hwaits hlock
  · cases hawaits with
    | ready hcall' _ | callbacks hcall' _ | released hcall' _ _ =>
      rw [hcall] at hcall'
      cases hcall'
  · rw [hcall] at hcall'
    cases hcall'
  · rw [hcall] at hcall'
    cases hcall'

variable [DecidableEq W] [DecidableEq Th] {p : Phase W Th}

/-- The holder of mLifecycleLock waits for the thread that delivers onStopRequested, or for the
worker thread: at the beginning of taskEntry, or in pthread_join. -/
theorem Fits.holder_waits_for (h : Fits s p) (hwaits : Waits s) (hlock : s.mStateLock = none)
    (hholds : (s.call th).holds = true) (hblocked : Blocked s th) :
    (∃ n k w pt, s.call n = .onStopRequested k w pt) ∨
      ∃ t, (s.task t).ended = false ∧ (s.task t = .await → s.mStartReleased = true) ∧
        (s.task t = .entry ∨ ∃ op, s.call th = .joinLocked op (.pthreadJoin (some t))) := by
  obtain hawaits | ⟨op, holder, hcall, -⟩ | ⟨op, threadId, hcall, hrun⟩ :=
    hblocked.waits_for hwaits hlock
  · cases hawaits with
    | ready hcall hready =>
      cases h.agrees.pinned hcall rfl with
      | opening w h' t r =>
      obtain ⟨-, -, ⟨rfl, -⟩ | ⟨-, htrue⟩⟩ := h.handshake
      · have htask : s.task t = .entry := by
          rw [h.task]
          simp [Phase.task]
        exact Or.inr ⟨t, by rw [htask]; rfl, by simp [htask], Or.inl htask⟩
      · rw [hready] at htrue
        cases htrue
    | callbacks hcall hcount =>
      cases h.agrees.pinned hcall rfl with
      | joined w h' op stop =>
      rw [h.callbacks] at hcount
      cases stop with
      | none | done => exact absurd rfl hcount
      | under n k pt =>
        have hne : n ≠ th := fun heq => h.handshake k pt (by rw [heq])
        have hallows := h.agrees.allows n
        have hcall' : s.call n = .onStopRequested k w pt := by
          simpa [Phase.Allows, Phase.point, Delivery.point, hne] using hallows
        exact Or.inl ⟨n, k, w, pt, hcall'⟩
    | released hcall _ _ =>
      rw [hcall] at hholds
      cases hholds
  · rw [hcall] at hholds
    cases hholds
  · have hjoins := h.agrees.joining th threadId (by rw [hcall]; rfl)
    obtain rfl | ⟨w, t, r, stop, rfl⟩ := h.idle_or_live th hholds (by rw [hcall]; rfl)
    · cases hjoins
    · obtain rfl := Option.some.inj hjoins
      have htask : s.task t = r := by
        rw [h.task]
        simp [Phase.task]
      refine Or.inr ⟨t, ?_, fun _ => h.handshake.1, Or.inr ⟨op, hcall⟩⟩
      obtain ⟨-, -, rfl | rfl | rfl | rfl | rfl⟩ := h.handshake
      · rw [htask]; rfl
      · rw [htask]; rfl
      · rw [htask]; rfl
      · rw [htask]; rfl
      · exact absurd htask (hrun t rfl)

/-- When the holder of mLifecycleLock is blocked, the thread it waits for is not. -/
theorem Fits.blocked_holder (h : Fits s p) (hwaits : Waits s) (hnested : s.Nested)
    (hlock : s.mStateLock = none) (hholds : (s.call th).holds = true) (hblocked : Blocked s th) :
    ∃ th', s.inside th' = true ∧ ¬ Blocked s th' := by
  obtain ⟨n, k, w, pt, hcall⟩ | ⟨t, hended, hreleased, -⟩ :=
    h.holder_waits_for hwaits hlock hholds hblocked
  · exact ⟨n, deliverer_goes_on hwaits hlock hcall⟩
  · exact ⟨t, worker_goes_on hwaits hnested hlock hended hreleased⟩

/-- While nobody has the locks, nobody is blocked. -/
theorem Fits.not_blocked (h : Fits s p) (hwaits : Waits s) (hlock : s.mStateLock = none)
    (hlifecycle : s.mLifecycleLock = none) : ¬ Blocked s th := by
  intro hblocked
  have hnot (th : Th) (hholds : (s.call th).holds = true) : False := by
    have hheld := (h.agrees.lifecycle th).mp hholds
    rw [hlifecycle] at hheld
    cases hheld
  obtain hawaits | ⟨op, holder, -, hheld⟩ | ⟨op, threadId, hcall, -⟩ :=
    hblocked.waits_for hwaits hlock
  · cases hawaits with
    | ready hcall _ | callbacks hcall _ => exact hnot th (by rw [hcall]; rfl)
    | released _ hth hfalse =>
      obtain ⟨w, h', stored, rfl⟩ | ⟨w, stop, rfl⟩ := h.inTask hth nofun
      · have hallows := h.agrees.allows h'
        simp only [Phase.Allows, Phase.point, if_pos] at hallows
        exact hnot h' (by rw [hallows]; rfl)
      · have htrue : s.mStartReleased = true := h.handshake.1
        rw [htrue] at hfalse
        cases hfalse
  · rw [hlifecycle] at hheld
    cases hheld
  · exact hnot th (by rw [hcall]; rfl)

/-- A thread goes on, unless the holder of mLifecycleLock is blocked. -/
theorem Fits.free_or_holder (h : Fits s p) (hwaits : Waits s) (hth : s.inside th = true) :
    (∃ th', s.inside th' = true ∧ ¬ Blocked s th') ∨
      s.mStateLock = none ∧ ∃ holder, s.mLifecycleLock = some holder ∧ Blocked s holder := by
  cases hlock : s.mStateLock with
  | some holder => exact Or.inl ⟨holder, hwaits.holder_goes_on hlock⟩
  | none =>
    cases hlifecycle : s.mLifecycleLock with
    | none => exact Or.inl ⟨th, hth, h.not_blocked hwaits hlock hlifecycle⟩
    | some holder =>
      by_cases hblocked : Blocked s holder
      · exact Or.inr ⟨rfl, holder, rfl, hblocked⟩
      · exact Or.inl ⟨holder, inside_of_holds ((h.agrees.lifecycle holder).mpr hlifecycle),
          hblocked⟩

/-- While run() obeys, somebody goes on. -/
theorem free_of_inside (hs : (machine W Th).Reachable (fun s a => s.runObeys a = true) s)
    (hth : s.inside th = true) : ∃ th', s.inside th' = true ∧ ¬ Blocked s th' := by
  obtain ⟨⟨p, hfits⟩, hwaits⟩ := fits_and_waits hs
  obtain hfree | ⟨hlock, holder, hlifecycle, hblocked⟩ := hfits.free_or_holder hwaits hth
  · exact hfree
  · exact hfits.blocked_holder hwaits (nested_of_reachable hs) hlock
      ((hfits.agrees.lifecycle holder).mpr hlifecycle) hblocked

/-- While a thread is in the functions of a WorkerThread, one of them is not blocked, and it can
take a step. -/
theorem never_deadlocks (hs : (machine W Th).Reachable (fun s a => s.runObeys a = true) s)
    (hth : s.inside th = true) :
    ∃ th', s.inside th' = true ∧ ¬ Blocked s th' ∧ s.canStep th' := by
  obtain ⟨th', hin, hfree⟩ := free_of_inside hs hth
  exact ⟨th', hin, hfree, canStep_of_not_blocked hin hfree⟩

/-- The worker thread `true` sleeps in run(), and join() waits for it. -/
def joining : State Bool Bool :=
  (machine Bool Bool).after (fun s a => s.runObeys a = true) start
    (started ++ inLock true ++ [.resume true .yes, .call true .msleep] ++ inLock true ++
      [.call false .join] ++ inLock false ++ [.resume false .yes, .resume false .yes] ++
      inLock false)

theorem never_deadlocks_joining : Blocked joining false ∧ joining.mSleepCv true = true ∧
    ∃ th, joining.inside th = true ∧ ¬ Blocked joining th ∧ joining.canStep th := by
  have hs : (machine Bool Bool).Reachable (fun s a => s.runObeys a = true) joining :=
    Machine.reachable_after rfl (by decide +kernel)
  have hin : joining.inside false = true := by decide +kernel
  refine ⟨.pthreadJoin rfl ?_, by decide +kernel, never_deadlocks hs hin⟩
  rintro id hid hexited
  obtain rfl := Option.some.inj hid
  cases hexited

end Deadlock

end CWrapper.WorkerThread
