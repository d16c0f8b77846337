import CWrapper.TimerThreadsRuns
import CWrapper.WorkerAnswers
import CWrapper.WorkerDeadlock
import CWrapper.WorkerMoves

/-!
The threads in a TimerThread and its mThread go on, but where those in mThread are deadlocked.
Whoever has mLock goes on, unless it is in mThread, where then somebody goes on.
-/
namespace CWrapper.TimerThreads

open Transition WorkerThread

variable {H Th : Type}

def State.inside (s : State H Th) (th : Th) : Bool := !(s.call th).isNone || s.mThread.inside th

inductive Locks (s : State H Th) (th : Th) : Prop
  | function {op : Operation H} : s.call th = .lock op → Locks s th
  | arm : s.call th = .none → s.run th = .lockArm → Locks s th
  | fire : s.call th = .none → s.run th = .lockFire → Locks s th

theorem locked_of_depth {c : Call H} (h : 0 < c.depth) : ∃ op, c = .locked op := by
  cases c <;> first | exact ⟨_, rfl⟩ | cases h

/-- run() calls mThread without mLock. -/
theorem depth_of_engine {r : RunPoint H} {entry : Entry Unit}
    (h : (Call.none : Call H).engine r = some entry) : r.depth = 0 := by
  cases r <;> first | rfl | cases h

theorem point_of_msleep {c : Call H} {r : RunPoint H} (h : c.engine r = some .msleep) :
    (∃ timeoutMs, r = .msleep timeoutMs) ∨ ∃ expireTime, r = .wait expireTime := by
  cases c with
  | none =>
    cases r with
    | msleep timeoutMs => exact Or.inl ⟨timeoutMs, rfl⟩
    | wait expireTime => exact Or.inr ⟨expireTime, rfl⟩
    | outside | test | lockArm | arm | callMsleep | lockFire | fire | call | callback | finish
    | leave => cases h
  | callStop | stopping | lock | locked | callStart | starting => cases h

theorem starting_of_engine {c : Call H} {r : RunPoint H} (h : c.engine r = some (.start ())) :
    c = .starting := by
  cases c with
  | none => cases r <;> cases h
  | starting => rfl
  | callStop | stopping | lock | locked | callStart => cases h

theorem stopping_of_engine {c : Call H} {r : RunPoint H} (h : c.engine r = some .stop) :
    ∃ op, c = .stopping op := by
  cases c with
  | none => cases r <;> cases h
  | stopping op => exact ⟨op, rfl⟩
  | callStop | lock | locked | callStart | starting => cases h

theorem engine_ne_join (c : Call H) (r : RunPoint H) : c.engine r ≠ some .join := by
  intro h
  cases c with
  | none => cases r <;> cases h
  | callStop | stopping | lock | locked | callStart | starting => cases h

theorem inside_of_call {s : State H Th} {th : Th} (hcall : s.call th ≠ .none) :
    s.inside th = true := by
  have hnone : (s.call th).isNone = false := by
    cases hc : s.call th <;> first | rfl | exact absurd hc hcall
  rw [State.inside, hnone]
  rfl

variable [DecidableEq Th]

/-- The thread cannot go on before another one has. -/
inductive Blocked (s : State H Th) (th : Th) : Prop
  | lock {holder : Th} : Locks s th → 0 < ReentrantLock.held s.mLock holder → holder ≠ th →
      Blocked s th
  | engine : WorkerThread.Blocked s.mThread th → Blocked s th

/-- The next step of this thread, in a function that it has called or in run(). -/
def Action.isBy (th : Th) : Action H Th → Bool
  | .resume u | .run u _ | .engine (.lock u) | .engine (.resume u _) | .engine (.expire u) => u = th
  | _ => false

/-- In the wait of msleep(), whose time is not over. -/
def State.sleeps (s : State H Th) (th : Th) : Prop :=
  ∃ expireTime, s.run th = .wait expireTime ∧ s.now < expireTime ∧ s.mThread.mSleepCv th = true

/-- The thread can take a step, or sleeps and can when the time is over. -/
def State.canStep (s : State H Th) (th : Th) : Prop :=
  (∃ a : Action H Th, a.isBy th = true ∧ (step s a).isSome = true) ∨ s.sleeps th

variable {s s' : State H Th} {th u t h : Th}

section Free

theorem fits_and_waits_engine (hs : (machine H Th).Reachable Machine.anyStep s) :
    (∃ p, Fits s.mThread p) ∧ Waits s.mThread := fits_and_waits (engine_part.reachable hs)

/-- Only one thread is in run(). -/
theorem one_run (hs : (machine H Th).Reachable Machine.anyStep s) (ht : s.run t ≠ .outside)
    (hu : s.run u ≠ .outside) : t = u := by
  obtain ⟨⟨p, hfits⟩, -⟩ := fits_and_waits_engine hs
  have hcons := consistent_reachable hs
  refine hfits.one_task ?_ ?_
  · rw [(hcons.runs t).mp ht]
    simp
  · rw [(hcons.runs u).mp hu]
    simp

/-- A thread that is in no function of mThread is not blocked there, in run() or outside. -/
theorem engine_free (hs : (machine H Th).Reachable Machine.anyStep s)
    (hnone : s.mThread.call th = .none)
    (htask : (s.mThread.task th).ended = true ∨ s.run th ≠ .outside) :
    ¬ WorkerThread.Blocked s.mThread th := by
  have hwaits := (fits_and_waits_engine hs).2
  obtain hended | hrun := htask
  · intro hblocked
    have hin := inside_of_blocked hwaits hblocked
    rw [WorkerThread.State.inside, hnone, hended] at hin
    cases hin
  · exact not_blocked_of_run hwaits hnone (((consistent_reachable hs).runs th).mp hrun)

theorem inside_of_run (hcons : Consistent s) (hrun : s.run th ≠ .outside) :
    s.inside th = true := by
  have hin : s.mThread.inside th = true := by
    apply inside_of_task
    rw [(hcons.runs th).mp hrun]
    rfl
  rw [State.inside, hin, Bool.or_true]

/-- A thread that is about to lock mLock is in no function of mThread, and outside taskEntry or in
run(). -/
theorem Locks.outside (hlocks : Locks s th) (hcons : Consistent s) :
    s.mThread.call th = .none ∧ (s.mThread.task th = .none ∨ s.run th ≠ .outside) := by
  cases hlocks with
  | @function op hcall =>
    refine ⟨hcons.engine_none (by rw [hcall]; rfl), ?_⟩
    obtain htask | hin := hcons.outside th (by rw [hcall]; simp)
    · exact Or.inl htask
    · refine Or.inr fun hout => ?_
      rw [hout] at hin
      cases hin
  | arm hcall hrun | fire hcall hrun =>
    exact ⟨hcons.engine_none (by rw [hcall, hrun]; rfl), Or.inr (by rw [hrun]; simp)⟩

/-- In mThread, one thread is not blocked, or there is the deadlock; `h` has mLock, if anybody. -/
theorem engine_goes_on (hs : (machine H Th).Reachable Machine.anyStep s)
    (hin : s.mThread.inside th = true)
    (hholder : ∀ u, 0 < ReentrantLock.held s.mLock u →
      s.mThread.call u ≠ .none ∧ (s.run u).inHandler = true) :
    (∃ th', s.inside th' = true ∧ ¬ Blocked s th') ∨ ∃ t h, Deadlock s.mThread t h := by
  have hcons := consistent_reachable hs
  obtain ⟨th', hin', hfree⟩ | hdead := free_or_deadlock (engine_part.reachable hs) hin
  · refine Or.inl ⟨th', by rw [State.inside, hin', Bool.or_true], fun hblocked => ?_⟩
    cases hblocked with
    | engine hblocked => exact hfree hblocked
    | @lock holder hlocks hheld hne =>
      obtain ⟨hcall, hrun⟩ := hholder holder hheld
      obtain ⟨hnone, htask | hrun'⟩ := hlocks.outside hcons
      · rw [WorkerThread.State.inside, hnone, htask] at hin'
        cases hin'
      · refine hne (one_run hs ?_ hrun')
        intro hout
        rw [hout] at hrun
        cases hrun
  · exact Or.inr hdead

/-- Whoever has mLock is not blocked, or is in mThread and in the handler. -/
theorem holder_goes_on (hs : (machine H Th).Reachable Machine.anyStep s)
    (hheld : 0 < ReentrantLock.held s.mLock th) :
    s.inside th = true ∧ ¬ Blocked s th ∨
      s.mThread.call th ≠ .none ∧ (s.run th).inHandler = true := by
  have hcons := consistent_reachable hs
  have hnot_lock (hfree : ¬ WorkerThread.Blocked s.mThread th) : ¬ Blocked s th := by
    intro hblocked
    cases hblocked with
    | lock _ hheld' hne => exact hne (ReentrantLock.held_unique hheld' hheld)
    | engine hblocked => exact hfree hblocked
  have hdepth := hcons.held th
  by_cases hrun : s.run th = .outside
  · -- in a section of a function
    have hpos : 0 < (s.call th).depth := by
      rw [hrun] at hdepth
      have houter : (RunPoint.outside : RunPoint H).depth = 0 := rfl
      omega
    obtain ⟨op, hcall⟩ := locked_of_depth hpos
    refine Or.inl ⟨inside_of_call (by rw [hcall]; simp), hnot_lock (engine_free hs
      (hcons.engine_none (by rw [hcall]; rfl)) (Or.inl ?_))⟩
    obtain htask | hin := hcons.outside th (by rw [hcall]; simp)
    · rw [htask]
      rfl
    · rw [hrun] at hin
      cases hin
  · by_cases hnone : s.mThread.call th = .none
    · exact Or.inl ⟨inside_of_run hcons hrun, hnot_lock (engine_free hs hnone (Or.inr hrun))⟩
    · refine Or.inr ⟨hnone, ?_⟩
      by_contra hnot
      rw [Bool.not_eq_true] at hnot
      have hcall := hcons.call_none hrun hnot
      obtain hengine | ⟨e, he, -⟩ := hcons.engine th
      · exact hnone hengine
      · rw [hcall] at he hdepth
        rw [hdepth, depth_of_engine he] at hheld
        cases hheld

/-- Someone is not blocked, or there is the deadlock. -/
theorem free_thread (hs : (machine H Th).Reachable Machine.anyStep s) (hin : s.inside th = true) :
    (∃ th', s.inside th' = true ∧ ¬ Blocked s th') ∨ ∃ t h, Deadlock s.mThread t h := by
  have hcons := consistent_reachable hs
  obtain hlock | ⟨holder, hheld⟩ := ReentrantLock.free_or_held s.mLock
  · have hnobody (u : Th) : ¬ 0 < ReentrantLock.held s.mLock u := by
      rw [hlock]
      exact Nat.lt_irrefl 0
    cases hengine : s.mThread.inside th with
    | true => exact engine_goes_on hs hengine fun u hu => absurd hu (hnobody u)
    | false =>
      have hended := hengine
      rw [WorkerThread.State.inside, Bool.not_eq_false', Bool.and_eq_true] at hended
      refine Or.inl ⟨th, hin, fun hblocked => ?_⟩
      cases hblocked with
      | lock _ hheld _ => exact hnobody _ hheld
      | engine hblocked =>
        exact engine_free hs (isNone_iff.mp hended.1) (Or.inl hended.2) hblocked
  · obtain hfree | hhandler := holder_goes_on hs hheld
    · exact Or.inl ⟨holder, hfree⟩
    · have hin : s.mThread.inside holder = true := by
        apply WorkerThread.inside_of_call
        rw [← Bool.not_eq_true, isNone_iff]
        exact hhandler.1
      refine engine_goes_on hs hin fun u hu => ?_
      obtain rfl := ReentrantLock.held_unique hheld hu
      exact hhandler

end Free

section Steps

theorem admits_answerAt (hcall : s.mThread.call th ≠ .none) :
    s.admits (.resume th (answerAt (s.mThread.call th))) = true := by
  simp only [State.admits]
  split
  · rename_i hec
    exact absurd hec hcall
  · rename_i hanswer
    exact absurd hanswer (answerAt_ne_thread _ _)
  · rename_i hec hanswer
    rw [hec] at hanswer
    cases hanswer
  · rename_i hec hanswer
    rw [hec] at hanswer
    cases hanswer
  · rfl

theorem wait_of_msleep (hcons : Consistent s) (hcall : s.mThread.call th = .msleep .wait) :
    ∃ expireTime, s.run th = .wait expireTime := by
  obtain hnone | ⟨entry, hentry, hreaches⟩ := hcons.engine th
  · rw [hcall] at hnone
    cases hnone
  · obtain rfl : entry = .msleep := by
      rw [hcall] at hreaches
      cases entry <;> first | rfl | cases hreaches
    obtain ⟨timeoutMs, hr⟩ | hwait := point_of_msleep hentry
    · have henter := hcons.sleeps th timeoutMs hr
      rw [hcall] at henter
      cases henter
    · exact hwait

theorem engine_isSome {a : WorkerThread.Action Unit Th} (hadmits : s.admits a = true)
    (hsome : (WorkerThread.step s.mThread a).isSome = true) :
    (step s (.engine a)).isSome = true := by
  obtain ⟨e, he⟩ := Option.isSome_iff_exists.mp hsome
  simp [step, hadmits, State.engineStep, he]

/-- A thread that is not blocked in mThread goes on there, in a call or outside run(). -/
theorem engine_canStep (hcons : Consistent s) (hwaits : Waits s.mThread)
    (hin : s.mThread.inside th = true) (hfree : ¬ WorkerThread.Blocked s.mThread th)
    (hleave : s.mThread.call th = .none → s.run th = .outside ∨ s.run th = .leave) :
    s.canStep th := by
  obtain hlock | hresume | hexpire := goes_on_answerAt hin hfree
  · exact Or.inl ⟨.engine (.lock th), by simp [Action.isBy], engine_isSome rfl hlock⟩
  · refine Or.inl ⟨.engine (.resume th (answerAt (s.mThread.call th))), by simp [Action.isBy],
      engine_isSome ?_ hresume⟩
    by_cases hcall : s.mThread.call th = .none
    · obtain hr | hr := hleave hcall <;> simp [State.admits, hcall, hr]
    · exact admits_answerAt hcall
  · -- it is in the wait of msleep, which may have to last longer
    have hasleep : s.mThread.mSleepCv th = true := by
      simp only [WorkerThread.step] at hexpire
      split at hexpire
      · assumption
      · cases hexpire
    obtain ⟨expireTime, hr⟩ := wait_of_msleep hcons (hwaits.sleep th hasleep).1
    by_cases hover : expireTime ≤ s.now
    · exact Or.inl ⟨.engine (.expire th), by simp [Action.isBy],
        engine_isSome (by simp [State.admits, hr, hover]) hexpire⟩
    · exact Or.inr ⟨expireTime, hr, by omega, hasleep⟩

/-- mThread takes a call from a thread that is outside it, or in run(). -/
theorem call_isSome {s₁ : State H Th} {entry : Entry Unit} (hs₁ : s₁.mThread = s.mThread)
    (hnone : s.mThread.call th = .none)
    (htask : s.mThread.task th = .none ∨ s.mThread.task th = .run ()) :
    (s₁.engineStep (.call th entry)).isSome = true := by
  have hmay : ((s.mThread.call th).isNone && (s.mThread.task th).mayCall) = true := by
    rw [hnone]
    obtain htask | htask := htask <;> rw [htask] <;> rfl
  simp only [State.engineStep, Option.isSome_map, WorkerThread.step, hs₁]
  exact Option.isSome_of_eq_some (if_pos hmay)

theorem lock_isSome {s₁ : State H Th} (hs₁ : s₁.mLock = s.mLock) (hlocks : Locks s th)
    (hfree : ¬ Blocked s th) : (s₁.lock th).isSome = true := by
  simp only [State.lock, Option.isSome_map, hs₁]
  refine ReentrantLock.acquire_isSome fun u hu => ?_
  by_contra hne
  exact hfree (.lock hlocks hu hne)

/-- A thread in a function of TimerThread, and in no function of mThread. -/
theorem callStep_isSome (hcons : Consistent s) (hcall : s.call th ≠ .none)
    (hnone : s.mThread.call th = .none) (hfree : ¬ Blocked s th) :
    (callStep s th (s.call th)).isSome = true := by
  have htask : s.mThread.task th = .none ∨ s.mThread.task th = .run () := by
    obtain htask | hin := hcons.outside th hcall
    · exact Or.inl htask
    · refine Or.inr ((hcons.runs th).mp fun hout => ?_)
      rw [hout] at hin
      cases hin
  cases hc : s.call th with
  | none => exact absurd hc hcall
  | callStop | callStart => exact call_isSome rfl hnone htask
  | stopping | starting => simp [callStep, hnone, WorkerThread.Call.isNone]
  | lock op => exact lock_isSome (s := s) rfl (.function hc) hfree
  | locked op => rfl

/-- The worker thread in run(), and in no function. -/
theorem runStep_isSome (hcons : Consistent s) (hcall : s.call th = .none)
    (hnone : s.mThread.call th = .none) (hfree : ¬ Blocked s th) (hout : s.run th ≠ .outside)
    (hleave : s.run th ≠ .leave) : (runStep s th true (s.run th)).isSome = true := by
  have htask := (hcons.runs th).mp hout
  cases hr : s.run th with
  | outside => exact absurd hr hout
  | leave => exact absurd hr hleave
  | msleep timeoutMs =>
    rw [hcons.sleeps th timeoutMs hr] at hnone
    cases hnone
  | test | arm | fire | call | finish => rfl
  | lockArm => exact lock_isSome (s := s) rfl (.arm hcall hr) hfree
  | lockFire => exact lock_isSome (s := s) rfl (.fire hcall hr) hfree
  | callMsleep timeoutMs =>
    simp only [runStep]
    split
    · rfl
    · exact call_isSome rfl hnone (Or.inr htask)
  | wait => simp [runStep, hnone, WorkerThread.Call.isNone]
  | callback => simp [runStep, hcall, Call.isNone]

/-- A thread that is not blocked can take a step, or sleeps. -/
theorem canStep_of_free (hs : (machine H Th).Reachable Machine.anyStep s)
    (hin : s.inside th = true) (hfree : ¬ Blocked s th) : s.canStep th := by
  have hcons := consistent_reachable hs
  have hwaits := (fits_and_waits_engine hs).2
  have hengine : ¬ WorkerThread.Blocked s.mThread th := fun hblocked => hfree (.engine hblocked)
  by_cases hnone : s.mThread.call th = .none
  · by_cases hcall : s.call th = .none
    · by_cases hrun : s.run th = .outside ∨ s.run th = .leave
      · refine engine_canStep hcons hwaits ?_ hengine fun _ => hrun
        rwa [State.inside, hcall] at hin
      · rw [not_or] at hrun
        exact Or.inl ⟨.run th true, by simp [Action.isBy],
          runStep_isSome hcons hcall hnone hfree hrun.1 hrun.2⟩
    · exact Or.inl ⟨.resume th, by simp [Action.isBy], callStep_isSome hcons hcall hnone hfree⟩
  · refine engine_canStep hcons hwaits (WorkerThread.inside_of_call ?_) hengine
      fun hec => absurd hec hnone
    rw [← Bool.not_eq_true, isNone_iff]
    exact hnone

end Steps

end CWrapper.TimerThreads
