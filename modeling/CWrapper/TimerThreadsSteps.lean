import CWrapper.TimerThreadsInversion

/-!
Where the threads of a TimerThread stand. mLock is held at the points that say so, and once more in
a section that the handler has entered; the worker thread is in run() as mThread has it; and a
thread is in mThread where its point in TimerThread has called it.
-/
namespace CWrapper.TimerThreads

open Transition WorkerThread

variable {H Th : Type}

/-- How many times a point holds mLock. -/
def Call.depth : Call H → ℕ
  | .locked _ => 1
  | _ => 0

def RunPoint.depth : RunPoint H → ℕ
  | .arm | .fire | .call _ _ | .callback _ _ | .finish _ => 1
  | _ => 0

def Call.engine : Call H → RunPoint H → Option (Entry Unit)
  | .stopping _, _ => some .stop
  | .starting, _ => some (.start ())
  | .none, .msleep _ => some .msleep
  | .none, .wait _ => some .msleep
  | _, _ => Option.none

theorem entry_reaches (entry : Entry Unit) :
    entry.reaches (entry.point : WorkerThread.Call Unit Th) = true := by
  cases entry <;> rfl

variable [DecidableEq Th]

structure Consistent (s : State H Th) : Prop where
  held : ∀ th, ReentrantLock.held s.mLock th = (s.call th).depth + (s.run th).depth
  runs : ∀ th, s.run th ≠ .outside ↔ s.mThread.task th = .run ()
  outside : ∀ th, s.call th ≠ .none → s.mThread.task th = .none ∨ (s.run th).inHandler = true
  engine : ∀ th, s.mThread.call th = .none ∨
    ∃ e, (s.call th).engine (s.run th) = some e ∧ e.reaches (s.mThread.call th) = true
  sleeps : ∀ th timeoutMs, s.run th = .msleep timeoutMs → s.mThread.call th = .msleep .enter

/-- The thread `th` has moved to a point of its call and a point in run(). -/
structure Turn (s s' : State H Th) (th : Th) (c : Call H) (r : RunPoint H) : Prop where
  call : s'.call = Function.update s.call th c
  run : s'.run = Function.update s.run th r
  held : ReentrantLock.held s'.mLock =
    Function.update (ReentrantLock.held s.mLock) th (c.depth + r.depth)
  calls : ∀ u, u ≠ th → s'.mThread.call u = s.mThread.call u
  task : s'.mThread.task = s.mThread.task

variable {s s' : State H Th} {th u : Th} {c : Call H} {r : RunPoint H}
  {e : WorkerThread.State Unit Th}

namespace Consistent

theorem turn (h : Consistent s) (ht : Turn s s' th c r) (hrun : r ≠ .outside ↔ s.run th ≠ .outside)
    (hout : c ≠ .none → s.mThread.task th = .none ∨ r.inHandler = true)
    (hengine : s'.mThread.call th = .none ∨
      ∃ e, c.engine r = some e ∧ e.reaches (s'.mThread.call th) = true)
    (hsleeps : ∀ timeoutMs, r = .msleep timeoutMs → s'.mThread.call th = .msleep .enter) :
    Consistent s' := by
  refine ⟨fun u => ?_, fun u => ?_, fun u => ?_, fun u => ?_, fun u => ?_⟩ <;> by_cases hu : u = th
  · rw [ht.held, ht.call, ht.run, hu, Function.update_self, Function.update_self,
      Function.update_self]
  · rw [ht.held, ht.call, ht.run, Function.update_of_ne hu, Function.update_of_ne hu,
      Function.update_of_ne hu]
    exact h.held u
  · rw [ht.run, ht.task, hu, Function.update_self, hrun]
    exact h.runs th
  · rw [ht.run, ht.task, Function.update_of_ne hu]
    exact h.runs u
  · rw [ht.call, ht.run, ht.task, hu, Function.update_self, Function.update_self]
    exact hout
  · rw [ht.call, ht.run, ht.task, Function.update_of_ne hu, Function.update_of_ne hu]
    exact h.outside u
  · rw [ht.call, ht.run, hu, Function.update_self, Function.update_self]
    exact hengine
  · rw [ht.call, ht.run, Function.update_of_ne hu, Function.update_of_ne hu, ht.calls u hu]
    exact h.engine u
  · rw [ht.run, hu, Function.update_self]
    exact hsleeps
  · rw [ht.run, Function.update_of_ne hu, ht.calls u hu]
    exact h.sleeps u

/-- Outside the handler, the worker thread is in no function of TimerThread. -/
theorem call_none (h : Consistent s) (hrun : s.run th ≠ .outside)
    (hnot : (s.run th).inHandler = false) : s.call th = .none := by
  by_contra hcall
  obtain htask | hin := h.outside th hcall
  · rw [(h.runs th).mp hrun] at htask
    cases htask
  · rw [hnot] at hin
    cases hin

/-- A thread is in mThread only where its point has called it. -/
theorem engine_none (h : Consistent s) (hnot : (s.call th).engine (s.run th) = none) :
    s.mThread.call th = .none := by
  obtain hnone | ⟨e, he, -⟩ := h.engine th
  · exact hnone
  · rw [hnot] at he
    cases he

/-- The calls of TimerThread into mThread. -/
theorem enters (h : Consistent s) {entry : Entry Unit} (hs' : s'.mThread = e)
    (hcall : s'.call = Function.update s.call th c) (hrun : s'.run = Function.update s.run th r)
    (hlock : s'.mLock = s.mLock) (hdepth : c.depth + r.depth = (s.call th).depth + (s.run th).depth)
    (hruns : r ≠ .outside ↔ s.run th ≠ .outside)
    (hout : c ≠ .none → s.mThread.task th = .none ∨ r.inHandler = true)
    (hentry : c.engine r = some entry)
    (hr : ∀ timeoutMs, r = .msleep timeoutMs → entry = .msleep)
    (he : WorkerThread.step s.mThread (.call th entry) = some e) : Consistent s' := by
  cases WorkerThread.step_moves he
  refine h.turn ⟨hcall, hrun, ?_, fun u hu => ?_, by rw [hs']; rfl⟩ hruns hout
    (Or.inr ⟨entry, hentry, ?_⟩) (fun timeoutMs hmsleep => ?_)
  · rw [hlock, hdepth, ← h.held th, Function.update_eq_self]
  · rw [hs']
    exact Function.update_of_ne hu ..
  · rw [hs']
    simp only [WorkerThread.State.goto, Function.update_self]
    exact entry_reaches entry
  · obtain rfl := hr timeoutMs hmsleep
    rw [hs']
    exact Function.update_self ..

/-- A step that leaves mThread alone, from a point at which the thread is not in mThread. -/
theorem moves (h : Consistent s) (hs' : s'.mThread = s.mThread)
    (hcall : s'.call = Function.update s.call th c) (hrun : s'.run = Function.update s.run th r)
    (hheld : ReentrantLock.held s'.mLock =
      Function.update (ReentrantLock.held s.mLock) th (c.depth + r.depth))
    (hruns : r ≠ .outside ↔ s.run th ≠ .outside)
    (hout : c ≠ .none → s.mThread.task th = .none ∨ r.inHandler = true)
    (hnone : s.mThread.call th = .none) (hr : r = s.run th ∨ ∀ timeoutMs, r ≠ .msleep timeoutMs) :
    Consistent s' := by
  refine h.turn ⟨hcall, hrun, hheld, fun u _ => by rw [hs'], by rw [hs']⟩ hruns hout (Or.inl ?_)
    (fun timeoutMs hmsleep => ?_)
  · rw [hs']
    exact hnone
  · obtain rfl | hr := hr
    · rw [h.sleeps th timeoutMs hmsleep] at hnone
      cases hnone
    · exact absurd hmsleep (hr timeoutMs)

end Consistent

section Call

/-- A section changes the data only. -/
theorem assign_fields (s : State H Th) (th : Th) (op : Operation H) :
    (s.assign th op).mThread = s.mThread ∧ (s.assign th op).mLock = s.mLock ∧
      (s.assign th op).call = s.call ∧ (s.assign th op).run = s.run := by
  cases op <;> exact ⟨rfl, rfl, rfl, rfl⟩

theorem entry_depth (op : Operation H) : op.entry.depth = 0 := by
  cases op <;> rfl

theorem stopped_depth (op : Operation H) : op.stopped.depth = 0 := by
  cases op <;> rfl

theorem unlocked_depth (op : Operation H) : op.unlocked.depth = 0 := by
  cases op <;> rfl

/-- A function begins from outside, or from the handler. -/
theorem Consistent.enter (h : Consistent s) {op : Operation H} (hmay : s.mayCall th = true) :
    Consistent (s.goto th op.entry) := by
  simp only [State.mayCall, Bool.and_eq_true, Bool.or_eq_true] at hmay
  obtain ⟨⟨hnone, hengine⟩, hout⟩ := hmay
  have hcall : s.call th = .none := by
    cases hc : s.call th <;> first | rfl | (rw [hc] at hnone; cases hnone)
  refine h.moves rfl rfl (Function.update_eq_self ..).symm ?_ Iff.rfl (fun _ => ?_)
    (isNone_iff.mp hengine) (Or.inl rfl)
  · rw [entry_depth]
    have hheld := h.held th
    rw [hcall] at hheld
    exact (Function.update_eq_self_iff.mpr hheld.symm).symm
  · obtain htask | hin := hout
    · exact Or.inl (task_isNone_iff.mp htask)
    · exact Or.inr hin

theorem Consistent.callStep (h : Consistent s) (hsteps : CallSteps s th (s.call th) s') :
    Consistent s' := by
  generalize hc : s.call th = c at hsteps
  have hheld := h.held th
  rw [hc] at hheld
  have hsame : s.run = Function.update s.run th (s.run th) := (Function.update_eq_self ..).symm
  have hout (hne : c ≠ .none) {d : Call H} (_ : d ≠ .none) :
      s.mThread.task th = .none ∨ (s.run th).inHandler = true := h.outside th (by rwa [hc])
  have hnot (hne : c ≠ .none) {entry : Entry Unit} (timeoutMs : BitVec 32)
      (hr : s.run th = .msleep timeoutMs) : entry = .msleep := by
    rw [h.call_none (by rw [hr]; simp) (by rw [hr]; rfl)] at hc
    exact absurd hc.symm hne
  cases hsteps with
  | @callStop op e he =>
    exact h.enters (e := e) (c := .stopping op) rfl rfl hsame rfl (by rw [hc]; rfl) Iff.rfl
      (hout (by simp)) rfl (hnot (by simp)) he
  | stopped op hnone =>
    refine h.moves (c := op.stopped) rfl rfl hsame ?_ Iff.rfl (hout (by simp)) hnone (Or.inl rfl)
    rw [stopped_depth]
    exact (Function.update_eq_self_iff.mpr hheld.symm).symm
  | @lock op l hl =>
    refine h.moves (c := .locked op) rfl rfl hsame ?_ Iff.rfl (hout (by simp))
      (h.engine_none ?_) (Or.inl rfl)
    · show ReentrantLock.held l = _
      rw [ReentrantLock.held_acquire hl]
      show Function.update (ReentrantLock.held s.mLock) th (ReentrantLock.held s.mLock th + 1) = _
      rw [hheld]
      congr 1
      simp only [Call.depth]
      omega
    · rw [hc]
      rfl
  | assign op =>
    obtain ⟨hthread, hlock, hcalls, hruns⟩ := assign_fields s th op
    have hpos : 0 < ReentrantLock.held s.mLock th := by
      rw [hheld]
      simp only [Call.depth]
      omega
    refine h.moves (c := op.unlocked) (r := s.run th) hthread ?_ (hruns.trans hsame) ?_ Iff.rfl
      (hout (by simp)) (h.engine_none ?_) (Or.inl rfl)
    · show Function.update (s.assign th op).call th op.unlocked = _
      rw [hcalls]
    · show ReentrantLock.held (ReentrantLock.release (s.assign th op).mLock) = _
      rw [hlock, ReentrantLock.held_release hpos, hheld, unlocked_depth]
      congr 1
      simp only [Call.depth]
      omega
    · rw [hc]
      rfl
  | @callStart e he =>
    exact h.enters (e := e) (c := .starting) rfl rfl hsame rfl (by rw [hc]; rfl) Iff.rfl
      (hout (by simp)) rfl (hnot (by simp)) he
  | started hnone =>
    exact h.moves (c := .none) rfl rfl hsame (Function.update_eq_self_iff.mpr hheld.symm).symm
      Iff.rfl (hout (by simp)) hnone (Or.inl rfl)

end Call

section Run

/-- A step of run() that leaves mThread alone. -/
theorem Consistent.runTo (h : Consistent s) (hs' : s'.mThread = s.mThread)
    (hcall : s'.call = s.call) (hrun : s'.run = Function.update s.run th r)
    (hheld : ReentrantLock.held s'.mLock =
      Function.update (ReentrantLock.held s.mLock) th r.depth)
    (hin : s.run th ≠ .outside) (hr : r ≠ .outside ∧ ∀ timeoutMs, r ≠ .msleep timeoutMs)
    (hnone : s.call th = .none) (hengine : s.mThread.call th = .none) : Consistent s' := by
  refine h.moves (c := .none) hs' ?_ hrun ?_ (iff_of_true hr.1 hin) (fun hne => absurd rfl hne)
    hengine (Or.inr hr.2)
  · rw [hcall, ← hnone, Function.update_eq_self]
  · rw [hheld]
    exact congrArg (Function.update _ th) (Nat.zero_add r.depth).symm

variable {r' : RunPoint H}

omit [DecidableEq Th] in
/-- The thread is at a point of run() at which it is in no other function, and stays in run(). -/
theorem RunGoes.points (h : RunGoes s r r') : r.inHandler = false ∧
    (Call.none : Call H).engine r = none ∧ r'.depth = r.depth ∧ r ≠ .outside ∧ r' ≠ .outside ∧
    ∀ timeoutMs, r' ≠ .msleep timeoutMs := by
  cases h <;> simp [RunPoint.inHandler, Call.engine, RunPoint.depth]

theorem RunLocks.points (h : RunLocks r r') : r.inHandler = false ∧
    (Call.none : Call H).engine r = none ∧ r'.depth = r.depth + 1 ∧ r ≠ .outside ∧ r' ≠ .outside ∧
    ∀ timeoutMs, r' ≠ .msleep timeoutMs := by
  cases h <;> simp [RunPoint.inHandler, Call.engine, RunPoint.depth]

theorem RunUnlocks.points (h : RunUnlocks r r') : r.inHandler = false ∧
    (Call.none : Call H).engine r = none ∧ r.depth = r'.depth + 1 ∧ r ≠ .outside ∧ r' ≠ .outside ∧
    ∀ timeoutMs, r' ≠ .msleep timeoutMs := by
  cases h <;> simp [RunPoint.inHandler, Call.engine, RunPoint.depth]

/-- A step of run() keeps mLock with those who hold it. -/
theorem Consistent.runStep (h : Consistent s) (hsteps : RunSteps s th (s.run th) s') :
    Consistent s' := by
  generalize hr : s.run th = r at hsteps
  have hnone (hin : r ≠ .outside) (hnot : r.inHandler = false) : s.call th = .none :=
    h.call_none (by rwa [hr]) (by rw [hr, hnot])
  have hengine (hin : r ≠ .outside) (hnot : r.inHandler = false)
      (hfun : (Call.none : Call H).engine r = none) : s.mThread.call th = .none :=
    h.engine_none (by rw [hnone hin hnot, hr, hfun])
  have hheld (hcall : s.call th = .none) : ReentrantLock.held s.mLock th = r.depth := by
    rw [h.held th, hcall, hr]
    exact Nat.zero_add r.depth
  have hsame {d : RunPoint H} (hcall : s.call th = .none) (hd : d.depth = r.depth) :
      ReentrantLock.held s.mLock = Function.update (ReentrantLock.held s.mLock) th d.depth := by
    rw [hd]
    exact (Function.update_eq_self_iff.mpr (hheld hcall).symm).symm
  cases hsteps with
  | goes hgoes =>
    obtain ⟨hnot, hfun, hdepth, hin, hr'⟩ := hgoes.points
    exact h.runTo rfl rfl rfl (hsame (hnone hin hnot) hdepth) (by rwa [hr]) hr' (hnone hin hnot)
      (hengine hin hnot hfun)
  | @lock _ r' l hlocks hl =>
    obtain ⟨hnot, hfun, hdepth, hin, hr'⟩ := hlocks.points
    refine h.runTo rfl rfl rfl ?_ (by rwa [hr]) hr' (hnone hin hnot) (hengine hin hnot hfun)
    show ReentrantLock.held l = _
    rw [ReentrantLock.held_acquire hl, hheld (hnone hin hnot), hdepth]
  | unlock hunlocks =>
    obtain ⟨hnot, hfun, hdepth, hin, hr'⟩ := hunlocks.points
    have hheld' := hheld (hnone hin hnot)
    rw [hdepth] at hheld'
    refine h.runTo rfl rfl rfl ?_ (by rwa [hr]) hr' (hnone hin hnot) (hengine hin hnot hfun)
    show ReentrantLock.held (ReentrantLock.release s.mLock) = _
    rw [ReentrantLock.held_release (by rw [hheld']; exact Nat.succ_pos _), hheld',
      Nat.add_sub_cancel]
  | @callMsleep timeoutMs e he =>
    have hcall := hnone (by simp) rfl
    refine h.enters (e := e) (c := .none) (r := .msleep timeoutMs) rfl ?_ rfl rfl ?_
      (iff_of_true (by simp) (by rw [hr]; simp)) (fun hne => absurd rfl hne) rfl (fun _ _ => rfl) he
    · show s.call = _
      rw [← hcall, Function.update_eq_self]
    · rw [hr, hcall]
      rfl
  | awake expireTime hidle =>
    exact h.runTo (r := .lockFire) rfl rfl rfl (hsame (hnone (by simp) rfl) rfl) (by rw [hr]; simp)
      (by simp) (hnone (by simp) rfl) hidle
  | returned keepGoing handler answer hcall =>
    exact h.runTo (r := .finish (keepGoing && answer)) rfl rfl rfl (hsame hcall rfl)
      (by rw [hr]; simp) (by simp) hcall (h.engine_none (by rw [hcall, hr]; rfl))

end Run

end CWrapper.TimerThreads
