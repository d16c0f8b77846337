import CWrapper.AppSteps

/-!
The program in its loop. No other thread than that of main() is in a function of mTimer or in
post(), and it is there when start(), stop() or onTimerExpired() has called them; so the calls keep
to the lifetimes and to the contract of ITimerHandler, and all broadcasts are heard.
-/
namespace CWrapper.MainLoop

open LoopCalls

variable {T Th F : Type} [DecidableEq T] {th : Th} {t : T}

/-- In no function, or in terminate(). -/
@[grind =] def isQuiet : ThreadPoint T F → Bool
  | .idle | .terminate => true
  | _ => false

theorem isQuiet_wakeAll (t : T) (thread : Th → ThreadPoint T F) (th : Th) :
    isQuiet (wakeAll t thread th) = isQuiet (thread th) := by
  unfold wakeAll
  split
  · rename_i hth
    rw [hth]
    split <;> rfl
  · rfl

omit [DecidableEq T] in
theorem isQuiet_of_idle {p : ThreadPoint T F} (h : isIdle p = true) : isQuiet p = true := by
  cases p <;> first | rfl | cases h

variable [DecidableEq Th] {capacity : ℕ+} {s s' : State T Th F} {a : Action T Th F}

/-- A thread that calls terminate() alone is in no other function. -/
theorem Moves.quiet (hm : Moves capacity s a s') (hquiet : isQuiet (s.thread th) = true)
    (ha : a.beginner = some th → a = .terminate th) : isQuiet (s'.thread th) = true := by
  cases hm with
  | broadcast x again u k hth =>
    have hwake := isQuiet_wakeAll u s.thread th
    grind [Function.update_apply]
  | broadcastPending keep u => exact (isQuiet_wakeAll u s.thread th).trans hquiet
  | broadcastLast keep u => exact (isQuiet_wakeAll u s.thread th).trans hquiet
  | lockControl x u k hout ha' hlock hlife =>
    obtain ⟨rfl, -⟩ | ⟨msec, rep, -, rfl | ⟨⟨again, rfl⟩, hx⟩⟩ := ha' <;>
      grind [Function.update_apply]
  | restart | destroy | post | postWrite | terminate | terminateWrite | object | remove
  | removeWake | lockWait | testReleased | testBlock | block | spurious | addFound | addLock
  | addScan | addInsert | addWake | leave | returnDestroy => grind [Function.update_apply]
  | _ => exact hquiet

end CWrapper.MainLoop

namespace CWrapper.App

open Transition SampleService LoopCalls

variable {Th : Type} {s : State Th}

structure LoopUse (runner : Th) (s : State Th) : Prop where
  alive : (s.mLoop.mLoop.locks ()).life = .alive
  others : ∀ th, th ≠ runner →
    s.mLoop.request th = none ∧ MainLoop.isQuiet (s.mLoop.mLoop.thread th) = true
  outside : s.call ≠ .none → isOutside s.mLoop.mLoop.loop = true
  free : s.mLoop.isFree runner = true ∨ (∃ op, s.call = .inside op .mTimer) ∨
    handled s.mLoop.mLoop.loop = some () ∧ s.posted = true

theorem not_handled_of_outside {p : MainLoop.LoopPoint Unit Unit} (h : isOutside p = true) :
    handled p = none ∧ runsUser p = true := by
  cases p <;> first | exact ⟨rfl, rfl⟩ | cases h

theorem runsUser_of_handled {p : MainLoop.LoopPoint Unit Unit} (h : handled p = some ()) :
    runsUser p = true := by
  cases p with
  | exec t e => cases e <;> first | rfl | cases h
  | _ => cases h

/-- The thread is between no test of stopAndWait() and its block. -/
theorem not_blocks_of_quiet {p : MainLoop.ThreadPoint Unit Unit} (h : MainLoop.isQuiet p = true) :
    p.blocks () = false := by
  cases p <;> first | rfl | cases h

variable [DecidableEq Th] {runner : Th} {capacity : ℕ+} {s' : State Th}

theorem no_loop_outside {m : MainLoop.State Unit Th Unit} (hout : isOutside m.loop = true)
    {answer : Bool} : MainLoop.step capacity m (.loop answer) = none := by
  cases hp : m.loop with
  | outside | exited => simp [MainLoop.step, MainLoop.loopStep, hp]
  | _ =>
    rw [hp] at hout
    cases hout

/-- The loop and the calls into it, and who is in them. -/
def InLoop (runner : Th) (capacity : ℕ+) (s : State Th) : Prop :=
  (LoopCalls.machine runner capacity).Reachable (Careful runner) s.mLoop ∧ LoopUse runner s

section Calls

/-- main() or the handler calls a function of the loop, in which it is no other one. -/
theorem InLoop.call (h : InLoop runner capacity s) {r : Request Unit Unit}
    {l : LoopCalls.State Unit Th Unit}
    (hl : LoopCalls.step runner capacity s.mLoop (.call runner r) = some l)
    (hapart : r.on () = true → handled s.mLoop.mLoop.loop = none) (hs' : s'.mLoop = l)
    (houtside : s'.call ≠ .none → isOutside s.mLoop.mLoop.loop = true)
    (hfree : (∃ op, s'.call = .inside op .mTimer) ∨
      handled s.mLoop.mLoop.loop = some () ∧ s'.posted = true) : InLoop runner capacity s' := by
  obtain ⟨hreach, huse⟩ := h
  have hl' : l = { s.mLoop with request := Function.update s.mLoop.request runner (some r) } := by
    obtain ⟨-, hl⟩ := Option.ite_none_right_eq_some.mp hl
    exact (Option.some.inj hl).symm
  have hon (t : Unit) (hc : (Action.call runner r).called = some (runner, t)) :
      handled s.mLoop.mLoop.loop = none := by
    cases r with
    | start => exact hapart rfl
    | stop => exact hapart rfl
    | post => cases hc
  refine ⟨?_, ?_⟩
  · have hstep : (LoopCalls.machine runner capacity).step s.mLoop (.call runner r) = some l := hl
    have hcareful : Careful runner s.mLoop (.call runner r) := by
      refine ⟨⟨⟨fun c _ => huse.alive, fun c hc => ?_⟩, fun c hc hrunner hloop => ?_,
        fun c hc => ?_⟩, fun b hb => ?_⟩
      · cases r <;> cases hc
      · obtain ⟨th, t⟩ := c
        obtain rfl : th = runner := hrunner
        rw [hon t hc] at hloop
        cases hloop
      · cases r <;> cases hc
      · cases hb
    rw [hs']
    exact hreach.step hcareful hstep
  · have hloop : s'.mLoop.mLoop = s.mLoop.mLoop := by rw [hs', hl']
    refine ⟨by rw [hloop]; exact huse.alive, fun th hne => ⟨?_, ?_⟩,
      fun hc => by rw [hloop]; exact houtside hc, Or.inr (by rw [hloop]; exact hfree)⟩
    rotate_left
    · rw [hloop]
      exact (huse.others th hne).2
    rw [hs', hl']
    exact (Function.update_of_ne hne ..).trans (huse.others th hne).1

/-- The loop is left alone. -/
theorem InLoop.same (h : InLoop runner capacity s) (hs' : s'.mLoop = s.mLoop)
    (hposted : s'.posted = s.posted) (hcall : s'.call ≠ .none → isOutside s.mLoop.mLoop.loop = true)
    (hfree : (∃ op, s.call = .inside op .mTimer) →
      s.mLoop.isFree runner = true ∨ ∃ op, s'.call = .inside op .mTimer) :
    InLoop runner capacity s' := by
  obtain ⟨hreach, huse⟩ := h
  refine ⟨by rw [hs']; exact hreach, by rw [hs']; exact huse.alive,
    by rw [hs']; exact huse.others, by rw [hs']; exact hcall, ?_⟩
  rw [hs', hposted]
  obtain hself | hinside | hhandled := huse.free
  · exact Or.inl hself
  · obtain hself | hinside := hfree hinside
    · exact Or.inl hself
    · exact Or.inr (Or.inl hinside)
  · exact Or.inr (Or.inr hhandled)

end Calls

section Steps

/-- A thread gets the first lock of its call. -/
theorem InLoop.enter (h : InLoop runner capacity s) {th : Th} {l : LoopCalls.State Unit Th Unit}
    (hl : LoopCalls.step runner capacity s.mLoop (.enter th) = some l) :
    InLoop runner capacity { s with mLoop := l } := by
  obtain ⟨hreach, huse⟩ := h
  have hstep : (LoopCalls.machine runner capacity).step s.mLoop (.enter th) = some l := hl
  have hcareful : Careful runner s.mLoop (.enter th) := by
    refine ⟨⟨⟨fun c hc => ?_, fun c hc => ?_⟩, fun c hc => ?_, fun c hc => ?_⟩, fun b hb => ?_⟩
    · cases hc
    · cases hc
    · cases hc
    · cases hc
    · cases hb
  obtain ⟨r, hr, hl⟩ := Option.bind_eq_some_iff.mp hl
  obtain ⟨m, hm, hl⟩ := Option.bind_eq_some_iff.mp hl
  have hmoves := MainLoop.step_cases hm
  have hth : th = runner := by
    by_contra hne
    rw [(huse.others th hne).1] at hr
    cases hr
  have hloop : m.loop = s.mLoop.mLoop.loop := by
    obtain hloop | henter | ⟨answer, hanswer⟩ | ⟨⟨e, he⟩, -⟩ := hmoves.loop_cases
    · exact hloop
    · exact absurd henter (loop_action r th).1
    · exact absurd hanswer ((loop_action r th).2.1 answer)
    · exact absurd he ((loop_action r th).2.2 e)
  have hbusy : s.mLoop.isFree runner = false := by
    rw [← hth, LoopCalls.State.isFree, hr]
    rfl
  refine ⟨hreach.step hcareful hstep, ?_⟩
  obtain rfl := Option.some.inj hl
  refine ⟨?_, fun u hne => ⟨?_, ?_⟩, fun hc => ?_, Or.inr ?_⟩
  · obtain halive | ⟨u, hu⟩ := hmoves.alive (disciplined_loop hreach).owned (held_loop hreach)
      huse.alive
    · exact halive
    · cases r <;> cases hu
  · exact (Function.update_of_ne (hth ▸ hne) ..).trans (huse.others u hne).1
  · refine hmoves.quiet (huse.others u hne).2 fun hbegins => ?_
    rw [beginner_action] at hbegins
    exact absurd (hth.symm.trans (Option.some.inj hbegins)).symm hne
  · show isOutside m.loop = true
    rw [hloop]
    exact huse.outside hc
  · obtain hself | hinside | hhandled := huse.free
    · rw [hbusy] at hself
      cases hself
    · exact Or.inl hinside
    · refine Or.inr ?_
      show handled m.loop = some () ∧ _
      rw [hloop]
      exact hhandled

/-- The steps of the loop and of the threads in it. -/
theorem InLoop.main (h : InLoop runner capacity s) {b : MainLoop.Action Unit Th Unit}
    {l : LoopCalls.State Unit Th Unit} (hadmits : s.admitsLoop runner (.main b) = true)
    (hl : LoopCalls.step runner capacity s.mLoop (.main b) = some l) :
    InLoop runner capacity (State.handle { s with mLoop := l } (.main b)) := by
  obtain ⟨hreach, huse⟩ := h
  have hliving := living_of_careful hreach
  have hstep : (LoopCalls.machine runner capacity).step s.mLoop (.main b) = some l := hl
  have hbegins (u : Th) (hu : b.beginner = some u) : b = .terminate u ∧ u ≠ runner := by
    cases b with
    | terminate th =>
      obtain rfl := Option.some.inj hu
      exact ⟨rfl, of_decide_eq_true hadmits⟩
    | start | restart | stop | destroy | post => cases hadmits
    | _ => cases hu
  obtain ⟨hmain, hl⟩ := Option.ite_none_right_eq_some.mp hl
  obtain ⟨m, hm, rfl⟩ := Option.map_eq_some_iff.mp hl
  have hmoves := MainLoop.step_cases hm
  have hfree (answer : Bool) (hb : b = .loop answer) : s.mLoop.isFree runner = true := by
    rw [hb] at hmain
    exact hliving.loop_free hmain
  have hcareful : Careful runner s.mLoop (.main b) := by
    have hcalled (c : Th × Unit) : c ∉ (Action.main (F := Unit) b).called ∧
        c ∉ (Action.main (F := Unit) b).destroyed := by
      cases b with
      | restart | destroy => cases hadmits
      | _ =>
        constructor <;>
        · intro hc
          cases hc
    refine ⟨⟨⟨fun c _ => huse.alive, fun c hc => absurd hc (hcalled c).2⟩,
      fun c hc => absurd hc (hcalled c).1, fun c hc => absurd hc (hcalled c).2⟩,
      fun b' hb' t hloop howes th => ?_⟩
    · obtain rfl := Option.some.inj hb'
      by_cases hth : th = runner
      · cases b with
        | loop answer =>
          obtain ⟨-, hidle⟩ := isFree_iff.mp (hfree answer rfl)
          rw [hth]
          exact not_blocks_of_quiet (MainLoop.isQuiet_of_idle hidle)
        | _ => cases hloop
      · exact not_blocks_of_quiet (huse.others th hth).2
  have hidle (hself : s.mLoop.isFree runner = true) :
      LoopCalls.State.isFree { s.mLoop with mLoop := m } runner = true := by
    obtain ⟨hnone, hpoint⟩ := isFree_iff.mp hself
    exact isFree_iff.mpr ⟨hnone, hmoves.idle hpoint fun hb => (hbegins runner hb).2 rfl⟩
  have hkept : isOutside s.mLoop.mLoop.loop = true → s.call ≠ .none →
      m.loop = s.mLoop.mLoop.loop := by
    intro hout hcall
    obtain hloop | rfl | ⟨answer, rfl⟩ | ⟨-, huser⟩ := hmoves.loop_cases
    · exact hloop
    · simp [State.admitsLoop, hcall] at hadmits
    · rw [no_loop_outside hout] at hm
      cases hm
    · rw [(not_handled_of_outside hout).2] at huser
      cases huser
  obtain ⟨posted, hhandle⟩ :=
    handle_fields { s with mLoop := { s.mLoop with mLoop := m } } (.main b)
  refine ⟨by rw [hhandle]; exact hreach.step hcareful hstep, ?_⟩
  have halive : (m.locks ()).life = .alive := by
    obtain halive | ⟨u, rfl⟩ := hmoves.alive (disciplined_loop hreach).owned (held_loop hreach)
      huse.alive
    · exact halive
    · cases hadmits
  have hothers (u : Th) (hne : u ≠ runner) :
      s.mLoop.request u = none ∧ MainLoop.isQuiet (m.thread u) = true :=
    ⟨(huse.others u hne).1, hmoves.quiet (huse.others u hne).2 fun hu => (hbegins u hu).1⟩
  have houtside (hc : s.call ≠ .none) : isOutside m.loop = true := by
    rw [hkept (huse.outside hc) hc]
    exact huse.outside hc
  by_cases hloop : ∃ answer, b = .loop answer
  · obtain ⟨answer, rfl⟩ := hloop
    exact ⟨halive, hothers, houtside, Or.inl (hidle (hfree answer rfl))⟩
  · have hsame : State.handle { s with mLoop := { s.mLoop with mLoop := m } } (.main b) =
        { s with mLoop := { s.mLoop with mLoop := m } } := by
      cases b <;> first | rfl | exact absurd ⟨_, rfl⟩ hloop
    rw [hsame]
    refine ⟨halive, hothers, houtside, ?_⟩
    obtain hself | hinside | ⟨hhandled, hposted⟩ := huse.free
    · exact Or.inl (hidle hself)
    · exact Or.inr (Or.inl hinside)
    · obtain hkept | rfl | hanswer | ⟨-, huser⟩ := hmoves.loop_cases
      · refine Or.inr (Or.inr ⟨?_, hposted⟩)
        show handled m.loop = some ()
        rw [hkept]
        exact hhandled
      · exact Or.inl (hidle (hliving.loop_free hmain))
      · exact absurd hanswer hloop
      · rw [runsUser_of_handled hhandled] at huser
        cases huser

/-- What the program does to the loop is a careful use of it: the handler runs on the thread that
called loop(), and calls no function of mTimer. -/
theorem InLoop.step (h : InLoop runner capacity s) (hm : Moves runner capacity s s') :
    InLoop runner capacity s' := by
  have hsame (hs' : s'.mLoop = s.mLoop) (hposted : s'.posted = s.posted)
      (hcall : s'.call = s.call) : InLoop runner capacity s' :=
    h.same hs' hposted (fun hc => h.2.outside (hcall ▸ hc)) fun hinside =>
      Or.inr (by rw [hcall]; exact hinside)
  have hmay (hmay : s.mayCall = true) :
      s.call = .none ∧ isOutside s.mLoop.mLoop.loop = true := by
    simpa [State.mayCall] using hmay
  have hnot {c : Call} (hcall : s.call = c) (hc : ∀ op, c ≠ .inside op .mTimer)
      {P : Prop} : (∃ op, s.call = .inside op .mTimer) → P := by
    intro hinside
    obtain ⟨op, hinside⟩ := hinside
    exact absurd (hcall.symm.trans hinside) (hc op)
  cases hm with
  | start hmay' => exact h.same rfl rfl (fun _ => (hmay hmay').2) (hnot (hmay hmay').1 (by simp))
  | stop hmay' => exact h.same rfl rfl (fun _ => (hmay hmay').2) (hnot (hmay hmay').1 (by simp))
  | @callTimer op l hcall hl =>
    have hout := h.2.outside (by rw [hcall]; simp)
    exact h.call hl (fun _ => (not_handled_of_outside hout).1) rfl (fun _ => hout)
      (Or.inl ⟨op, rfl⟩)
  | callService hcall =>
    exact h.same rfl rfl (fun _ => h.2.outside (by rw [hcall]; simp)) (hnot hcall (by simp))
  | callThread hcall =>
    exact h.same rfl rfl (fun _ => h.2.outside (by rw [hcall]; simp)) (hnot hcall (by simp))
  | @«return» op m hcall hreturned =>
    obtain ⟨c, started, hleave, -⟩ := leave_fields s op m
    refine h.same (by rw [hleave]) (by rw [hleave]) (fun _ => h.2.outside (by rw [hcall]; simp))
      fun hinside => Or.inl ?_
    obtain ⟨op', hinside⟩ := hinside
    rw [hcall] at hinside
    cases hinside
    exact hreturned
  | shouldRun | callMsleep | slept | callRequest | requested | service => exact hsame rfl rfl rfl
  | @thread a t =>
    obtain ⟨run, result, hfollow⟩ := follow_fields s { s with mThread := t } a
    exact hsame (by rw [hfollow]) (by rw [hfollow]) (by rw [hfollow])
  | post hhandled hnot hl =>
    refine h.call hl (fun hon => by cases hon) rfl (fun hc => h.2.outside hc)
      (Or.inr ⟨hhandled, rfl⟩)
  | @loop a l hadmits hl =>
    cases a with
    | call => cases hadmits
    | enter th => exact h.enter hl
    | main b => exact h.main hadmits hl

/-- In every reachable state the loop has been used with care, and stands where the callers want it.
-/
theorem loop_reachable (hs : (machine runner capacity).Reachable Machine.anyStep s) :
    InLoop runner capacity s := by
  refine Machine.Invariant.always (I := InLoop runner capacity) ⟨?_, ?_⟩ hs
  · intro s hinit
    obtain ⟨now, hnow, rfl⟩ := hinit
    refine ⟨⟨⟨MainLoop.State.start now, fun _ => none⟩, [.main (.setHandler () true)],
      ⟨⟨now, hnow, rfl⟩, fun _ => rfl⟩, ?_⟩, rfl, fun th _ => ⟨rfl, rfl⟩, fun hc => absurd rfl hc,
      Or.inl rfl⟩
    refine Machine.Path.single ?_ ?_
    · refine ⟨⟨⟨fun c hc => ?_, fun c hc => ?_⟩, fun c hc => ?_, fun c hc => ?_⟩,
        fun b hb t hloop => ?_⟩
      · cases hc
      · cases hc
      · cases hc
      · cases hc
      · obtain rfl := Option.some.inj hb
        cases hloop
    · rfl
  · intro s a s' _ _ hstep h
    exact h.step (step_moves hstep)

end Steps

end CWrapper.App
