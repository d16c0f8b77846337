import CWrapper.LockDiscipline

/-!
The system seen from one timer. With the locks in order, a step of the system is a step
in the life of the timer it is about and nothing in the life of every other, so what is
kept by the steps of one life holds of every timer in every reachable state.
-/
set_option linter.unusedSectionVars false

namespace CWrapper.MainLoop

open Timer (Object Call Control Exec)
open TimerLife

variable {T Th F : Type} [DecidableEq T] [DecidableEq Th]

def ThreadPoint.on (t : T) : ThreadPoint T F → Option Control
  | .timer u c => if u = t then some c else none
  | _ => none

def LoopPoint.on (t : T) : LoopPoint T F → Option Exec
  | .exec u e => if u = t then some e else none
  | _ => none

/-- The control call that is in progress on `t`. A destroyed timer stays at its end. -/
def State.control (s : State T Th F) (t : T) : Option Control :=
  match (s.locks t).life with
  | .alive => (s.locks t).mControlLock.bind fun th => (s.thread th).on t
  | .dying th => (s.thread th).on t
  | .dead => some .returnDestroy

def State.life (s : State T Th F) (t : T) : Life where
  now := s.now
  o := s.timer t
  history := s.history t
  listed := t ∈ s.mTimers
  exec := s.loop.on t
  control := s.control t

theorem Owned.control_eq {s : State T Th F} (h : Owned s) (th : Th) (t : T) {c : Control}
    (hth : s.thread th = .timer t c) : s.control t = some c := by
  rcases h th t c hth with hlife | ⟨hlife, hlock⟩
  · simp [State.control, hlife, hth, ThreadPoint.on]
  · simp [State.control, hlife, hlock, hth, ThreadPoint.on]

theorem control_congr {s s' : State T Th F} {t : T}
    (hlife : (s'.locks t).life = (s.locks t).life)
    (hlock : (s'.locks t).mControlLock = (s.locks t).mControlLock)
    (hthread : ∀ th, (s'.thread th).on t = (s.thread th).on t) : s'.control t = s.control t := by
  simp only [State.control, hlife, hlock, hthread]

theorem on_update {thread : Th → ThreadPoint T F} {th : Th} {p : ThreadPoint T F} {t : T}
    (hth : (thread th).on t = none) (hp : p.on t = none) (th' : Th) :
    (Function.update thread th p th').on t = (thread th').on t := by
  by_cases he : th' = th
  · subst he
    simp [hth, hp]
  · rw [Function.update_of_ne he]

theorem on_of_betweenCalls {p : ThreadPoint T F} (h : p.betweenCalls) (t : T) :
    p.on t = none := by
  cases p <;> simp_all [ThreadPoint.on, ThreadPoint.betweenCalls]

theorem on_of_ne {p : ThreadPoint T F} {t u : T} {c : Control} (h : p = .timer u c)
    (hne : t ≠ u) : p.on t = none := by
  simp [h, ThreadPoint.on, Ne.symm hne]

theorem on_wakeAll (t u : T) (thread : Th → ThreadPoint T F) (th : Th) :
    (wakeAll t thread th).on u =
      if u = t then ((thread th).on u).map wake else (thread th).on u := by
  unfold wakeAll
  cases hth : thread th with
  | timer v c =>
    cases c <;> simp only [ThreadPoint.on] <;> grind [wake]
  | _ => simp [ThreadPoint.on]

theorem control_wakeAll (s : State T Th F) (t u : T) (loop : LoopPoint T F) :
    ({ s with thread := wakeAll t s.thread, loop := loop } : State T Th F).control u =
      if u = t then (s.control u).map wake else s.control u := by
  unfold State.control
  cases hlife : (s.locks u).life with
  | alive => cases hlock : (s.locks u).mControlLock <;> simp [on_wakeAll]
  | dying th => simp [on_wakeAll]
  | dead => simp [wake]

theorem exists_thread_of_control {s : State T Th F} {t : T} {c : Control}
    (h : s.control t = some c) (hc : c ≠ .returnDestroy) : ∃ th, s.thread th = .timer t c := by
  have hon : ∀ th, (s.thread th).on t = some c → s.thread th = .timer t c := by
    intro th hth
    cases hp : s.thread th <;> simp only [hp, ThreadPoint.on] at hth <;> grind
  unfold State.control at h
  split at h
  · obtain ⟨th, _, hth⟩ := Option.bind_eq_some_iff.mp h
    exact ⟨th, hon th hth⟩
  · exact ⟨_, hon _ h⟩
  · exact absurd (Option.some.inj h).symm hc

theorem loop_of_on {p : LoopPoint T F} {t : T} {e : Exec} (h : p.on t = some e) :
    p = .exec t e := by
  cases p <;> simp only [LoopPoint.on] at h <;> grind

theorem not_locked_on {p : LoopPoint T F} (h : ¬ p.inSection) (t : T) : ¬ locked (p.on t) := by
  cases he : p.on t with
  | none => simp [locked]
  | some e =>
    rw [loop_of_on he] at h
    exact h

theorem Sections.not_scanning {s : State T Th F} (h : Sections s)
    (hlock : s.mTimerLock = none ∨ s.mTimerLock = some .loop) (t : T) :
    ¬ scanning (s.control t) := by
  cases hc : s.control t with
  | none => simp [scanning]
  | some c =>
    cases c with
    | addScan i =>
      obtain ⟨th, hth⟩ := exists_thread_of_control hc (by simp)
      exact absurd hth (h.no_scan hlock th t i)
    | _ => simp [scanning]

/-- Who moves in the life of `t` when the system takes the action. -/
def actor (s : State T Th F) (a : Action T Th F) (t : T) : Actor :=
  match a with
  | .thread th _ =>
      match s.thread th with
      | .timer u _ => if u = t then .control else .environment
      | .restart u msec rep => if u = t then .begins (.start msec rep) else .environment
      | _ => .environment
  | .start _ u msec rep => if u = t then .begins (.start msec rep) else .environment
  | .stop _ u => if u = t then .begins .stop else .environment
  | .destroy _ u => if u = t then .begins .destroy else .environment
  | .loop _ => .loop
  | _ => .environment

theorem life_eq {s s' : State T Th F} {t : T} (hn : s'.now = s.now)
    (ho : s'.timer t = s.timer t) (hh : s'.history t = s.history t)
    (hl : t ∈ s'.mTimers ↔ t ∈ s.mTimers) (he : s'.loop.on t = s.loop.on t)
    (hc : s'.control t = s.control t) : s'.life t = s.life t := by
  simp only [State.life, hn, ho, hh, hl, he, hc]

theorem mem_tail_iff {l : List T} {t u : T} (hhead : l.head? = some t) (hne : u ≠ t) :
    u ∈ l.tail ↔ u ∈ l := by
  cases l with
  | nil => simp at hhead
  | cons x xs =>
    cases hhead
    simp [hne]

theorem not_mem_tail {l : List T} {t : T} (hnodup : l.Nodup) (hhead : l.head? = some t) :
    t ∉ l.tail := by
  cases l with
  | nil => simp at hhead
  | cons x xs =>
    cases hhead
    exact (List.nodup_cons.mp hnodup).1

structure Clocked (s : State T Th F) : Prop where
  bound : s.now ≤ Timer.MaxTick
  read : ∀ now, s.loop = .readFront now → now ≤ s.now

theorem clocked_step {capacity : ℕ+} {s s' : State T Th F} {a : Action T Th F}
    (hm : Moves capacity s a s') (h : Clocked s) : Clocked s' := by
  cases hm with
  | tick d hd => exact ⟨hd, fun now hloop => Nat.le_add_right_of_le (h.read now hloop)⟩
  | takeTimer answer hpoint hlock =>
    refine ⟨h.bound, ?_⟩
    intro now hloop
    cases hloop
    exact le_refl _
  | nextTimeout answer hpoint hlock => exact ⟨h.bound, by grind⟩
  | noFunction answer executedAny hpoint hlock hempty => exact ⟨h.bound, by grind⟩
  | testTerminated answer terminated evs hpoint => exact ⟨h.bound, by grind⟩
  | epollReturn r now w p hpoint hp => exact ⟨h.bound, by grind⟩
  | popFront keep t b hpoint => exact ⟨h.bound, by grind⟩
  | enter | takeFunction | invoke | noneExpired | expired | batchDone | watcher | command
  | readInterrupted | readEmpty | readByte | execute | broadcastPending | broadcastLast
  | requeueFound | requeueLock | requeueScan | requeueInsert | requeueWake | requeueRemove
  | requeueRemoveWake => exact ⟨h.bound, by simp⟩
  | _ => exact ⟨h.bound, h.read⟩

/-- A thread that is in no call on `t`, before and after. -/
theorem idle_thread {s s' : State T Th F} {t : T} (a : Actor) {th : Th} {p : ThreadPoint T F}
    (hth : (s.thread th).on t = none) (hp : p.on t = none)
    (hthread : s'.thread = Function.update s.thread th p) (hlocks : s'.locks t = s.locks t)
    (hsame : { s'.life t with control := s.control t } = s.life t) :
    LifeStep a (s.life t) (s'.life t) := by
  have hcontrol : s'.control t = s.control t := by
    refine control_congr (by rw [hlocks]) (by rw [hlocks]) ?_
    rw [hthread]
    exact on_update hth hp
  refine LifeStep.of_eq a ?_
  rw [← hsame, ← hcontrol]
  rfl

/-- The step of a call on `u` is seen in the life of `u` only. -/
theorem life_control {s s' : State T Th F} (hO : Owned s) (hO' : Owned s') {th : Th}
    {again : Bool} {t u : T} {c c' : Control} (hth : s.thread th = .timer u c)
    (hthread : s'.thread = s.goto th u c') (hlocks : t ≠ u → s'.locks t = s.locks t)
    (hsame : t ≠ u → { s'.life t with control := s.control t } = s.life t)
    (hstep : s.control u = some c → s'.control u = some c' →
      LifeStep .control (s.life u) (s'.life u)) :
    LifeStep (actor s (.thread th again) t) (s.life t) (s'.life t) := by
  by_cases hu : t = u
  · subst hu
    have hc' : s'.control t = some c' := hO'.control_eq th t (by simp [hthread, State.goto])
    simp only [actor, hth, if_true]
    exact hstep (hO.control_eq th t hth) hc'
  · exact idle_thread _ (on_of_ne hth hu) (on_of_ne rfl hu) hthread (hlocks hu) (hsame hu)

/-- The same for a step that leaves the timers, the list and the loop thread alone. -/
theorem life_call {s s' : State T Th F} (hO : Owned s) (hO' : Owned s') {th : Th} {again : Bool}
    {t u : T} {c c' : Control} (hth : s.thread th = .timer u c)
    (hthread : s'.thread = s.goto th u c') (hlocks : t ≠ u → s'.locks t = s.locks t)
    (hsame : ∀ v, { s'.life v with control := s.control v } = s.life v)
    (hstep : s.control u = some c →
      LifeStep .control (s.life u) { s.life u with control := some c' }) :
    LifeStep (actor s (.thread th again) t) (s.life t) (s'.life t) := by
  refine life_control hO hO' hth hthread hlocks (fun _ => hsame t) (fun hc hc' => ?_)
  refine (hstep hc).to ?_
  rw [← hsame, ← hc']
  rfl

/-- The loop thread is not at `t`, before and after. -/
theorem idle_loop {s s' : State T Th F} {t : T} (a : Actor) (hfrom : s.loop.on t = none)
    (hto : s'.loop.on t = none) (hsame : { s'.life t with exec := s.loop.on t } = s.life t) :
    LifeStep a (s.life t) (s'.life t) := by
  refine LifeStep.of_eq a ?_
  rw [← hsame, hfrom, ← hto]
  rfl

/-- The step of an execution of `u` is seen in the life of `u` only. -/
theorem life_loop {s s' : State T Th F} {t u : T} {e : Exec} (hpoint : s.loop = .exec u e)
    (hto : t ≠ u → s'.loop.on t = none)
    (hsame : t ≠ u → { s'.life t with exec := s.loop.on t } = s.life t)
    (hstep : s.loop.on u = some e → LifeStep .loop (s.life u) (s'.life u)) :
    LifeStep .loop (s.life t) (s'.life t) := by
  by_cases hu : t = u
  · subst hu
    exact hstep (by simp [hpoint, LoopPoint.on])
  · exact idle_loop _ (by simp [hpoint, LoopPoint.on, Ne.symm hu]) (hto hu) (hsame hu)

/-- The same for a step that leaves the timers, the list and the threads alone. -/
theorem life_exec {s s' : State T Th F} {t u : T} {e e' : Exec} (hpoint : s.loop = .exec u e)
    (hloop : s'.loop = .exec u e')
    (hsame : ∀ v, { s'.life v with exec := s.loop.on v } = s.life v)
    (hstep : s.loop.on u = some e → LifeStep .loop (s.life u) { s.life u with exec := some e' }) :
    LifeStep .loop (s.life t) (s'.life t) := by
  refine life_loop hpoint ?_ (fun _ => hsame t) (fun he => ?_)
  · intro hu
    simp [hloop, LoopPoint.on, Ne.symm hu]
  · have he' : s'.loop.on u = some e' := by simp [hloop, LoopPoint.on]
    refine (hstep he).to ?_
    rw [← hsame, ← he']
    rfl

theorem life_config (s : State T Th F) (u : T) (o : Object)
    (hstate : o.mState = (s.timer u).mState)
    (hstop : o.mStopRequested = (s.timer u).mStopRequested)
    (hexpiry : o.mExpiry = (s.timer u).mExpiry) (t : T) :
    LifeStep .environment (s.life t) ((s.withObject u o).life t) := by
  by_cases hu : t = u
  · subst hu
    exact LifeStep.to (.config o hstate hstop hexpiry)
      (by simp [State.life, State.withObject, State.control])
  · exact LifeStep.of_eq _ (life_eq rfl (by simp [State.withObject, hu]) rfl Iff.rfl rfl rfl)

/-- The simulation: a step of the system is a step, or no step, of every life. -/
theorem life_step {capacity : ℕ+} {s s' : State T Th F} {a : Action T Th F}
    (hm : Moves capacity s a s') (hO : Owned s) (hS : Sections s) (hL : Listing s)
    (hC : Clocked s) (t : T) :
    LifeStep (actor s a t) (s.life t) (s'.life t) := by
  have hO' := owned_step hm hO
  cases hm with
  | stay => exact .idle _ _
  | tick d hd => exact LifeStep.to (.tick d hd) (by simp [State.life, State.control])
  | setHandler u handler =>
    exact life_config s u { s.timer u with mHandler := handler } rfl rfl rfl t
  | setInterval u msec => exact life_config s u { s.timer u with mInterval := msec } rfl rfl rfl t
  | setRepeat u rep => exact life_config s u { s.timer u with mRepeat := rep } rfl rfl rfl t
  | lockControl th u k hout ha hlock hlife =>
    by_cases hu : t = u
    · subst hu
      have hactor : actor s a t = .begins k := by
        rcases ha with ⟨rfl, rfl⟩ | ⟨msec, rep, rfl, rfl | ⟨⟨again, rfl⟩, hr⟩⟩
        · simp [actor]
        · simp [actor]
        · simp [actor, hr]
      have hc' := hO'.control_eq th t (c := .load k) (by simp [State.goto])
      rw [hactor]
      exact LifeStep.to (.begins k (by simp [State.life, State.control, hlife, hlock]))
        (by simp [State.life, hc'])
    · exact idle_thread _ (on_of_betweenCalls hout t) (on_of_ne rfl hu) rfl (by simp [hu]) rfl
  | restart th u hout => exact idle_thread _ (on_of_betweenCalls hout t) rfl rfl rfl rfl
  | destroy th u hout hlock hlife =>
    by_cases hu : t = u
    · subst hu
      have hc' := hO'.control_eq th t (c := .load .destroy) (by simp [State.goto])
      simp only [actor, if_true]
      exact LifeStep.to (.begins .destroy (by simp [State.life, State.control, hlife, hlock]))
        (by simp [State.life, hc'])
    · exact idle_thread _ (on_of_betweenCalls hout t) (on_of_ne rfl hu) rfl (by simp [hu]) rfl
  | post th func hth hlock => exact idle_thread _ (by rw [hth]; rfl) rfl rfl rfl rfl
  | postWrite th again func hth => exact idle_thread _ (by rw [hth]; rfl) rfl rfl rfl rfl
  | wakeup => exact .idle _ _
  | terminate th hth => exact idle_thread _ (by rw [hth]; rfl) rfl rfl rfl rfl
  | terminateWrite th again hth => exact idle_thread _ (by rw [hth]; rfl) rfl rfl rfl rfl
  | object th again u c c' o hth hstep =>
    refine life_control hO hO' hth rfl (fun _ => rfl) (fun hu => by simp [State.life, hu]) ?_
    intro hc hc'
    exact LifeStep.to (.object hc hstep) (by simp [State.life, hc'])
  | remove th again u k hth hlock =>
    have hfree := not_locked_on (hS.not_inSection (by simp [hlock])) u
    refine life_control hO hO' hth rfl (fun _ => rfl) ?_ ?_
    · intro hu
      simp [State.life, List.mem_erase_of_ne hu]
    · intro hc hc'
      exact LifeStep.to (.remove hc hfree) (by simp [State.life, hc', hL.nodup.not_mem_erase])
  | removeWake th again u k hth =>
    exact life_call hO hO' hth rfl (fun _ => rfl) (fun _ => rfl)
      (fun hc => .advance hc (.removeWake k))
  | broadcast th again u k hth =>
    by_cases hu : t = u
    · subst hu
      have hc' := hO'.control_eq th t (c := Timer.afterStop k) (by simp)
      simp only [actor, hth, if_true]
      exact LifeStep.to (.advance (hO.control_eq th t hth) (.broadcast k))
        (by simp [State.life, hc'])
    · refine LifeStep.of_eq _ (life_eq rfl rfl rfl Iff.rfl rfl (control_congr rfl rfl ?_))
      intro th'
      have hwake := fun th' => on_wakeAll u t s.thread th'
      simp only [if_neg hu] at hwake
      exact (on_update ((hwake th).trans (on_of_ne hth hu)) (on_of_ne rfl hu) th').trans
        (hwake th')
  | lockWait th again u k hth hlock =>
    rcases hth with hth | hth
    · exact life_call hO hO' hth rfl (fun hu => by simp [hu]) (fun _ => rfl)
        (fun hc => .advance hc (.lockWait k))
    · exact life_call hO hO' hth rfl (fun hu => by simp [hu]) (fun _ => rfl)
        (fun hc => .advance hc (.relock k))
  | testReleased th again u k hth hrel =>
    refine life_call hO hO' hth rfl (fun hu => by simp [hu]) (fun _ => rfl) (fun hc => ?_)
    exact LifeStep.to (.test hc) (by simp [State.life, hrel])
  | testBlock th again u k hth hrel =>
    refine life_call hO hO' hth rfl (fun _ => rfl) (fun _ => rfl) (fun hc => ?_)
    exact LifeStep.to (.test hc) (by simp [State.life, hrel])
  | block th again u k hth =>
    exact life_call hO hO' hth rfl (fun hu => by simp [hu]) (fun _ => rfl)
      (fun hc => .advance hc (.block k))
  | spurious th again u k hth =>
    exact life_call hO hO' hth rfl (fun _ => rfl) (fun _ => rfl)
      (fun hc => .advance hc (.spurious k))
  | addFound th again u hth hlock hmem =>
    exact life_call hO hO' hth rfl (fun _ => rfl) (fun _ => rfl) (fun hc => .addFound hc hmem)
  | addLock th again u hth hlock hmem =>
    have hfree := not_locked_on (hS.not_inSection (by simp [hlock])) u
    exact life_call hO hO' hth rfl (fun _ => rfl) (fun _ => rfl) (fun hc => .addLock hc hfree)
  | addScan th again u i hth hpos =>
    exact life_call hO hO' hth rfl (fun _ => rfl) (fun _ => rfl)
      (fun hc => .advance hc (.addScan i))
  | addInsert th again u i hth hpos =>
    have hi := (hL.thread th u i hth).2
    refine life_control hO hO' hth rfl (fun _ => rfl) ?_ ?_
    · intro hu
      simp [State.life, List.mem_insertIdx hi, hu]
    · intro hc hc'
      exact LifeStep.to (.insert (n := s.insertions) hc)
        (by simp [State.life, hc', List.mem_insertIdx hi])
  | addWake th again u hth =>
    exact life_call hO hO' hth rfl (fun _ => rfl) (fun _ => rfl) (fun hc => .advance hc .addWake)
  | leave th again u c hth hret =>
    by_cases hu : t = u
    · subst hu
      simp only [actor, hth, if_true]
      refine LifeStep.to (.leave (hO.control_eq th t hth) hret) ?_
      rcases hO th t c hth with hlife | ⟨hlife, hlock⟩ <;>
        simp [State.life, State.control, hlife, ThreadPoint.on]
    · exact idle_thread _ (on_of_ne hth hu) rfl rfl (by simp [hu]) rfl
  | returnDestroy th again u hth =>
    by_cases hu : t = u
    · subst hu
      have hc := hO.control_eq th t hth
      exact LifeStep.of_eq _ (life_eq rfl rfl rfl Iff.rfl rfl (by rw [hc]; simp [State.control]))
    · exact idle_thread _ (on_of_ne hth hu) rfl rfl (by simp [hu]) rfl
  | expired answer now u rest hpoint hfront hexp =>
    have hheld := hS.loop (by simp [hpoint, LoopPoint.inSection])
    by_cases hu : t = u
    · subst hu
      refine LifeStep.to (.take ?_ ?_ (hS.not_scanning (Or.inr hheld) t) ?_) ?_
      · simp [State.life, hpoint, LoopPoint.on]
      · simp [State.life, hfront]
      · exact hexp.trans (hC.read now hpoint)
      · simp [State.life, State.control, LoopPoint.on]
    · refine idle_loop _ ?_ ?_ rfl
      · rw [hpoint]
        rfl
      · simp [LoopPoint.on, Ne.symm hu]
  | execute keep u e e' o hpoint hstep =>
    refine life_loop hpoint ?_ ?_ ?_
    · intro hu
      simp [LoopPoint.on, Ne.symm hu]
    · intro hu
      simp [State.life, State.control, hu]
    · intro he
      exact LifeStep.to (.execute he hstep) (by simp [State.life, State.control, LoopPoint.on])
  | popFront keep u b hpoint =>
    have hhead := hL.front u _ hpoint trivial
    refine life_loop hpoint ?_ ?_ ?_
    · intro hu
      cases b <;> simp [LoopPoint.on, Ne.symm hu]
    · intro hu
      simp [State.life, State.control, mem_tail_iff hhead hu]
    · intro he
      have hnot := not_mem_tail hL.nodup hhead
      refine LifeStep.to (.popFront he) ?_
      cases b <;> simp [State.life, State.control, LoopPoint.on, hnot]
  | broadcastPending keep u hpoint =>
    refine life_loop hpoint ?_ ?_ ?_
    · intro hu
      simp [LoopPoint.on, Ne.symm hu]
    · intro hu
      simp [State.life, control_wakeAll, hu]
    · intro he
      exact LifeStep.to (.broadcastPending he) (by simp [State.life, control_wakeAll, LoopPoint.on])
  | broadcastLast keep u e hpoint he =>
    have hlast : LastBroadcast e := by
      rcases he with rfl | rfl | rfl
      · exact .stopped
      · exact .requeue
      · exact .queued
    refine life_loop hpoint (fun _ => rfl) ?_ ?_
    · intro hu
      simp [State.life, control_wakeAll, hu]
    · intro he
      exact LifeStep.to (.broadcastLast he hlast)
        (by simp [State.life, control_wakeAll, LoopPoint.on])
  | requeueFound keep u hpoint hlock hmem =>
    exact life_exec hpoint rfl (fun _ => rfl) (fun he => .requeueFound he hmem)
  | requeueLock keep u hpoint hlock hmem =>
    have hfree := hS.not_scanning (Or.inl hlock) u
    exact life_exec hpoint rfl (fun _ => rfl) (fun he => .requeueLock he hfree)
  | requeueScan keep u i hpoint hpos =>
    exact life_exec hpoint rfl (fun _ => rfl) (fun he => .execAdvance he (.requeueScan i))
  | requeueInsert keep u i hpoint hpos =>
    have hi := (hL.loop u i hpoint).2
    refine life_loop hpoint ?_ ?_ ?_
    · intro hu
      simp [LoopPoint.on, Ne.symm hu]
    · intro hu
      simp [State.life, State.control, List.mem_insertIdx hi, hu]
    · intro he
      exact LifeStep.to (.requeueInsert (n := s.insertions) he)
        (by simp [State.life, State.control, LoopPoint.on, List.mem_insertIdx hi])
  | requeueWake keep u hpoint =>
    exact life_exec hpoint rfl (fun _ => rfl) (fun he => .execAdvance he .requeueWake)
  | requeueRemove keep u hpoint hlock =>
    have hfree := hS.not_scanning (Or.inl hlock) u
    refine life_loop hpoint ?_ ?_ ?_
    · intro hu
      simp [LoopPoint.on, Ne.symm hu]
    · intro hu
      simp [State.life, State.control, List.mem_erase_of_ne hu]
    · intro he
      exact LifeStep.to (.requeueRemove he hfree)
        (by simp [State.life, State.control, LoopPoint.on, hL.nodup.not_mem_erase])
  | requeueRemoveWake keep u hpoint =>
    exact life_exec hpoint rfl (fun _ => rfl) (fun he => .execAdvance he .requeueRemoveWake)
  | enter hpoint => exact idle_loop _ (by rw [hpoint]; rfl) rfl rfl
  | takeFunction answer executedAny func rest hpoint hlock hfunc =>
    exact idle_loop _ (by rw [hpoint]; rfl) rfl rfl
  | invoke answer func hpoint => exact idle_loop _ (by rw [hpoint]; rfl) rfl rfl
  | takeTimer answer hpoint hlock => exact idle_loop _ (by rw [hpoint]; rfl) rfl rfl
  | noneExpired answer now hpoint => exact idle_loop _ (by rw [hpoint]; rfl) rfl rfl
  | batchDone answer hpoint => exact idle_loop _ (by rw [hpoint]; rfl) rfl rfl
  | watcher answer evs hpoint => exact idle_loop _ (by rw [hpoint]; rfl) rfl rfl
  | command answer evs hpoint => exact idle_loop _ (by rw [hpoint]; rfl) rfl rfl
  | noFunction answer executedAny hpoint hlock hempty =>
    refine idle_loop _ (by rw [hpoint]; rfl) ?_ rfl
    cases executedAny <;> rfl
  | nextTimeout answer hpoint hlock =>
    refine idle_loop _ (by rw [hpoint]; rfl) ?_ rfl
    simp only
    split <;> rfl
  | epollReturn r now w p hpoint hp =>
    refine idle_loop _ (by rw [hpoint]; rfl) ?_ rfl
    rcases hp with rfl | rfl | ⟨evs, rfl, _⟩ <;> rfl
  | testTerminated answer terminated evs hpoint =>
    refine idle_loop _ (by rw [hpoint]; rfl) ?_ rfl
    simp only
    split <;> rfl
  | readInterrupted answer terminated evs hpoint =>
    refine idle_loop _ ?_ rfl rfl
    rcases hpoint with ⟨hpoint, _⟩ | hpoint <;> rw [hpoint] <;> rfl
  | readEmpty answer terminated evs hpoint hpipe =>
    refine idle_loop _ ?_ rfl rfl
    rcases hpoint with ⟨hpoint, _⟩ | hpoint <;> rw [hpoint] <;> rfl
  | readByte answer terminated evs c rest hpoint hpipe =>
    refine idle_loop _ ?_ rfl rfl
    rcases hpoint with ⟨hpoint, _⟩ | hpoint <;> rw [hpoint] <;> rfl

structure Disciplined (s : State T Th F) : Prop where
  owned : Owned s
  sections : Sections s
  listing : Listing s
  clocked : Clocked s
  consistent : ∀ t, Consistent (s.life t)

/-- Seen from one timer, a step of the system is a step of its life. -/
theorem Disciplined.life_step {capacity : ℕ+} {s s' : State T Th F} {a : Action T Th F}
    (h : Disciplined s) (hm : Moves capacity s a s') (t : T) :
    LifeStep (actor s a t) (s.life t) (s'.life t) :=
  MainLoop.life_step hm h.owned h.sections h.listing h.clocked t

theorem disciplined_start {now : ℕ} (h : now ≤ Timer.MaxTick) :
    Disciplined (State.start now : State T Th F) where
  owned := by simp [Owned, State.start]
  sections := ⟨by simp [State.start, LoopPoint.inSection], by simp [State.start]⟩
  listing := ⟨by simp [State.start], by simp [State.start], by simp [State.start],
    by simp [State.start]⟩
  clocked := ⟨h, by simp [State.start]⟩
  consistent t := by
    simp [Consistent, Fits, State.life, State.start, State.control, LoopPoint.on, phase, claim,
      Timer.Object.new]

/-- The parts of the discipline, each kept by its own lemma. -/
theorem disciplined_step {capacity : ℕ+} {s s' : State T Th F} {a : Action T Th F}
    (hm : Moves capacity s a s') (h : Disciplined s) : Disciplined s' where
  owned := owned_step hm h.owned
  sections := sections_step hm h.sections
  listing := listing_step hm h.sections h.listing
  clocked := clocked_step hm h.clocked
  consistent t := step_consistent (h.life_step hm t) (h.consistent t)

open Transition

variable {capacity : ℕ+} {ok : State T Th F → Action T Th F → Prop}

theorem moves_of_step {s s' : State T Th F} {a : Action T Th F}
    (h : (system T Th F capacity).step s a = some s') : Moves capacity s a s' := step_cases h

/-- The locks, the list and the life of every timer are in order in every reachable state. -/
theorem disciplined_invariant :
    (system T Th F capacity).Invariant ok (fun _ => True) Disciplined where
  init := by
    rintro s ⟨now, hnow, rfl⟩
    exact disciplined_start hnow
  step s a s' _ _ hstep h := disciplined_step (moves_of_step hstep) h

theorem disciplined {s : State T Th F} (h : (system T Th F capacity).Reachable ok s) :
    Disciplined s := disciplined_invariant.always h

end CWrapper.MainLoop
