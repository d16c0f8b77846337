import CWrapper.MainLoopSteps
import CWrapper.TimerLife

/-!
What the locks give. At most one thread is inside a control call on a timer, and it is
the one that holds mControlLock or runs the destructor; a section of mTimerLock has one
thread in it, the list holds no timer twice, and a timer that is being inserted is not in
it. With that, every step of the system is a step, or no step, in the life of each timer.
-/
set_option linter.unusedSectionVars false

namespace CWrapper.MainLoop

open Timer (Object Call Control Exec State)
open TimerLife

variable {T Th F : Type} [DecidableEq T] [DecidableEq Th]

def InCharge (l : Locks Th) (th : Th) : Prop :=
  l.life = .dying th ∨ l.life = .alive ∧ l.mControlLock = some th

theorem InCharge.unique {l : Locks Th} {th th' : Th} (h : InCharge l th) (h' : InCharge l th') :
    th = th' := by
  unfold InCharge at h h'
  grind

/-- A thread inside a control call is in charge of the timer. -/
def Owned (s : State T Th F) : Prop :=
  ∀ th t c, s.thread th = .timer t c → InCharge (s.locks t) th

theorem owned_update {s : State T Th F} (h : Owned s) (th : Th) (p : ThreadPoint T F)
    (locks : T → Locks Th)
    (hp : ∀ t c, p = .timer t c → InCharge (locks t) th)
    (hother : ∀ th' t, th' ≠ th → InCharge (s.locks t) th' → InCharge (locks t) th') :
    ∀ th' t c, Function.update s.thread th p th' = .timer t c → InCharge (locks t) th' := by
  intro th' t c hth
  rcases update_eq_cases hth with ⟨rfl, hin⟩ | ⟨hne, hth⟩
  · exact hp t c hin
  · exact hother th' t hne (h th' t c hth)

theorem wakeAll_timer {thread : Th → ThreadPoint T F} {th : Th} {t u : T} {c : Control}
    (h : wakeAll t thread th = .timer u c) : ∃ c', thread th = .timer u c' := by
  unfold wakeAll at h
  split at h
  · rename_i v k hth
    split at h <;> cases h <;> exact ⟨_, hth⟩
  · exact ⟨c, h⟩

theorem inCharge_waitLock (locks : T → Locks Th) (t u : T) (w : Option Th) (th : Th) :
    InCharge (Function.update locks t { locks t with mWaitLock := w } u) th ↔
      InCharge (locks u) th := by
  by_cases hu : u = t
  · subst hu
    simp [InCharge]
  · rw [Function.update_of_ne hu]

/-- A thread that stays inside its call, mWaitLock being taken or released on the way. -/
theorem owned_goto {s : State T Th F} (h : Owned s) {th : Th} {t : T} {c : Control}
    (hth : s.thread th = .timer t c) (c' : Control) (w : Option Th) :
    ∀ th' u d, s.goto th t c' th' = .timer u d →
      InCharge (Function.update s.locks t { s.locks t with mWaitLock := w } u) th' := by
  intro th' u d hgoto
  rw [inCharge_waitLock]
  refine owned_update h th _ s.locks ?_ (fun _ _ _ hin => hin) th' u d hgoto
  intro v e hv
  cases hv
  exact h th t c hth

theorem owned_stay {s : State T Th F} (h : Owned s) {th : Th} {t : T} {c : Control}
    (hth : s.thread th = .timer t c) (c' : Control) :
    ∀ th' u d, s.goto th t c' th' = .timer u d → InCharge (s.locks u) th' := by
  intro th' u d hgoto
  exact (inCharge_waitLock s.locks t u (s.locks t).mWaitLock th').mp
    (owned_goto h hth c' _ th' u d hgoto)

/-- A thread enters a point that is in no call. -/
theorem owned_outside {s : State T Th F} (h : Owned s) (th : Th) {p : ThreadPoint T F}
    (hp : ∀ t c, p ≠ .timer t c) :
    ∀ th' u d, Function.update s.thread th p th' = .timer u d → InCharge (s.locks u) th' := by
  refine owned_update h th p s.locks ?_ (fun _ _ _ hin => hin)
  intro u d hu
  exact absurd hu (hp u d)

/-- One thread is in charge of a timer, under mControlLock, after a step as before it. -/
theorem owned_step {capacity : ℕ+} {s s' : State T Th F} {a : Action T Th F}
    (hm : Moves capacity s a s') (h : Owned s) : Owned s' := by
  cases hm with
  | lockControl th t k hout ha hlock hlife =>
    refine owned_update h th _ _ ?_ ?_
    · intro u c hu
      cases hu
      exact Or.inr (by simpa using hlife)
    · intro th' u hne hin
      by_cases hu : u = t
      · subst hu
        simp [InCharge, hlock, hlife] at hin
      · simpa only [Function.update_of_ne hu] using hin
  | destroy th t hout hlock hlife =>
    refine owned_update h th _ _ ?_ ?_
    · intro u c hu
      cases hu
      exact Or.inl (by simp)
    · intro th' u hne hin
      by_cases hu : u = t
      · subst hu
        simp [InCharge, hlock, hlife] at hin
      · simpa only [Function.update_of_ne hu] using hin
  | leave th again t c hth hret =>
    refine owned_update h th _ _ (by simp) ?_
    intro th' u hne hin
    by_cases hu : u = t
    · subst hu
      exact absurd (hin.unique (h th u c hth)) hne
    · simpa only [Function.update_of_ne hu] using hin
  | returnDestroy th again t hth =>
    refine owned_update h th _ _ (by simp) ?_
    intro th' u hne hin
    by_cases hu : u = t
    · subst hu
      exact absurd (hin.unique (h th u _ hth)) hne
    · simpa only [Function.update_of_ne hu] using hin
  | restart | post | postWrite | terminate | terminateWrite => exact owned_outside h _ (by simp)
  | object th again t c c' o hth hstep => exact owned_stay h hth _
  | remove th again t k hth hlock => exact owned_stay h hth _
  | removeWake th again t k hth => exact owned_stay h hth _
  | broadcast th again t k hth =>
    intro th' u d hd
    rcases update_eq_cases hd with ⟨rfl, hin⟩ | ⟨-, hd⟩
    · cases hin
      exact h th' t _ hth
    · obtain ⟨d', hd'⟩ := wakeAll_timer hd
      exact h th' u d' hd'
  | lockWait th again t k hth hlock => rcases hth with hth | hth <;> exact owned_goto h hth _ _
  | testReleased th again t k hth hrel => exact owned_goto h hth _ _
  | testBlock th again t k hth hrel => exact owned_stay h hth _
  | block th again t k hth => exact owned_goto h hth _ _
  | spurious th again t k hth => exact owned_stay h hth _
  | addFound th again t hth hlock hmem => exact owned_stay h hth _
  | addLock th again t hth hlock hmem => exact owned_stay h hth _
  | addScan th again t i hth hpos => exact owned_stay h hth _
  | addInsert th again t i hth hpos => exact owned_stay h hth _
  | addWake th again t hth => exact owned_stay h hth _
  | broadcastPending | broadcastLast =>
    intro th u d hd
    obtain ⟨d', hd'⟩ := wakeAll_timer hd
    exact h th u d' hd'
  | _ => exact h

def LoopPoint.inSection : LoopPoint T F → Prop
  | .readFront _ => True
  | .exec _ e => locked (some e)
  | _ => False

structure Sections (s : State T Th F) : Prop where
  loop : s.loop.inSection → s.mTimerLock = some .loop
  thread : ∀ th t i, s.thread th = .timer t (.addScan i) → s.mTimerLock = some (.thread th)

theorem executeStep_locked {o o' : Object} {now : ℕ} {keep : Bool} {e e' : Exec}
    (h : Timer.executeStep o now keep e = some (o', e')) :
    locked (some e') ↔ locked (some e) := by
  cases e <;> simp only [Timer.executeStep] at h <;> (try split at h) <;> cases h <;>
    grind [locked]

theorem afterStop_not_scan (k : Call) (i : ℕ) : Timer.afterStop k ≠ .addScan i := by
  cases k with
  | start msec rep =>
    simp only [Timer.afterStop]
    split <;> simp
  | _ => simp [Timer.afterStop]

theorem controlStep_not_scan {o o' : Object} {now : ℕ} {again : Bool} {c c' : Control}
    (h : Timer.controlStep o now again c = some (o', c')) (i : ℕ) : c' ≠ .addScan i := by
  have hafter := fun k => afterStop_not_scan k i
  cases c <;> simp only [Timer.controlStep] at h <;> grind

theorem wakeAll_scan {thread : Th → ThreadPoint T F} {th : Th} {t u : T} {i : ℕ}
    (h : wakeAll t thread th = .timer u (.addScan i)) : thread th = .timer u (.addScan i) := by
  unfold wakeAll at h
  split at h
  · split at h <;> cases h
  · exact h

/-- What is known of the threads that scan the list, after one thread moved. -/
theorem scan_update {thread : Th → ThreadPoint T F} {P : Th → T → ℕ → Prop}
    (h : ∀ th t i, thread th = .timer t (.addScan i) → P th t i) (th : Th)
    {p : ThreadPoint T F} (hp : ∀ t i, p = .timer t (.addScan i) → P th t i) :
    ∀ th' t i, Function.update thread th p th' = .timer t (.addScan i) → P th' t i := by
  intro th' t i hscan
  rcases update_eq_cases hscan with ⟨rfl, hin⟩ | ⟨-, hscan⟩
  · exact hp t i hin
  · exact h th' t i hscan

theorem Sections.no_scan {s : State T Th F} (h : Sections s)
    (hlock : s.mTimerLock = none ∨ s.mTimerLock = some .loop) (th : Th) (t : T) (i : ℕ) :
    s.thread th ≠ .timer t (.addScan i) := by
  intro hth
  have hheld := h.thread th t i hth
  rcases hlock with hlock | hlock <;> simp [hlock] at hheld

/-- The thread that scans the list is the only one. -/
theorem Sections.scan_unique {s : State T Th F} (h : Sections s) {th th' : Th} {t u : T}
    {i j : ℕ} (hth : s.thread th = .timer t (.addScan i))
    (hth' : s.thread th' = .timer u (.addScan j)) : th' = th := by
  have hheld := h.thread th t i hth
  rw [h.thread th' u j hth'] at hheld
  cases hheld
  rfl

theorem Sections.not_inSection {s : State T Th F} (h : Sections s)
    (hlock : s.mTimerLock ≠ some .loop) : ¬ s.loop.inSection := fun hin => hlock (h.loop hin)

/-- Two threads are never inside sections of mTimerLock at once. -/
theorem sections_step {capacity : ℕ+} {s s' : State T Th F} {a : Action T Th F}
    (hm : Moves capacity s a s') (h : Sections s) : Sections s' := by
  cases hm with
  | object th again t c c' o hth hstep =>
    refine ⟨h.loop, scan_update h.thread th ?_⟩
    intro u i hu
    cases hu
    exact absurd rfl (controlStep_not_scan hstep i)
  | broadcast th again t k hth =>
    refine ⟨h.loop, scan_update (fun th' u i hu => h.thread th' u i (wakeAll_scan hu)) th ?_⟩
    intro u i hu
    exact absurd (ThreadPoint.timer.inj hu).2 (afterStop_not_scan k i)
  | addLock th again t hth hlock hmem =>
    refine ⟨fun hin => (h.not_inSection (by simp [hlock]) hin).elim, ?_⟩
    exact scan_update (fun th' u i hu => absurd hu (h.no_scan (Or.inl hlock) th' u i)) th
      (fun _ _ _ => rfl)
  | addScan th again t i hth hpos =>
    exact ⟨h.loop, scan_update h.thread th (fun _ _ _ => h.thread th t i hth)⟩
  | addInsert th again t i hth hpos =>
    have hheld := h.thread th t i hth
    refine ⟨fun hin => (h.not_inSection (by simp [hheld]) hin).elim, ?_⟩
    intro th' u j hscan
    rcases update_eq_cases hscan with ⟨rfl, hin⟩ | ⟨hne, hscan⟩
    · cases hin
    · exact absurd (h.scan_unique hth hscan) hne
  | lockControl | destroy | restart | post | postWrite | terminate | terminateWrite | remove
  | removeWake | lockWait | testReleased | testBlock | block | spurious | addFound | addWake
  | leave | returnDestroy => exact ⟨h.loop, scan_update h.thread _ (by simp)⟩
  | takeTimer answer hpoint hlock =>
    exact ⟨fun _ => rfl, fun th t i hth => absurd hth (h.no_scan (Or.inl hlock) th t i)⟩
  | noneExpired answer now hpoint =>
    have hheld := h.loop (by simp [hpoint, LoopPoint.inSection])
    exact ⟨fun hin => hin.elim, fun th t i hth => absurd hth (h.no_scan (Or.inr hheld) th t i)⟩
  | expired answer now t rest hpoint hfront hexp =>
    exact ⟨fun _ => h.loop (by simp [hpoint, LoopPoint.inSection]), h.thread⟩
  | execute keep t e e' o hpoint hstep =>
    refine ⟨fun hin => h.loop ?_, h.thread⟩
    rw [hpoint]
    exact (executeStep_locked hstep).mp hin
  | popFront keep t b hpoint =>
    have hheld := h.loop (by simp [hpoint, LoopPoint.inSection, locked])
    refine ⟨fun hin => ?_, fun th t i hth => absurd hth (h.no_scan (Or.inr hheld) th t i)⟩
    cases b <;> simp [LoopPoint.inSection, locked] at hin
  | broadcastPending keep t hpoint =>
    exact ⟨fun hin => hin.elim, fun th u i hu => h.thread th u i (wakeAll_scan hu)⟩
  | broadcastLast keep t e hpoint he =>
    exact ⟨fun hin => hin.elim, fun th u i hu => h.thread th u i (wakeAll_scan hu)⟩
  | requeueLock keep t hpoint hlock hmem =>
    exact ⟨fun _ => rfl, fun th t i hth => absurd hth (h.no_scan (Or.inl hlock) th t i)⟩
  | requeueScan keep t i hpoint hpos =>
    exact ⟨fun _ => h.loop (by simp [hpoint, LoopPoint.inSection, locked]), h.thread⟩
  | requeueInsert keep t i hpoint hpos =>
    have hheld := h.loop (by simp [hpoint, LoopPoint.inSection, locked])
    exact ⟨fun hin => hin.elim, fun th t i hth => absurd hth (h.no_scan (Or.inr hheld) th t i)⟩
  | requeueFound keep t hpoint hlock hmem => exact ⟨fun hin => hin.elim, h.thread⟩
  | requeueWake keep t hpoint => exact ⟨fun hin => hin.elim, h.thread⟩
  | requeueRemove keep t hpoint hlock => exact ⟨fun hin => hin.elim, h.thread⟩
  | requeueRemoveWake keep t hpoint => exact ⟨fun hin => hin.elim, h.thread⟩
  | nextTimeout answer hpoint hlock =>
    refine ⟨fun hin => ?_, h.thread⟩
    simp only at hin
    split at hin <;> exact hin.elim
  | noFunction answer executedAny hpoint hlock hempty =>
    refine ⟨fun hin => ?_, h.thread⟩
    simp only at hin
    split at hin <;> exact hin.elim
  | testTerminated answer terminated evs hpoint =>
    refine ⟨fun hin => ?_, h.thread⟩
    simp only at hin
    split at hin <;> exact hin.elim
  | epollReturn r now w p hpoint hp =>
    refine ⟨fun hin => ?_, h.thread⟩
    rcases hp with rfl | rfl | ⟨evs, rfl, _⟩ <;> exact hin.elim
  | enter | takeFunction | invoke | batchDone | watcher | command | readInterrupted | readEmpty
  | readByte => exact ⟨fun hin => hin.elim, h.thread⟩
  | _ => exact ⟨h.loop, h.thread⟩

/-- The loop thread took the timer from the front and has not yet removed it. -/
def atFront : Exec → Prop
  | .exchange | .clearRequest | .popFront _ => True
  | _ => False

structure Listing (s : State T Th F) : Prop where
  nodup : s.mTimers.Nodup
  front : ∀ t e, s.loop = .exec t e → atFront e → s.mTimers.head? = some t
  thread : ∀ th t i, s.thread th = .timer t (.addScan i) →
    t ∉ s.mTimers ∧ i ≤ s.mTimers.length
  loop : ∀ t i, s.loop = .exec t (.requeueScan i) → t ∉ s.mTimers ∧ i ≤ s.mTimers.length

theorem nodup_insertIdx {l : List T} {i : ℕ} {t : T} (hl : l.Nodup) (ht : t ∉ l)
    (hi : i ≤ l.length) : (l.insertIdx i t).Nodup :=
  (List.perm_insertIdx t l hi).nodup_iff.mpr (List.nodup_cons.mpr ⟨ht, hl⟩)

theorem lt_length_of_not_insertsAt {timer : T → Object} {l : List T} {t : T} {i : ℕ}
    (h : insertsAt timer l t i = false) : i < l.length := by
  unfold insertsAt at h
  by_contra hi
  rw [List.getElem?_eq_none (by omega)] at h
  cases h

theorem inSection_of_atFront {t : T} {e : Exec} (h : atFront e) :
    (LoopPoint.exec t e : LoopPoint T F).inSection := by
  cases e <;> simp_all [atFront, LoopPoint.inSection, locked]

theorem Sections.not_locked {s : State T Th F} (h : Sections s)
    (hlock : s.mTimerLock ≠ some .loop) (t : T) (e : Exec) (he : s.loop = .exec t e) :
    ¬ locked (some e) := by
  intro hlocked
  apply h.not_inSection hlock
  rw [he]
  exact hlocked

/-- A thread that scans the list keeps it from changing under every other party. -/
theorem listing_of_mutation {s : State T Th F} (hnodup : s.mTimers.Nodup)
    (hloop : ∀ t e, s.loop = .exec t e → ¬ locked (some e))
    (hthread : ∀ th t i, s.thread th ≠ .timer t (.addScan i)) : Listing s where
  nodup := hnodup
  front t e he hf := absurd (inSection_of_atFront (F := F) (t := t) hf) (hloop t e he)
  thread th t i hth := absurd hth (hthread th t i)
  loop t _ he := absurd trivial (hloop t _ he)

/-- A timer that is in the list once is not inserted again before it has been taken out. -/
theorem listing_step {capacity : ℕ+} {s s' : State T Th F} {a : Action T Th F}
    (hm : Moves capacity s a s') (hs : Sections s) (h : Listing s) : Listing s' := by
  cases hm with
  | object th again t c c' o hth hstep =>
    refine ⟨h.nodup, h.front, scan_update h.thread th ?_, h.loop⟩
    intro u i hu
    cases hu
    exact absurd rfl (controlStep_not_scan hstep i)
  | remove th again t k hth hlock =>
    refine listing_of_mutation (h.nodup.erase t) ?_ ?_
    · exact hs.not_locked (by simp [hlock])
    · intro th' u i hscan
      rcases update_eq_cases hscan with ⟨rfl, hin⟩ | ⟨-, hscan⟩
      · cases hin
      · exact hs.no_scan (Or.inl hlock) th' u i hscan
  | broadcast th again t k hth =>
    refine ⟨h.nodup, h.front, ?_, h.loop⟩
    refine scan_update (fun th' u i hu => h.thread th' u i (wakeAll_scan hu)) th ?_
    intro u i hu
    exact absurd (ThreadPoint.timer.inj hu).2 (afterStop_not_scan k i)
  | addLock th again t hth hlock hmem =>
    refine ⟨h.nodup, h.front, scan_update h.thread th ?_, h.loop⟩
    intro u i hu
    cases hu
    exact ⟨hmem, Nat.zero_le _⟩
  | addScan th again t i hth hpos =>
    refine ⟨h.nodup, h.front, scan_update h.thread th ?_, h.loop⟩
    intro u j hu
    cases hu
    exact ⟨(h.thread th t i hth).1, lt_length_of_not_insertsAt hpos⟩
  | addInsert th again t i hth hpos =>
    obtain ⟨hmem, hi⟩ := h.thread th t i hth
    refine listing_of_mutation (nodup_insertIdx h.nodup hmem hi) ?_ ?_
    · exact hs.not_locked (by simp [hs.thread th t i hth])
    · intro th' u j hscan
      rcases update_eq_cases hscan with ⟨rfl, hin⟩ | ⟨hne, hscan⟩
      · cases hin
      · exact hne (hs.scan_unique hth hscan)
  | lockControl | destroy | restart | post | postWrite | terminate | terminateWrite | removeWake
  | lockWait | testReleased | testBlock | block | spurious | addFound | addWake | leave
  | returnDestroy => exact ⟨h.nodup, h.front, scan_update h.thread _ (by simp), h.loop⟩
  | expired answer now t rest hpoint hfront hexp =>
    refine ⟨h.nodup, ?_, h.thread, by simp⟩
    intro u e he hf
    cases he
    simp [hfront]
  | execute keep t e e' o hpoint hstep =>
    refine ⟨h.nodup, ?_, h.thread, ?_⟩
    · intro u d hd hf
      cases hd
      apply h.front t e hpoint
      cases e <;> simp only [Timer.executeStep] at hstep <;> grind [atFront]
    · intro u i hi
      cases hi
      cases e <;> simp only [Timer.executeStep] at hstep <;> grind
  | popFront keep t b hpoint =>
    have hheld := hs.loop (by simp [hpoint, LoopPoint.inSection, locked])
    refine listing_of_mutation h.nodup.tail ?_ (hs.no_scan (Or.inr hheld))
    intro u e he
    cases b
    · cases he
    · cases he
      simp [locked]
  | broadcastPending keep t hpoint =>
    refine ⟨h.nodup, ?_, fun th u i hu => h.thread th u i (wakeAll_scan hu), by simp⟩
    intro u e he hf
    cases he
    exact hf.elim
  | broadcastLast keep t e hpoint he =>
    exact ⟨h.nodup, by simp, fun th u i hu => h.thread th u i (wakeAll_scan hu), by simp⟩
  | requeueLock keep t hpoint hlock hmem =>
    refine ⟨h.nodup, ?_, h.thread, ?_⟩
    · intro u e he hf
      cases he
      exact hf.elim
    · intro u i hi
      cases hi
      exact ⟨hmem, Nat.zero_le _⟩
  | requeueScan keep t i hpoint hpos =>
    refine ⟨h.nodup, ?_, h.thread, ?_⟩
    · intro u e he hf
      cases he
      exact hf.elim
    · intro u j hj
      cases hj
      exact ⟨(h.loop t i hpoint).1, lt_length_of_not_insertsAt hpos⟩
  | requeueInsert keep t i hpoint hpos =>
    have hheld := hs.loop (by simp [hpoint, LoopPoint.inSection, locked])
    obtain ⟨hmem, hi⟩ := h.loop t i hpoint
    refine listing_of_mutation (nodup_insertIdx h.nodup hmem hi) ?_ (hs.no_scan (Or.inr hheld))
    intro u e he
    cases he
    simp [locked]
  | requeueFound | requeueWake | requeueRemoveWake =>
    refine ⟨h.nodup, ?_, h.thread, by simp⟩
    intro u e he hf
    cases he
    exact hf.elim
  | requeueRemove keep t hpoint hlock =>
    refine listing_of_mutation (h.nodup.erase t) ?_ (hs.no_scan (Or.inl hlock))
    intro u e he
    cases he
    simp [locked]
  | nextTimeout answer hpoint hlock => exact ⟨h.nodup, by grind, h.thread, by grind⟩
  | noFunction answer executedAny hpoint hlock hempty =>
    exact ⟨h.nodup, by grind, h.thread, by grind⟩
  | testTerminated answer terminated evs hpoint => exact ⟨h.nodup, by grind, h.thread, by grind⟩
  | epollReturn r now w p hpoint hp => exact ⟨h.nodup, by grind, h.thread, by grind⟩
  | enter | takeFunction | invoke | batchDone | watcher | command | readInterrupted | readEmpty
  | readByte | takeTimer | noneExpired => exact ⟨h.nodup, by simp, h.thread, by simp⟩
  | _ => exact ⟨h.nodup, h.front, h.thread, h.loop⟩

end CWrapper.MainLoop
