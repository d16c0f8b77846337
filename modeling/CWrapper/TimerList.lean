import CWrapper.Sequences
import CWrapper.TimerRefinement

/-!
The timer list. Only start() and executeFromLoop write mExpiry, and both do so while the
timer is out of the list and nobody inserts it. So the list stays ordered by expiry, and by
the order of insertion among equal ones, and the loop thread takes a least timer.
-/
set_option linter.unusedSectionVars false

namespace CWrapper.TimerLife

open Timer (Object Call Control Exec State Msec)

def scansAgain : Option Exec → Prop
  | some (.requeueScan _) => True
  | _ => False

def Placed (v : Life) : Prop := v.listed ∨ scanning v.control ∨ scansAgain v.exec

theorem Placed.not_configure {v : Life} {msec : Msec} {rep : Bool} (h : Placed v)
    (hcons : Consistent v) : v.control ≠ some (.configure msec rep) := by
  intro hc
  unfold Consistent at hcons
  rw [hc] at hcons
  rcases h with hl | hscan | hscan
  · exact hcons.1.2 hl
  · rw [hc] at hscan
    exact hscan
  · unfold scansAgain at hscan
    split at hscan
    · rename_i he
      rw [he] at hcons
      have hst := hcons.2.2
      rw [hcons.1.1] at hst
      cases hst
    · exact hscan

theorem Placed.not_storeExpiry {v : Life} {expiry : ℕ} (h : Placed v) (hcons : Consistent v) :
    v.exec ≠ some (.storeExpiry expiry) := by
  intro he
  unfold Consistent at hcons
  rw [he] at hcons
  rcases h with hl | hscan | hscan
  · exact hcons.2.1 hl
  · unfold scanning at hscan
    split at hscan
    · rename_i hc
      rw [hc] at hcons
      have hst := hcons.1.1
      rw [hcons.2.2] at hst
      cases hst
    · exact hscan
  · rw [he] at hscan
    exact hscan

theorem controlStep_expiry {o o' : Object} {now : ℕ} {again : Bool} {c c' : Control}
    (h : Timer.controlStep o now again c = some (o', c'))
    (hc : ∀ msec rep, c ≠ .configure msec rep) : o'.mExpiry = o.mExpiry := by
  cases c with
  | configure msec rep => exact absurd rfl (hc msec rep)
  | exchange k =>
    simp only [Timer.controlStep] at h
    split at h <;> cases h <;> rfl
  | requestRunning k => cases k <;> cases h <;> rfl
  | load k => cases h; rfl
  | requestQueued k => cases h; rfl
  | clearRequest => cases h; rfl
  | queue => cases h; rfl
  | _ => cases h

theorem executeStep_expiry {o o' : Object} {now : ℕ} {keep : Bool} {e e' : Exec}
    (h : Timer.executeStep o now keep e = some (o', e')) (he : ∀ x, e ≠ .storeExpiry x) :
    o'.mExpiry = o.mExpiry := by
  cases e with
  | storeExpiry x => exact absurd rfl (he x)
  | exchange =>
    simp only [Timer.executeStep] at h
    split at h <;> cases h <;> rfl
  | _ =>
    first
    | cases h; rfl
    | cases h

/-- The expiry of a timer that is in the list or being inserted is not written. -/
theorem expiry_step {a : Actor} {v v' : Life} (hstep : LifeStep a v v') (hcons : Consistent v)
    (h : Placed v) : v'.o.mExpiry = v.o.mExpiry := by
  cases hstep with
  | config o' hstate hstop hexpiry => exact hexpiry
  | object hc hstep =>
    refine controlStep_expiry hstep ?_
    rintro msec rep rfl
    exact h.not_configure hcons hc
  | execute he hstep =>
    refine executeStep_expiry hstep ?_
    rintro x rfl
    exact h.not_storeExpiry hcons he
  | _ => rfl

theorem Fits.listed_state {p : Phase} {c : Claim} {st : State} {listed : Prop}
    (h : Fits p c st listed) (hl : listed) (hp : p ≠ .front ∧ p ≠ .taken ∧ p ≠ .refused) :
    st = .queued ∨ st = .requeuePending ∨ st = .stopped ∧ c = .exchanged := by
  cases p <;> cases c <;> grind [Fits]

theorem Fits.queued_listed {p : Phase} {c : Claim} {st : State} {listed : Prop}
    (h : Fits p c st listed) (hst : st = .queued) : listed ∨ c = .adding := by
  cases p <;> cases c <;> grind [Fits]

theorem claim_exchanged {c : Option Control} (h : claim c = .exchanged) :
    ∃ k, c = some (.requestQueued k) ∨ c = some (.remove k) := by
  cases c with
  | none => cases h
  | some c =>
    cases c with
    | requestQueued k => exact ⟨k, Or.inl rfl⟩
    | remove k => exact ⟨k, Or.inr rfl⟩
    | _ => cases h

theorem claim_adding {c : Option Control} (h : claim c = .adding) (hscan : ¬ scanning c) :
    c = some .addLock := by
  cases c with
  | none => cases h
  | some c =>
    cases c with
    | addLock => rfl
    | addScan i => exact absurd trivial hscan
    | _ => cases h

end CWrapper.TimerLife

namespace CWrapper.MainLoop

open Timer (Object Control Exec Msec)
open TimerLife Transition StableList

variable {T Th F : Type} [DecidableEq T] [DecidableEq Th]

def State.expiry (s : State T Th F) (t : T) : ℕ := (s.timer t).mExpiry

def State.stamp (s : State T Th F) (t : T) : ℕ := (s.history t).stamp

/-- The list as it is sorted by insertTimerLocked; a scan has passed over no timer that
expires later than the one it inserts. -/
structure Sorted (s : State T Th F) : Prop where
  ordered : Ordered s.expiry s.stamp s.mTimers
  stamped : ∀ t ∈ s.mTimers, s.stamp t < s.insertions
  thread : ∀ th t i, s.thread th = .timer t (.addScan i) →
    ∀ u ∈ s.mTimers.take i, s.expiry u ≤ s.expiry t
  loop : ∀ t i, s.loop = .exec t (.requeueScan i) →
    ∀ u ∈ s.mTimers.take i, s.expiry u ≤ s.expiry t

variable {capacity : ℕ+} {s s' : State T Th F} {a : Action T Th F} {t : T}

/-- mExpiry of a timer in the list, or about to be inserted, does not change. -/
theorem Disciplined.expiry_step (hd : Disciplined s) (hm : Moves capacity s a s')
    (h : Placed (s.life t)) : s'.expiry t = s.expiry t :=
  TimerLife.expiry_step (hd.life_step hm t) (hd.consistent t) h

theorem Disciplined.placed_thread (hd : Disciplined s) {th : Th} {i : ℕ}
    (hth : s.thread th = .timer t (.addScan i)) : Placed (s.life t) := by
  have hc : (s.life t).control = some (.addScan i) := hd.owned.control_eq th t hth
  exact Or.inr (Or.inl (by rw [hc]; trivial))

theorem placed_loop {i : ℕ} (hloop : s.loop = .exec t (.requeueScan i)) :
    Placed (s.life t) :=
  Or.inr (Or.inr (by simp [State.life, hloop, LoopPoint.on, scansAgain]))

/-- A step that leaves the list alone and moves no scan forward. -/
theorem Sorted.stay (h : Sorted s) (hd : Disciplined s) (hm : Moves capacity s a s')
    (hlist : s'.mTimers = s.mTimers) (hstamp : s'.stamp = s.stamp)
    (hins : s'.insertions = s.insertions)
    (hthread : ∀ th t i, s'.thread th = .timer t (.addScan i) →
      s.thread th = .timer t (.addScan i))
    (hloop : ∀ t i, s'.loop = .exec t (.requeueScan i) → s.loop = .exec t (.requeueScan i)) :
    Sorted s' where
  ordered := by
    rw [hlist, hstamp]
    exact h.ordered.congr (fun t ht => hd.expiry_step hm (Or.inl ht)) (fun _ _ => rfl)
  stamped := by rw [hlist, hstamp, hins]; exact h.stamped
  thread th t i hth u hu := by
    rw [hlist] at hu
    rw [hd.expiry_step hm (Or.inl (List.mem_of_mem_take hu)),
      hd.expiry_step hm (hd.placed_thread (hthread th t i hth))]
    exact h.thread th t i (hthread th t i hth) u hu
  loop t i hscan u hu := by
    rw [hlist] at hu
    rw [hd.expiry_step hm (Or.inl (List.mem_of_mem_take hu)),
      hd.expiry_step hm (placed_loop (hloop t i hscan))]
    exact h.loop t i (hloop t i hscan) u hu

/-- With mTimerLock free no scan is under way. -/
theorem Sorted.of_free (hs : Sections s) (hfree : s.mTimerLock = none)
    (hordered : Ordered s.expiry s.stamp s.mTimers)
    (hstamped : ∀ t ∈ s.mTimers, s.stamp t < s.insertions) : Sorted s where
  ordered := hordered
  stamped := hstamped
  thread th t i hth := absurd hth (hs.no_scan (Or.inl hfree) th t i)
  loop t i hloop := by
    refine absurd ?_ (hs.not_inSection (by simp [hfree]))
    simp [hloop, LoopPoint.inSection, locked]

theorem Sorted.removed (h : Sorted s) (hd : Disciplined s) (hm : Moves capacity s a s')
    (hfree : s'.mTimerLock = none) (hlist : s'.mTimers.Sublist s.mTimers)
    (hstamp : s'.stamp = s.stamp) (hins : s'.insertions = s.insertions) : Sorted s' := by
  refine Sorted.of_free (sections_step hm hd.sections) hfree ?_ ?_
  · rw [hstamp]
    exact (h.ordered.sublist hlist).congr
      (fun t ht => hd.expiry_step hm (Or.inl (hlist.subset ht))) (fun _ _ => rfl)
  · intro t ht
    rw [hstamp, hins]
    exact h.stamped t (hlist.subset ht)

theorem Sorted.inserted (h : Sorted s) (hs' : Sections s') (hfree : s'.mTimerLock = none) {i : ℕ}
    (ht : t ∉ s.mTimers) (hpos : insertsAt s.timer s.mTimers t i = true)
    (hpassed : ∀ u ∈ s.mTimers.take i, s.expiry u ≤ s.expiry t)
    (hlist : s'.mTimers = s.mTimers.insertIdx i t) (htimer : s'.timer = s.timer)
    (hstamp : s'.stamp = Function.update s.stamp t s.insertions)
    (hins : s'.insertions = s.insertions + 1) : Sorted s' := by
  have hold : ∀ u ∈ s.mTimers, s'.stamp u = s.stamp u := by
    intro u hu
    rw [hstamp, Function.update_of_ne (ne_of_mem_of_not_mem hu ht)]
  have hnew : s'.stamp t = s.insertions := by simp [hstamp]
  have hexpiry : s'.expiry = s.expiry := by
    funext u
    simp only [State.expiry, htimer]
  refine Sorted.of_free hs' hfree ?_ ?_
  · rw [hlist, hexpiry]
    refine (h.ordered.congr (fun _ _ => rfl) hold).insert hpassed ?_ ?_
    · intro u hu
      simpa [insertsAt, hu, State.expiry] using hpos
    · intro u hu
      rw [hold u hu, hnew]
      exact h.stamped u hu
  · intro u hu
    rw [hlist] at hu
    rw [hins]
    rcases List.eq_or_mem_of_mem_insertIdx hu with rfl | hu
    · omega
    · rw [hold u hu]
      have := h.stamped u hu
      omega

theorem scan_of_update {thread : Th → ThreadPoint T F} {th : Th} {p : ThreadPoint T F}
    (hp : ∀ t i, p ≠ .timer t (.addScan i)) (th' : Th) (t : T) (i : ℕ)
    (h : Function.update thread th p th' = .timer t (.addScan i)) :
    thread th' = .timer t (.addScan i) := by
  rcases update_eq_cases h with ⟨-, hin⟩ | ⟨-, h⟩
  · exact absurd hin (hp t i)
  · exact h

theorem stamp_insert (s : State T Th F) (t : T) (n : ℕ) :
    (fun u => (Function.update s.history t { s.history t with stamp := n } u).stamp) =
      Function.update s.stamp t n :=
  Function.comp_update Timer.History.stamp s.history t _

theorem stamp_kept (s : State T Th F) {t : T} {h : Timer.History}
    (hstamp : h.stamp = s.stamp t) :
    (fun u => (Function.update s.history t h u).stamp) = s.stamp := by
  calc (fun u => (Function.update s.history t h u).stamp)
      = Function.update s.stamp t h.stamp := Function.comp_update Timer.History.stamp ..
    _ = s.stamp := by rw [hstamp, Function.update_eq_self]

theorem stamp_control (s : State T Th F) (t : T) (c : Control) :
    (fun u => (Function.update s.history t ((s.history t).control s.now c) u).stamp) =
      s.stamp := by
  refine stamp_kept s ?_
  cases c <;> rfl

theorem stamp_execute (s : State T Th F) (t : T) (e : Exec) :
    (fun u => (Function.update s.history t ((s.history t).execute s.now e) u).stamp) =
      s.stamp := by
  refine stamp_kept s ?_
  cases e <;> rfl

theorem passed_succ {timer : T → Object} {l : List T} {i : ℕ}
    (hpos : insertsAt timer l t i = false)
    (hpassed : ∀ u ∈ l.take i, (timer u).mExpiry ≤ (timer t).mExpiry) :
    ∀ u ∈ l.take (i + 1), (timer u).mExpiry ≤ (timer t).mExpiry := by
  intro u hu
  rw [List.take_add_one, List.mem_append] at hu
  rcases hu with hu | hu
  · exact hpassed u hu
  · have hget : l[i]? = some u := by simpa using hu
    simpa [insertsAt, hget] using hpos

/-- An insertion finds the place behind all that expire no later. -/
theorem sorted_step (hm : Moves capacity s a s') (hd : Disciplined s) (h : Sorted s) :
    Sorted s' := by
  have hS' : Sections s' := sections_step hm hd.sections
  have hm' := hm
  have hself : ∀ (th : Th) (t : T) (i : ℕ), s.thread th = .timer t (.addScan i) →
      s.thread th = .timer t (.addScan i) := fun _ _ _ hth => hth
  have hsame : ∀ (t : T) (i : ℕ), s.loop = .exec t (.requeueScan i) →
      s.loop = .exec t (.requeueScan i) := fun _ _ hloop => hloop
  cases hm with
  | object th again t c c' o hth hstep =>
    refine h.stay hd hm' rfl (stamp_control s t c) rfl (scan_of_update ?_) hsame
    intro u i hu
    cases hu
    exact controlStep_not_scan hstep i rfl
  | remove th again t k hth hlock =>
    exact h.removed hd hm' hlock (List.erase_sublist ..) rfl rfl
  | broadcast th again t k hth =>
    refine h.stay hd hm' rfl rfl rfl ?_ hsame
    intro th' u i hscan
    refine wakeAll_scan (scan_of_update ?_ th' u i hscan)
    intro v j hv
    exact afterStop_not_scan k j (ThreadPoint.timer.inj hv).2
  | addLock th again t hth hlock hmem =>
    refine ⟨h.ordered, h.stamped, scan_update h.thread th ?_, h.loop⟩
    intro u i hu
    cases hu
    simp
  | addScan th again t i hth hpos =>
    refine ⟨h.ordered, h.stamped, scan_update h.thread th ?_, h.loop⟩
    intro u j hu
    cases hu
    exact passed_succ hpos (h.thread th t i hth)
  | addInsert th again t i hth hpos =>
    exact h.inserted hS' rfl (hd.listing.thread th t i hth).1 hpos (h.thread th t i hth) rfl rfl
      (stamp_insert s t _) rfl
  | lockControl | destroy | restart | post | postWrite | terminate | terminateWrite | removeWake
  | lockWait | testReleased | testBlock | block | spurious | addFound | addWake | leave
  | returnDestroy =>
    exact h.stay hd hm' rfl rfl rfl (scan_of_update (by simp)) hsame
  | execute keep t e e' o hloop hstep =>
    refine h.stay hd hm' rfl (stamp_execute s t e) rfl hself ?_
    intro u i hu
    cases hu
    cases e <;> simp only [Timer.executeStep] at hstep <;> grind
  | popFront keep t b hloop =>
    exact h.removed hd hm' rfl (List.tail_sublist _) rfl rfl
  | broadcastPending keep t hloop =>
    exact h.stay hd hm' rfl rfl rfl (fun _ _ _ => wakeAll_scan) (by simp)
  | broadcastLast keep t e hloop he =>
    exact h.stay hd hm' rfl rfl rfl (fun _ _ _ => wakeAll_scan) (by simp)
  | requeueLock keep t hloop hlock hmem =>
    refine ⟨h.ordered, h.stamped, h.thread, ?_⟩
    intro u i hu
    cases hu
    simp
  | requeueScan keep t i hloop hpos =>
    refine ⟨h.ordered, h.stamped, h.thread, ?_⟩
    intro u j hu
    cases hu
    exact passed_succ hpos (h.loop t i hloop)
  | requeueInsert keep t i hloop hpos =>
    exact h.inserted hS' rfl (hd.listing.loop t i hloop).1 hpos (h.loop t i hloop) rfl rfl
      (stamp_insert s t _) rfl
  | requeueRemove keep t hloop hlock =>
    exact h.removed hd hm' hlock (List.erase_sublist ..) rfl rfl
  | nextTimeout answer hloop hlock => exact h.stay hd hm' rfl rfl rfl hself (by grind)
  | noFunction answer executedAny hloop hlock hempty =>
    exact h.stay hd hm' rfl rfl rfl hself (by grind)
  | testTerminated answer terminated evs hloop =>
    exact h.stay hd hm' rfl rfl rfl hself (by grind)
  | epollReturn r now w p hloop hp => exact h.stay hd hm' rfl rfl rfl hself (by grind)
  | enter | takeFunction | invoke | takeTimer | noneExpired | expired | batchDone | watcher
  | command | readInterrupted | readEmpty | readByte | requeueFound | requeueWake
  | requeueRemoveWake => exact h.stay hd hm' rfl rfl rfl hself (by simp)
  | _ => exact h.stay hd hm' rfl rfl rfl hself hsame

/-- The list is in the order of the expiries, and of the insertions among equal ones. -/
theorem sorted_invariant :
    (system T Th F capacity).Invariant Machine.anyStep Disciplined Sorted where
  init := by
    rintro s ⟨now, _, rfl⟩
    exact ⟨List.Pairwise.nil, by simp [State.start], by simp [State.start],
      by simp [State.start]⟩
  step s a s' _ hd hstep h := sorted_step (moves_of_step hstep) hd h

theorem sorted (hreach : (system T Th F capacity).Reachable Machine.anyStep s) : Sorted s :=
  sorted_invariant.reachable (fun _ => disciplined) hreach

/-- What holds of the list whenever mTimerLock is free. -/
structure ListInvariant (s : State T Th F) : Prop where
  nodup : s.mTimers.Nodup
  sorted : s.mTimers.Pairwise fun t u => (s.timer t).mExpiry < (s.timer u).mExpiry ∨
    (s.timer t).mExpiry = (s.timer u).mExpiry ∧ (s.history t).stamp < (s.history u).stamp
  queued : ∀ t, (s.timer t).mState = .queued →
    t ∈ s.mTimers ∨ ∃ th, s.thread th = .timer t .addLock
  listed : ∀ t ∈ s.mTimers, (s.timer t).mState = .queued ∨
    (s.timer t).mState = .requeuePending ∨
      (s.timer t).mState = .stopped ∧ ∃ th k, s.thread th = .timer t (.requestQueued k) ∨
        s.thread th = .timer t (.remove k)

theorem listInvariant_of_free (hd : Disciplined s) (hsorted : Sorted s)
    (hfree : s.mTimerLock = none) : ListInvariant s where
  nodup := hd.listing.nodup
  sorted := hsorted.ordered
  queued t hst := by
    rcases (hd.consistent t).queued_listed hst with hl | hadding
    · exact Or.inl hl
    · have hc := claim_adding hadding (hd.sections.not_scanning (Or.inl hfree) t)
      exact Or.inr (exists_thread_of_control hc (by simp))
  listed t ht := by
    have hphase := not_locked_phase (not_locked_on (hd.sections.not_inSection (by simp [hfree])) t)
    rcases (hd.consistent t).listed_state ht hphase with hst | hst | ⟨hst, hclaim⟩
    · exact Or.inl hst
    · exact Or.inr (Or.inl hst)
    · refine Or.inr (Or.inr ⟨hst, ?_⟩)
      obtain ⟨k, hc | hc⟩ := claim_exchanged hclaim
      · obtain ⟨th, hth⟩ := exists_thread_of_control hc (by simp)
        exact ⟨th, k, Or.inl hth⟩
      · obtain ⟨th, hth⟩ := exists_thread_of_control hc (by simp)
        exact ⟨th, k, Or.inr hth⟩

theorem Disciplined.adding_not_listed (hd : Disciplined s) {th : Th}
    (hth : s.thread th = .timer t .addLock) : t ∉ s.mTimers := by
  have hcons := hd.consistent t
  have hc : (s.life t).control = some .addLock := hd.owned.control_eq th t hth
  unfold Consistent at hcons
  rw [hc] at hcons
  exact hcons.not_listed

theorem Disciplined.requeue_not_listed (hd : Disciplined s)
    (hloop : s.loop = .exec t .requeueLock) : t ∉ s.mTimers := by
  have hcons := hd.consistent t
  have he : (s.life t).exec = some .requeueLock := by simp [State.life, hloop, LoopPoint.on]
  unfold Consistent at hcons
  rw [he] at hcons
  exact hcons.2.1

theorem Sorted.head_least (h : Sorted s) (t : T) (ht : s.mTimers.head? = some t) :
    ∀ u ∈ s.mTimers, (s.timer t).mExpiry ≤ (s.timer u).mExpiry := by
  obtain ⟨rest, hlist⟩ := List.head?_eq_some_iff.mp ht
  have hordered : Ordered s.expiry s.stamp (t :: rest) := hlist ▸ h.ordered
  rw [hlist]
  exact hordered.head_le

theorem front_least (hd : Disciplined s) (hsorted : Sorted s) {e : Exec}
    (hloop : s.loop = .exec t e) (he : atFront e) :
    s.mTimers.head? = some t ∧
      ∀ u ∈ s.mTimers, (s.timer t).mExpiry ≤ (s.timer u).mExpiry := by
  have hhead := hd.listing.front t e hloop he
  exact ⟨hhead, hsorted.head_least t hhead⟩

/-- The invariant of the list. The branch of insertTimerLocked for a timer that is already
in the list is not reached, and the timer that takeExpiredTimerLocked takes is a least one. -/
theorem timer_list (hreach : (system T Th F capacity).Reachable Machine.anyStep s) :
    (s.mTimerLock = none → ListInvariant s) ∧
    (∀ a s' t, (system T Th F capacity).step s a = some s' → t ∈ s.mTimers →
      (s'.timer t).mExpiry = (s.timer t).mExpiry) ∧
    (∀ th t, s.thread th = .timer t .addLock → t ∉ s.mTimers) ∧
    (∀ t, s.loop = .exec t .requeueLock → t ∉ s.mTimers) ∧
    (∀ t e, s.loop = .exec t e → atFront e → s.mTimers.head? = some t ∧
      ∀ u ∈ s.mTimers, (s.timer t).mExpiry ≤ (s.timer u).mExpiry) := by
  have hd := disciplined hreach
  have hsorted := sorted hreach
  refine ⟨listInvariant_of_free hd hsorted, ?_, ?_, ?_, ?_⟩
  · intro a s' t hstep ht
    exact hd.expiry_step (moves_of_step hstep) (Or.inl ht)
  · intro th t hth
    exact hd.adding_not_listed hth
  · intro t hloop
    exact hd.requeue_not_listed hloop
  · intro t e hloop he
    exact front_least hd hsorted hloop he

section Runs

/-- Two timers are started at one tick with the same interval, one after the other. -/
def startTwo : List (Action Bool Unit Unit) :=
  [.start () true 5 false] ++ List.replicate 8 (.thread () false) ++
    [.start () false 5 false] ++ List.replicate 9 (.thread () false)

def twoStarted : State Bool Unit Unit :=
  (system Bool Unit Unit oneSlot).after Machine.anyStep (State.start 0) startTwo

theorem timer_list_two_started : twoStarted.mTimers = [true, false] ∧ ListInvariant twoStarted :=
  ⟨by decide +kernel,
    (timer_list (Machine.reachable_after (initial_start oneSlot) (by decide +kernel))).1
      (by decide +kernel)⟩

end Runs

end CWrapper.MainLoop
