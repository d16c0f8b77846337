import CWrapper.AsyncThread
import CWrapper.WorkerMoves

/-!
Where the threads stand in start() and stop(). A point of a call goes with the points of
mThreadEngine at which the thread may be, with what the call has logged, and with the vacant points,
at which nobody is in taskEntry. A call that has returned has logged one of three histories.
-/
namespace CWrapper.AsyncThread

open Transition WorkerThread

variable {K Th : Type}

def Event.call : Event K → Option ℕ
  | .refused callback | .assigned callback | .created callback | .returned callback _ =>
      some callback.id
  | .invoked _ _ | .left _ => none

def Event.session : Event K → Option ℕ
  | .created callback => some callback.id
  | .invoked session _ | .left session => some session
  | .refused _ | .assigned _ | .returned _ _ => none

def about (subject : Event K → Option ℕ) (n : ℕ) (log : List (Event K)) : List (Event K) :=
  log.filter fun e => subject e = some n

section About

variable (subject : Event K → Option ℕ) {n : ℕ} (log : List (Event K))

theorem mem_about {e : Event K} : e ∈ about subject n log ↔ e ∈ log ∧ subject e = some n := by
  simp [about]

theorem about_append (events : List (Event K)) :
    about subject n (log ++ events) = about subject n log ++ about subject n events :=
  List.filter_append ..

theorem about_of_eq {events : List (Event K)} (heq : ∀ e ∈ events, subject e = some n) :
    about subject n (log ++ events) = about subject n log ++ events := by
  rw [about_append]
  congr 1
  exact List.filter_eq_self.mpr fun e he => decide_eq_true (heq e he)

theorem about_of_ne {events : List (Event K)} (hne : ∀ e ∈ events, subject e ≠ some n) :
    about subject n (log ++ events) = about subject n log := by
  rw [about_append]
  simpa [about] using hne

end About

abbrev history (n : ℕ) (log : List (Event K)) : List (Event K) := about Event.call n log

/-- A new event belongs to the history of the call that it is about, and to no other. -/
theorem history_concat {n : ℕ} {e : Event K} (log : List (Event K)) (he : e.call = some n) :
    history n (log ++ [e]) = history n log ++ [e] :=
  about_of_eq Event.call log (by simpa using he)

/-- What a call has logged when it has returned. -/
inductive Finished (callback : Callable K) : List (Event K) → Prop
  | refused : Finished callback [.refused callback, .returned callback false]
  | failed : Finished callback [.assigned callback, .returned callback false]
  | started : Finished callback [.assigned callback, .created callback, .returned callback true]

/-- What is logged of a number that no call of start() has now. -/
inductive Closed (starts : ℕ) : ℕ → List (Event K) → Prop
  | finished {callback : Callable K} {events : List (Event K)} (hlt : callback.id < starts)
      (hevents : Finished callback events) : Closed starts callback.id events
  | unused {n : ℕ} (hle : starts ≤ n) : Closed starts n []

/-- Before mThreadEngine.start() returns, and after it. -/
def startHistory (callback : Callable K) (result : Bool) : List (Event K) :=
  if result then [.assigned callback, .created callback] else [.assigned callback]

def Operation.callback : Operation K → Option (Callable K)
  | .start callback => some callback
  | .stop => none

namespace Call

def callback : Call K → Option (Callable K)
  | .isCurrentThread op | .lockLifecycle op | .callStop op | .stopping op | .unlock op _ =>
      op.callback
  | .shouldRun callback | .assign callback | .callStart callback | .starting callback _ =>
      some callback
  | .none => Option.none

def holds : Call K → Bool
  | .none | .isCurrentThread _ | .lockLifecycle _ => false
  | _ => true

/-- The callback that mWorkerTask has been assigned for. -/
def assigned : Call K → Option (Callable K)
  | .callStart callback | .starting callback _ => some callback
  | _ => Option.none

end Call

/-- The point of a thread in a call, its point in mThreadEngine, whether it is vacant, and what the
call has logged. -/
inductive Stands : Call K → WorkerThread.Call Unit Th → Bool → List (Event K) → Prop
  | outside : Stands .none .none false []
  | sleeping (pt : SleepPoint) : Stands .none (.msleep pt) false []
  | isCurrentThread (op : Operation K) : Stands (.isCurrentThread op) .none false []
  | lockLifecycle (op : Operation K) : Stands (.lockLifecycle op) .none false []
  | shouldRun (callback : Callable K) : Stands (.shouldRun callback) .none false []
  | callStop (op : Operation K) : Stands (.callStop op) .none false []
  | stopping (op : Operation K) {c : WorkerThread.Call Unit Th} (hc : InStop c) :
      Stands (.stopping op) c false []
  | stopEnd (op : Operation K) : Stands (.stopping op) .unlock true []
  | stopped (op : Operation K) : Stands (.stopping op) .none true []
  | assign (callback : Callable K) : Stands (.assign callback) .none true []
  | callStart (callback : Callable K) : Stands (.callStart callback) .none true [.assigned callback]
  | before (callback : Callable K) {c : WorkerThread.Call Unit Th} (hc : BeforeCreate c) :
      Stands (.starting callback false) c true [.assigned callback]
  | failing (callback : Callable K) (inside : Bool) :
      Stands (.starting callback false) (.start () (.cleanup inside)) false [.assigned callback]
  | after (callback : Callable K) {c : WorkerThread.Call Unit Th} (hc : AfterCreate c) :
      Stands (.starting callback false) c false [.assigned callback, .created callback]
  | startEnd (callback : Callable K) (result : Bool) :
      Stands (.starting callback result) .unlock false (startHistory callback result)
  | started (callback : Callable K) (result : Bool) :
      Stands (.starting callback result) .none false (startHistory callback result)
  | refused (callback : Callable K) :
      Stands (.unlock (.start callback) (some false)) .none false [.refused callback]
  | unlock (callback : Callable K) (result : Bool) :
      Stands (.unlock (.start callback) (some result)) .none false (startHistory callback result)
  | unlockStop : Stands (.unlock .stop none) .none true []

variable {c : Call K} {ec : WorkerThread.Call Unit Th} {vacant : Bool} {events : List (Event K)}

theorem Stands.holds (h : Stands c ec true events) : c.holds = true := by
  cases h <;> rfl

/-- A thread that sleeps is not in a call of AsyncThread. -/
theorem Stands.of_msleep {pt : SleepPoint}
    (h : Stands c (.msleep pt : WorkerThread.Call Unit Th) vacant events) : c = .none := by
  cases h with
  | sleeping => rfl
  | stopping _ hc => cases hc
  | before _ hc => cases hc
  | after _ hc => cases hc

/-- A call that has assigned mWorkerTask holds mLifecycleLock. -/
theorem assigned_holds {callback : Callable K} (h : c.assigned = some callback) :
    c.holds = true := by
  cases c <;> first | rfl | cases h

def Standing (s : State K Th) (c : Call K) (ec : WorkerThread.Call Unit Th) : Prop :=
  ∃ vacant events, Stands c ec vacant events ∧ (vacant = true → s.mThreadEngine.nobody) ∧
    ∀ callback, c.callback = some callback → history callback.id s.log = events

structure Orderly (s : State K Th) : Prop where
  lifecycle : ∀ th, (s.call th).holds = true ↔ s.mLifecycleLock = some th
  outside : ∀ th, s.call th ≠ .none → s.mThreadEngine.task th = .none
  stands : ∀ th, Standing s (s.call th) (s.mThreadEngine.call th)
  assigned : ∀ th callback, (s.call th).assigned = some callback →
    s.mWorkerTask.mStorage = some callback
  number : ∀ th callback, (s.call th).callback = some callback → callback.id < s.starts
  distinct : ∀ th th' callback callback', (s.call th).callback = some callback →
    (s.call th').callback = some callback' → callback.id = callback'.id → th = th'
  closed : ∀ n, (∃ th callback, (s.call th).callback = some callback ∧ callback.id = n) ∨
    Closed s.starts n (history n s.log)

variable {s s' : State K Th} {th : Th}

/-- After the construction no call has logged anything. -/
theorem orderly_start : Orderly (start : State K Th) where
  lifecycle th := by simp [start, Call.holds]
  outside th h := absurd rfl h
  stands th := ⟨false, [], .outside, by simp, by simp [start, Call.callback]⟩
  assigned th callback h := by cases h
  number th callback h := by cases h
  distinct th th' callback callback' h := by cases h
  closed n := Or.inr (.unused (Nat.zero_le n))

/-- Only one thread is where mLifecycleLock is held. -/
theorem Orderly.holder (h : Orderly s) {th' : Th} (hth : (s.call th).holds = true)
    (hth' : (s.call th').holds = true) : th' = th :=
  Option.some.inj (((h.lifecycle th').mp hth').symm.trans ((h.lifecycle th).mp hth))

/-- A number that no call has now. -/
theorem Orderly.closed_of (h : Orderly s) {n : ℕ}
    (hn : ∀ u callback, (s.call u).callback = some callback → callback.id ≠ n) :
    Closed s.starts n (history n s.log) := by
  obtain ⟨u, callback, hcb, hid⟩ | hclosed := h.closed n
  · exact absurd hid (hn u callback hcb)
  · exact hclosed

variable [DecidableEq Th]

/-- One thread goes on. -/
theorem Orderly.update (h : Orderly s) (hcall : s'.call = Function.update s.call th c)
    (hengine : s'.mThreadEngine.call = Function.update s.mThreadEngine.call th ec)
    (hlock : ∀ u, u ≠ th → (s'.mLifecycleLock = some u ↔ s.mLifecycleLock = some u))
    (hholds : c.holds = true ↔ s'.mLifecycleLock = some th)
    (hout : c ≠ .none → s'.mThreadEngine.task th = .none)
    (htask : ∀ u, u ≠ th → s.call u ≠ .none → s'.mThreadEngine.task u = .none)
    (hnobody : (s.call th).holds = false → s.mThreadEngine.nobody → s'.mThreadEngine.nobody)
    (hstands : Standing s' c ec)
    (hassigned : ∀ callback, c.assigned = some callback → s'.mWorkerTask.mStorage = some callback)
    (hkeep : (s.call th).holds = false → s'.mWorkerTask = s.mWorkerTask)
    (hlog : ∀ u callback, u ≠ th → (s.call u).callback = some callback →
      history callback.id s'.log = history callback.id s.log)
    (hstarts : s.starts ≤ s'.starts)
    (hnumber : ∀ callback, c.callback = some callback → callback.id < s'.starts ∧
      ∀ u callback', u ≠ th → (s.call u).callback = some callback' → callback'.id ≠ callback.id)
    (hclosed : ∀ n, (∃ u callback, (s'.call u).callback = some callback ∧ callback.id = n) ∨
      Closed s'.starts n (history n s'.log)) : Orderly s' := by
  have hself : s'.call th = c := by rw [hcall, Function.update_self]
  have hother {u : Th} (hne : u ≠ th) : s'.call u = s.call u := by
    rw [hcall, Function.update_of_ne hne]
  have hunheld {u : Th} (hne : u ≠ th) (hu : (s.call u).holds = true) :
      (s.call th).holds = false := by
    by_contra hth
    exact hne (h.holder (by simpa using hth) hu)
  exact
    { lifecycle := fun u => by
        by_cases hu : u = th
        · rw [hu, hself]
          exact hholds
        · rw [hother hu, hlock u hu]
          exact h.lifecycle u
      outside := fun u hne => by
        by_cases hu : u = th
        · rw [hu, hself] at hne
          rw [hu]
          exact hout hne
        · rw [hother hu] at hne
          exact htask u hu hne
      stands := fun u => by
        by_cases hu : u = th
        · rw [hu, hself, hengine, Function.update_self]
          exact hstands
        · rw [hother hu, hengine, Function.update_of_ne hu]
          obtain ⟨vacant, events, hst, hvacant, hevents⟩ := h.stands u
          refine ⟨vacant, events, hst, fun hv => ?_, fun callback hcb => ?_⟩
          · rw [hv] at hst
            exact hnobody (hunheld hu hst.holds) (hvacant hv)
          · rw [hlog u callback hu hcb]
            exact hevents callback hcb
      assigned := fun u callback hcb => by
        by_cases hu : u = th
        · rw [hu, hself] at hcb
          exact hassigned callback hcb
        · rw [hother hu] at hcb
          rw [hkeep (hunheld hu (assigned_holds hcb))]
          exact h.assigned u callback hcb
      number := fun u callback hcb => by
        by_cases hu : u = th
        · rw [hu, hself] at hcb
          exact (hnumber callback hcb).1
        · rw [hother hu] at hcb
          exact (h.number u callback hcb).trans_le hstarts
      distinct := fun u u' callback callback' hcb hcb' heq => by
        by_cases hu : u = th
        · by_cases hu' : u' = th
          · rw [hu, hu']
          · rw [hu, hself] at hcb
            rw [hother hu'] at hcb'
            exact absurd heq.symm ((hnumber callback hcb).2 u' callback' hu' hcb')
        · rw [hother hu] at hcb
          by_cases hu' : u' = th
          · rw [hu', hself] at hcb'
            exact absurd heq ((hnumber callback' hcb').2 u callback hu hcb)
          · rw [hother hu'] at hcb'
            exact h.distinct u u' callback callback' hcb hcb' heq
      closed := hclosed }

/-- One thread goes on in its call, and logs what is about this call. -/
theorem Orderly.move (h : Orderly s) (c : Call K) (ec : WorkerThread.Call Unit Th)
    (new : List (Event K))
    (hcall : s'.call = Function.update s.call th c)
    (hengine : s'.mThreadEngine.call = Function.update s.mThreadEngine.call th ec)
    (hlock : ∀ u, u ≠ th → (s'.mLifecycleLock = some u ↔ s.mLifecycleLock = some u))
    (hholds : c.holds = true ↔ s'.mLifecycleLock = some th)
    (hcallback : c.callback = (s.call th).callback)
    (hout : c ≠ .none → s'.mThreadEngine.task th = .none)
    (htask : ∀ u, s.call u ≠ .none → s.mThreadEngine.task u = .none →
      s'.mThreadEngine.task u = .none)
    (hnobody : (s.call th).holds = false → s.mThreadEngine.nobody → s'.mThreadEngine.nobody)
    (hstands : Standing s' c ec)
    (hassigned : ∀ callback, c.assigned = some callback → s'.mWorkerTask.mStorage = some callback)
    (hkeep : (s.call th).holds = false → s'.mWorkerTask = s.mWorkerTask)
    (hstarts : s'.starts = s.starts) (hlog : s'.log = s.log ++ new)
    (hnew : ∀ e ∈ new, ∀ n, e.call = some n →
      ∃ callback, (s.call th).callback = some callback ∧ callback.id = n) : Orderly s' := by
  have hhistory {n : ℕ}
      (hn : ∀ callback, (s.call th).callback = some callback → callback.id ≠ n) :
      history n s'.log = history n s.log := by
    rw [hlog]
    refine about_of_ne _ _ fun e he heq => ?_
    obtain ⟨callback, hcb, hid⟩ := hnew e he n heq
    exact hn callback hcb hid
  have hself : s'.call th = c := by rw [hcall, Function.update_self]
  refine h.update hcall hengine hlock hholds hout
    (fun u _ hne => htask u hne (h.outside u hne)) hnobody hstands hassigned hkeep
    (fun u callback hu hcb => hhistory fun callback' hcb' heq =>
      hu (h.distinct th u callback' callback hcb' hcb heq).symm)
    hstarts.ge ?_ ?_
  · intro callback hcb
    rw [hcallback] at hcb
    refine ⟨hstarts ▸ h.number th callback hcb, fun u callback' hu hcb' heq => ?_⟩
    exact hu (h.distinct u th callback' callback hcb' hcb heq)
  · intro n
    obtain ⟨u, callback, hcb, hid⟩ | hclosed := h.closed n
    · refine Or.inl ⟨u, callback, ?_, hid⟩
      by_cases hu : u = th
      · rw [hu] at hcb ⊢
        rw [hself, hcallback]
        exact hcb
      · rw [hcall, Function.update_of_ne hu]
        exact hcb
    · by_cases hn : ∃ callback, (s.call th).callback = some callback ∧ callback.id = n
      · obtain ⟨callback, hcb, hid⟩ := hn
        exact Or.inl ⟨th, callback, by rw [hself, hcallback]; exact hcb, hid⟩
      · refine Or.inr ?_
        rw [hstarts, hhistory fun callback hcb hid => hn ⟨callback, hcb, hid⟩]
        exact hclosed

end CWrapper.AsyncThread
