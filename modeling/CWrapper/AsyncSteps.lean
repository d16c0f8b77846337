import CWrapper.AsyncCalls

/-!
The steps of start() and stop() in AsyncThread keep the threads in order.
-/
namespace CWrapper.AsyncThread

open Transition WorkerThread

variable {K Th : Type} {s s' : State K Th} {th : Th} {c : Call K} {ec : WorkerThread.Call Unit Th}

theorem call_isNone_iff : c.isNone = true ↔ c = .none := by
  cases c <;> simp [Call.isNone]

theorem isFree_iff : s.isFree th = true ↔
    s.call th = .none ∧ s.mThreadEngine.call th = .none ∧ s.mThreadEngine.task th = .none := by
  rw [State.isFree, Bool.and_eq_true, Bool.and_eq_true, call_isNone_iff, isNone_iff,
    task_isNone_iff, and_assoc]

/-- Where a thread stands at a point of its call. -/
theorem Orderly.standing (h : Orderly s) (hcall : s.call th = c) :
    ∃ ec vacant events, s.mThreadEngine.call th = ec ∧ Stands c ec vacant events ∧
      (vacant = true → s.mThreadEngine.nobody) ∧
      ∀ callback, c.callback = some callback → history callback.id s.log = events := by
  obtain ⟨vacant, events, hst, hvacant, hevents⟩ := h.stands th
  rw [hcall] at hst hevents
  exact ⟨_, vacant, events, rfl, hst, hvacant, hevents⟩

theorem returned_fields (s : State K Th) (op : Operation K) (result : Option Bool) :
    ∃ log, returned s op result = { s with log := log } := by
  unfold returned
  split
  · exact ⟨_, rfl⟩
  · exact ⟨s.log, rfl⟩

/-- What the call logs when it returns closes its history. -/
theorem returned_history (h : Orderly s) {op : Operation K} {result : Option Bool}
    (hcall : s.call th = .unlock op result) (n : ℕ) :
    (∃ callback, op.callback = some callback ∧ callback.id = n) ∧
        Closed s.starts n (history n (returned s op result).log) ∨
      (∀ callback, op.callback = some callback → callback.id ≠ n) ∧
        history n (returned s op result).log = history n s.log := by
  obtain ⟨ec, vacant, events, hec, hst, -, hevents⟩ := h.standing hcall
  have hlt (callback : Callable K) (hop : op = .start callback) : callback.id < s.starts := by
    refine h.number th callback ?_
    rw [hcall, hop]
    rfl
  have hclosed {callback : Callable K} {result : Bool} (hop : op = .start callback)
      (hlog : history callback.id s.log = events)
      (hfinished : Finished callback (events ++ [.returned callback result])) :
      Closed s.starts callback.id
        (history callback.id (s.emit (.returned callback result)).log) := by
    refine .finished (hlt callback hop) ?_
    show Finished callback (history callback.id (s.log ++ [.returned callback result]))
    rw [history_concat s.log rfl, hlog]
    exact hfinished
  have hother {callback : Callable K} {result : Bool} (hn : callback.id ≠ n) :
      history n (s.emit (.returned callback result)).log = history n s.log := by
    refine about_of_ne _ s.log fun e he heq => ?_
    obtain rfl := List.mem_singleton.mp he
    exact hn (Option.some.inj heq)
  cases hst with
  | refused callback =>
    by_cases hn : callback.id = n
    · subst hn
      exact Or.inl ⟨⟨callback, rfl, rfl⟩, hclosed rfl (hevents callback rfl) .refused⟩
    · refine Or.inr ⟨fun callback' hcb => ?_, hother hn⟩
      obtain rfl := Option.some.inj hcb
      exact hn
  | unlock callback result =>
    by_cases hn : callback.id = n
    · subst hn
      refine Or.inl ⟨⟨callback, rfl, rfl⟩, hclosed rfl (hevents callback rfl) ?_⟩
      cases result with
      | true => exact .started
      | false => exact .failed
    · refine Or.inr ⟨fun callback' hcb => ?_, hother hn⟩
      obtain rfl := Option.some.inj hcb
      exact hn
  | unlockStop =>
    refine Or.inr ⟨fun callback hcb => ?_, rfl⟩
    cases hcb

variable [DecidableEq Th]

theorem call_same (hec : s.mThreadEngine.call th = ec) :
    s.mThreadEngine.call = Function.update s.mThreadEngine.call th ec := by
  rw [← hec, Function.update_eq_self]

section Begin

/-- The next call of start() leaves the other numbers closed. -/
theorem Closed.next {n : ℕ} {events : List (Event K)} {starts : ℕ} (h : Closed starts n events)
    (hne : n ≠ starts) : Closed (starts + 1) n events := by
  cases h with
  | finished hlt hevents => exact .finished (by omega) hevents
  | unused hle => exact .unused (by omega)

theorem Closed.eq_nil {n : ℕ} {events : List (Event K)} {starts : ℕ} (h : Closed starts n events)
    (hle : starts ≤ n) : events = [] := by
  cases h with
  | finished hlt hevents => omega
  | unused hle => rfl

/-- A thread calls stop(). -/
theorem Orderly.stop (h : Orderly s) (hfree : s.isFree th = true) :
    Orderly (s.goto th (.isCurrentThread .stop)) := by
  obtain ⟨hcall, hec, htask⟩ := isFree_iff.mp hfree
  refine h.move _ _ [] rfl (call_same hec) (fun _ _ => Iff.rfl) ?_ ?_ (fun _ => htask)
    (fun _ _ hu => hu) (fun _ hs => hs) ⟨false, [], .isCurrentThread .stop, by simp, ?_⟩ ?_
    (fun _ => rfl) rfl (by simp [State.goto]) (by simp)
  · have hlock := h.lifecycle th
    rw [hcall] at hlock
    exact hlock
  · rw [hcall]
    rfl
  · intro callback hcb
    cases hcb
  · intro callback hcb
    cases hcb

/-- A thread calls start() with a callback that is numbered by the call. -/
theorem Orderly.start (h : Orderly s) (hfree : s.isFree th = true) (type : K) :
    Orderly ({ s with starts := s.starts + 1 }.goto th
      (.isCurrentThread (.start ⟨type, s.starts⟩))) := by
  obtain ⟨hcall, hec, htask⟩ := isFree_iff.mp hfree
  have hnew : history s.starts s.log = [] := by
    have hclosed : Closed s.starts s.starts (history s.starts s.log) :=
      h.closed_of fun u callback hcb => (h.number u callback hcb).ne
    exact hclosed.eq_nil le_rfl
  refine h.update rfl (call_same hec) (fun _ _ => Iff.rfl) ?_ (fun _ => htask)
    (fun u _ hu => h.outside u hu) (fun _ hs => hs)
    ⟨false, [], .isCurrentThread _, by simp, ?_⟩ ?_ (fun _ => rfl) (fun _ _ _ _ => rfl)
    (Nat.le_succ _) ?_ ?_
  · have hlock := h.lifecycle th
    rw [hcall] at hlock
    exact hlock
  · intro callback hcb
    obtain rfl := Option.some.inj hcb
    exact hnew
  · intro callback hcb
    cases hcb
  · intro callback hcb
    obtain rfl := Option.some.inj hcb
    refine ⟨Nat.lt_succ_self _, fun u callback' hu hcb' => ?_⟩
    exact (h.number u callback' hcb').ne
  · intro n
    by_cases hn : n = s.starts
    · exact Or.inl ⟨th, ⟨type, s.starts⟩, by simp [State.goto, Call.callback, Operation.callback],
        hn.symm⟩
    · obtain ⟨u, callback, hcb, hid⟩ | hclosed := h.closed n
      · refine Or.inl ⟨u, callback, ?_, hid⟩
        have hu : u ≠ th := by
          intro hu
          rw [hu, hcall] at hcb
          cases hcb
        simpa [State.goto, Function.update_of_ne hu] using hcb
      · exact Or.inr (hclosed.next hn)

end Begin

section Resume

/-- What a step of a thread does from a point of start() or stop(), outside mThreadEngine. -/
inductive CallSteps (s : State K Th) (th : Th) : Call K → State K Th → Prop
  | decided (op : Operation K) :
      CallSteps s th (.isCurrentThread op) (s.goto th (.lockLifecycle op))
  | acquire (op : Operation K) (hfree : s.mLifecycleLock = none) :
      CallSteps s th (.lockLifecycle op) ({ s with mLifecycleLock := some th }.goto th op.locked)
  | refuse (callback : Callable K) : CallSteps s th (.shouldRun callback)
      ((s.emit (.refused callback)).goto th (.unlock (.start callback) (some false)))
  | notRunning (callback : Callable K) :
      CallSteps s th (.shouldRun callback) (s.goto th (.callStop (.start callback)))
  | stop (op : Operation K) {e : WorkerThread.State Unit Th}
      (he : WorkerThread.step s.mThreadEngine (.call th .stop) = some e) :
      CallSteps s th (.callStop op) ({ s with mThreadEngine := e }.goto th (.stopping op))
  | stopped (op : Operation K) (hnone : s.mThreadEngine.call th = .none) :
      CallSteps s th (.stopping op) (s.goto th op.stopped)
  | assign (callback : Callable K) : CallSteps s th (.assign callback) (({ s with
      mWorkerTask := (FixedFunction.moveAssign s.mWorkerTask (.construct callback)).1 }.emit
        (.assigned callback)).goto th (.callStart callback))
  | start (callback : Callable K) {e : WorkerThread.State Unit Th}
      (he : WorkerThread.step s.mThreadEngine (.call th (.start ())) = some e) :
      CallSteps s th (.callStart callback)
        ({ s with mThreadEngine := e }.goto th (.starting callback false))
  | started (callback : Callable K) (result : Bool) (hnone : s.mThreadEngine.call th = .none) :
      CallSteps s th (.starting callback result)
        (s.goto th (.unlock (.start callback) (some result)))
  | leave (op : Operation K) (result : Option Bool) : CallSteps s th (.unlock op result)
      ((returned { s with mLifecycleLock := none } op result).goto th .none)

/-- The case analysis of the steps of start() and stop(), done once. -/
theorem callStep_does (hstep : callStep s th c = some s') : CallSteps s th c s' := by
  cases c with
  | none => cases hstep
  | isCurrentThread op =>
    obtain ⟨-, hs⟩ := Option.ite_none_left_eq_some.mp hstep
    obtain rfl := Option.some.inj hs
    exact .decided op
  | lockLifecycle op =>
    obtain ⟨hfree, hs⟩ := Option.ite_none_right_eq_some.mp hstep
    obtain rfl := Option.some.inj hs
    exact .acquire op (Option.isNone_iff_eq_none.mp hfree)
  | shouldRun callback =>
    simp only [callStep] at hstep
    split at hstep
    · obtain rfl := Option.some.inj hstep
      exact .refuse callback
    · obtain rfl := Option.some.inj hstep
      exact .notRunning callback
  | callStop op =>
    obtain ⟨e, he, rfl⟩ := Option.map_eq_some_iff.mp hstep
    exact .stop op he
  | stopping op =>
    obtain ⟨hnone, hs⟩ := Option.ite_none_right_eq_some.mp hstep
    obtain rfl := Option.some.inj hs
    exact .stopped op (isNone_iff.mp hnone)
  | assign callback =>
    obtain rfl := Option.some.inj hstep
    exact .assign callback
  | callStart callback =>
    obtain ⟨e, he, rfl⟩ := Option.map_eq_some_iff.mp hstep
    exact .start callback he
  | starting callback result =>
    obtain ⟨hnone, hs⟩ := Option.ite_none_right_eq_some.mp hstep
    obtain rfl := Option.some.inj hs
    exact .started callback result (isNone_iff.mp hnone)
  | unlock op result =>
    obtain rfl := Option.some.inj hstep
    exact .leave op result

/-- A thread goes on in its call, mThreadEngine stays as it is. -/
theorem Orderly.goto (h : Orderly s) (hne : s.call th ≠ .none)
    (hcallback : c.callback = (s.call th).callback) (hholds : c.holds = (s.call th).holds)
    (hec : s.mThreadEngine.call th = ec) (hstands : Standing s c ec)
    (hassigned : ∀ callback, c.assigned = some callback →
      s.mWorkerTask.mStorage = some callback) : Orderly (s.goto th c) :=
  h.move _ _ [] rfl (call_same hec) (fun _ _ => Iff.rfl) (hholds ▸ h.lifecycle th) hcallback
    (fun _ => h.outside th hne) (fun _ _ hu => hu) (fun _ hs => hs) hstands hassigned (fun _ => rfl)
    rfl (List.append_nil _).symm (by simp)

/-- A call that gets mLifecycleLock is the only one that holds it. -/
theorem Orderly.acquire (h : Orderly s) {op : Operation K} (hcall : s.call th = .lockLifecycle op)
    (hfree : s.mLifecycleLock = none) :
    Orderly ({ s with mLifecycleLock := some th }.goto th op.locked) := by
  obtain ⟨ec, vacant, events, hec, hst, -, hevents⟩ := h.standing hcall
  cases hst
  have hcallback : op.locked.callback = (Call.lockLifecycle op).callback := by
    cases op <;> rfl
  have hstands : Stands op.locked (.none : WorkerThread.Call Unit Th) false [] := by
    cases op with
    | start callback => exact .shouldRun callback
    | stop => exact .callStop .stop
  refine h.move _ _ [] rfl (call_same hec) (fun u hu => ?_) ?_ (by rw [hcall, hcallback])
    (fun _ => h.outside th (by rw [hcall]; simp)) (fun _ _ hu => hu) (fun _ hs => hs)
    ⟨false, [], hstands, by simp, fun callback hcb => ?_⟩ ?_ (fun _ => rfl) rfl
    (List.append_nil _).symm (by simp)
  · simp [State.goto, hfree, Ne.symm hu]
  · simp only [State.goto, iff_true]
    cases op <;> rfl
  · rw [hcallback] at hcb
    exact hevents callback hcb
  · cases op <;> intro callback hcb <;> cases hcb

/-- The test of shouldRun() is true: start() refuses. -/
theorem Orderly.refuse (h : Orderly s) {callback : Callable K}
    (hcall : s.call th = .shouldRun callback) :
    Orderly ((s.emit (.refused callback)).goto th (.unlock (.start callback) (some false))) := by
  obtain ⟨ec, vacant, events, hec, hst, -, hevents⟩ := h.standing hcall
  cases hst
  refine h.move _ _ [.refused callback] rfl (call_same hec) (fun _ _ => Iff.rfl) ?_
    (by rw [hcall]; rfl) (fun _ => h.outside th (by rw [hcall]; simp)) (fun _ _ hu => hu)
    (fun _ hs => hs) ⟨false, _, .refused callback, by simp, fun callback' hcb => ?_⟩ ?_
    (fun _ => rfl) rfl rfl ?_
  · have hlock := h.lifecycle th
    rw [hcall] at hlock
    exact hlock
  · obtain rfl := Option.some.inj hcb
    have hnil := hevents callback rfl
    simp only [State.goto, State.emit]
    rw [history_concat s.log rfl, hnil]
    rfl
  · intro callback' hcb
    cases hcb
  · intro e he n hn
    obtain rfl := List.mem_singleton.mp he
    exact ⟨callback, by rw [hcall]; rfl, Option.some.inj hn⟩

/-- start() assigns mWorkerTask. -/
theorem Orderly.assign (h : Orderly s) {callback : Callable K}
    (hcall : s.call th = .assign callback) :
    Orderly (({ s with
      mWorkerTask := (FixedFunction.moveAssign s.mWorkerTask (.construct callback)).1 }.emit
        (.assigned callback)).goto th (.callStart callback)) := by
  obtain ⟨ec, vacant, events, hec, hst, hvacant, hevents⟩ := h.standing hcall
  cases hst
  refine h.move _ _ [.assigned callback] rfl (call_same hec) (fun _ _ => Iff.rfl) ?_
    (by rw [hcall]; rfl) (fun _ => h.outside th (by rw [hcall]; simp)) (fun _ _ hu => hu)
    (fun _ hs => hs) ⟨true, _, .callStart callback, hvacant, fun callback' hcb => ?_⟩ ?_ ?_ rfl
    rfl ?_
  · have hlock := h.lifecycle th
    rw [hcall] at hlock
    exact hlock
  · obtain rfl := Option.some.inj hcb
    have hnil := hevents callback rfl
    simp only [State.goto, State.emit]
    rw [history_concat s.log rfl, hnil]
    rfl
  · intro callback' hcb
    obtain rfl := Option.some.inj hcb
    show (FixedFunction.moveAssign s.mWorkerTask (.construct callback)).1.mStorage = some callback
    rw [FixedFunction.moveAssign_target, FixedFunction.construct_mStorage]
  · rw [hcall]
    intro hfalse
    cases hfalse
  · intro e he n hn
    obtain rfl := List.mem_singleton.mp he
    exact ⟨callback, by rw [hcall]; rfl, Option.some.inj hn⟩

/-- A thread enters a function of mThreadEngine. -/
theorem Orderly.enter (h : Orderly s) {e : Entry Unit} {e' : WorkerThread.State Unit Th}
    (hne : s.call th ≠ .none)
    (hcallback : c.callback = (s.call th).callback) (hholds : c.holds = (s.call th).holds)
    (hstands : Standing s c e.point)
    (hassigned : ∀ callback, c.assigned = some callback →
      s.mWorkerTask.mStorage = some callback)
    (he : WorkerThread.step s.mThreadEngine (.call th e) = some e') :
    Orderly ({ s with mThreadEngine := e' }.goto th c) := by
  cases WorkerThread.step_moves he
  exact h.move _ _ [] rfl rfl (fun _ _ => Iff.rfl) (hholds ▸ h.lifecycle th) hcallback
    (fun _ => h.outside th hne) (fun _ _ hu => hu) (fun _ hs => hs) hstands hassigned
    (fun _ => rfl) rfl (List.append_nil _).symm (by simp)

/-- A thread releases mLifecycleLock and returns. -/
theorem Orderly.leave (h : Orderly s) {op : Operation K} {result : Option Bool}
    (hcall : s.call th = .unlock op result) :
    Orderly ((returned { s with mLifecycleLock := none } op result).goto th .none) := by
  have hec : s.mThreadEngine.call th = .none := by
    obtain ⟨ec, vacant, events, hec, hst, -⟩ := h.standing hcall
    cases hst <;> exact hec
  have hlock : s.mLifecycleLock = some th := (h.lifecycle th).mp (by rw [hcall]; rfl)
  have hhistory (n : ℕ) := returned_history h hcall n
  obtain ⟨log, hlog⟩ := returned_fields { s with mLifecycleLock := none } op result
  have hlog' : (returned s op result).log = log := by
    rw [← show (returned { s with mLifecycleLock := none } op result).log = log by rw [hlog]]
    unfold returned
    split <;> rfl
  rw [hlog'] at hhistory
  rw [hlog]
  refine h.update rfl (call_same hec) (fun u hu => ?_) (by simp [State.goto, Call.holds])
    (fun hne => absurd rfl hne) (fun u _ hne => h.outside u hne) (fun _ hs => hs)
    ⟨false, [], .outside, by simp, by simp [Call.callback]⟩ (by simp [Call.assigned])
    (fun _ => rfl) (fun u callback hu hcb => ?_) le_rfl (by simp [Call.callback]) (fun n => ?_)
  · simp [State.goto, hlock, Ne.symm hu]
  · obtain ⟨⟨callback', hop, hid⟩, -⟩ | ⟨-, hsame⟩ := hhistory callback.id
    · refine absurd (h.distinct th u callback' callback ?_ hcb hid).symm hu
      rw [hcall]
      exact hop
    · exact hsame
  · obtain ⟨-, hclosed⟩ | ⟨hn, hsame⟩ := hhistory n
    · exact Or.inr hclosed
    · obtain ⟨u, callback, hcb, hid⟩ | hclosed := h.closed n
      · have hu : u ≠ th := by
          intro hu
          rw [hu, hcall] at hcb
          exact hn callback hcb hid
        refine Or.inl ⟨u, callback, ?_, hid⟩
        simpa [State.goto, Function.update_of_ne hu] using hcb
      · refine Or.inr ?_
        simp only [State.goto]
        rw [hsame]
        exact hclosed

/-- A step of start() or stop() appends to the history of its own call. -/
theorem Orderly.callStep (h : Orderly s) (hcall : s.call th = c)
    (hstep : callStep s th c = some s') : Orderly s' := by
  obtain ⟨ec, vacant, events, hec, hst, hvacant, hevents⟩ := h.standing hcall
  cases callStep_does hstep with
  | decided op =>
    cases hst
    exact h.goto (by rw [hcall]; simp) (by rw [hcall]; rfl) (by rw [hcall]; rfl) hec
      ⟨false, [], .lockLifecycle op, by simp, hevents⟩ (by simp [Call.assigned])
  | acquire op hfree => exact h.acquire hcall hfree
  | refuse callback => exact h.refuse hcall
  | notRunning callback =>
    cases hst
    exact h.goto (by rw [hcall]; simp) (by rw [hcall]; rfl) (by rw [hcall]; rfl) hec
      ⟨false, [], .callStop _, by simp, hevents⟩ (by simp [Call.assigned])
  | stop op he =>
    cases hst
    exact h.enter (e := .stop) (by rw [hcall]; simp) (by rw [hcall]; rfl) (by rw [hcall]; rfl)
      ⟨false, [], .stopping op .isCurrentThread, by simp, hevents⟩ (by simp [Call.assigned]) he
  | stopped op hnone =>
    rw [hec] at hnone
    subst hnone
    cases hst with
    | stopping _ hc => cases hc
    | stopped =>
      refine h.goto (by rw [hcall]; simp) (by rw [hcall]; cases op <;> rfl)
        (by rw [hcall]; cases op <;> rfl) hec ⟨true, [], ?_, hvacant, ?_⟩ ?_
      · cases op with
        | start callback => exact .assign callback
        | stop => exact .unlockStop
      · cases op <;> exact hevents
      · cases op <;> simp [Operation.stopped, Call.assigned]
  | assign callback => exact h.assign hcall
  | start callback he =>
    cases hst
    exact h.enter (e := .start ()) (by rw [hcall]; simp) (by rw [hcall]; rfl) (by rw [hcall]; rfl)
      ⟨true, _, .before callback (.lockLifecycle ()), hvacant, hevents⟩
      (fun callback' hcb => h.assigned th callback' (by rw [hcall]; exact hcb)) he
  | started callback result hnone =>
    rw [hec] at hnone
    subst hnone
    cases hst with
    | before _ hc => cases hc
    | after _ hc => cases hc
    | started =>
      exact h.goto (by rw [hcall]; simp) (by rw [hcall]; rfl) (by rw [hcall]; rfl) hec
        ⟨false, _, .unlock callback result, by simp, hevents⟩ (by simp [Call.assigned])
  | leave op result => exact h.leave hcall

end Resume

end CWrapper.AsyncThread
