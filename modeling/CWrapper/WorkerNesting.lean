import CWrapper.WorkerStop

/-!
What run() may call on the worker thread. A thread in taskEntry is in run() whenever it is in
another function, and in none that takes mLifecycleLock: stop() and join() find out that it is the
worker thread.
-/
namespace CWrapper.WorkerThread

open Transition

variable {W Th : Type}

def State.runObeys (s : State W Th) : Action W Th → Bool
  | .call th (.start _) => (s.task th).isNone
  | _ => true

def Call.byRun : Call W Th → Bool
  | .isCurrentThread .stop | .isCurrentThread .join | .requestStop .user | .msleep _ => true
  | .onStopRequested (.requestStop .user) _ _ => true
  | _ => false

def Nests : Task W → Call W Th → Bool
  | .none, _ | _, .none => true
  | .run _, c => c.byRun
  | _, _ => false

variable {s s' : State W Th} {th : Th}

/-- A thread in taskEntry is in no other function, but for what run() calls. -/
def State.Nested (s : State W Th) : Prop := ∀ th, Nests (s.task th) (s.call th) = true

section Nesting

variable {c c' : Call W Th} {t : Task W} {w : W} {answer : Answer Th} {e : Event W Th}

theorem nests_none (c : Call W Th) : Nests (.none : Task W) c = true := by
  cases c <;> rfl

theorem nests_outside (t : Task W) : Nests t (.none : Call W Th) = true := by
  cases t <;> rfl

/-- Which task a thread has that is in a function. -/
theorem task_of_nests (h : Nests t c = true) (hc : c.isNone = false) :
    t = .none ∨ (∃ w, t = .run w) ∧ c.byRun = true := by
  cases t with
  | none => exact Or.inl rfl
  | run w =>
    refine Or.inr ⟨⟨w, rfl⟩, ?_⟩
    cases c with
    | none => cases hc
    | _ => exact h
  | entry | await | released | exit | exited =>
    cases c with
    | none => cases hc
    | _ => cases h

/-- What run() has called leads to its own points, or back to run(). -/
theorem nests_next (h : Nests t c = true) (hc : c.isNone = false)
    (hnext : c.byRun = true → c' = .none ∨ c'.byRun = true) : Nests t c' = true := by
  obtain rfl | ⟨⟨w, rfl⟩, hrun⟩ := task_of_nests h hc
  · exact nests_none c'
  · obtain rfl | hrun' := hnext hrun
    · rfl
    · cases c' <;> first | rfl | exact hrun'

theorem nests_request {k : Requester} (h : Nests t (.requestStop k : Call W Th) = true) :
    Nests t (k.back : Call W Th) = true ∧
      ∀ w, Nests t (.onStopRequested (.requestStop k) w .enter : Call W Th) = true := by
  cases k with
  | user => exact ⟨nests_outside _, fun w => nests_next h rfl fun _ => Or.inr rfl⟩
  | stop =>
    have hother (c : Call W Th) : Nests t c = true := nests_next h rfl (by nofun)
    exact ⟨hother _, fun w => hother _⟩

theorem Logs.byRun (h : Logs answer c e c') (hrun : c.byRun = true) : c'.byRun = true := by
  cases h with
  | stopBegin k w | stopEnd k w => rcases k with _ | _ | _ <;> first | rfl | cases hrun
  | attrInitFailed | prepareBegin | prepared | prepareFailed | createFailed | failedBegin
  | failedEnd | cleanupBegin | cleanupEnd => cases hrun

theorem Notifier.back_byRun (k : Notifier)
    (hrun : (.onStopRequested k w .leave : Call W Th).byRun = true) :
    (k.back : Call W Th) = .none := by
  rcases k with _ | _ | _ <;> first | rfl | cases hrun

theorem Resets.outside_run (h : Resets c c') : c.isNone = false ∧ c.byRun = false := by
  cases h <;> exact ⟨rfl, rfl⟩

variable [DecidableEq Th]

theorem State.Nested.goto (h : s.Nested) (hc : Nests (s.task th) c = true) :
    (s.goto th c).Nested := by
  intro th'
  by_cases heq : th' = th
  · subst heq
    simpa [State.goto] using hc
  · simpa [State.goto, Function.update_of_ne heq] using h th'

theorem State.Nested.gotoTask (h : s.Nested) (ht : Nests t (s.call th) = true) :
    (s.gotoTask th t).Nested := by
  intro th'
  by_cases heq : th' = th
  · subst heq
    simpa [State.gotoTask] using ht
  · simpa [State.gotoTask, Function.update_of_ne heq] using h th'

theorem State.Nested.create (h : s.Nested) (hcall : s.call th = .start w (.prepare .create))
    {id : Th} (hid : s.call id = .none) (hc : Nests (s.task th) c = true) :
    (((s.emit (.created id)).gotoTask id .entry).goto th c).Nested := by
  have hne : th ≠ id := by
    rintro rfl
    rw [hcall] at hid
    cases hid
  have hcreated : ((s.emit (.created id)).gotoTask id .entry).Nested :=
    State.Nested.gotoTask h (by
      show Nests .entry (s.call id) = true
      rw [hid]
      rfl)
  refine hcreated.goto ?_
  show Nests (Function.update s.task id .entry th) c = true
  rwa [Function.update_of_ne hne]

/-- A thread that is joined may have any call. -/
theorem State.Nested.join (h : s.Nested) {id : Th} (hc : Nests (s.task th) c = true) :
    ((s.gotoTask id .none).goto th c).Nested := by
  have hjoined : (s.gotoTask id .none).Nested := h.gotoTask (nests_none _)
  refine hjoined.goto ?_
  by_cases heq : th = id
  · simp [State.gotoTask, heq, nests_none]
  · simpa [State.gotoTask, Function.update_of_ne heq] using hc

theorem State.Nested.notify (h : s.Nested) {k : Notifier}
    (hback : Nests (s.task th) (k.back : Call W Th) = true)
    (hcallback : ∀ w, Nests (s.task th) (.onStopRequested k w .enter : Call W Th) = true) :
    (s.notify th k).Nested := by
  unfold State.notify
  split
  · exact State.Nested.goto h (hcallback _)
  · exact State.Nested.goto h hback

theorem State.Nested.awaitRelease (h : s.Nested) (hcall : s.call th = .none) :
    (awaitRelease s th).Nested := by
  have hgoto (t : Task W) : (s.gotoTask th t).Nested :=
    h.gotoTask (by rw [hcall]; exact nests_outside t)
  unfold WorkerThread.awaitRelease
  split <;> exact hgoto _

/-- On the worker thread stop() and join() do not take mLifecycleLock. -/
theorem Leads.nests (h : Leads s th answer c c') (hnests : Nests (s.task th) c = true)
    (hcurrent : ∀ w, s.task th = .run w → s.isCurrentThread th = true) :
    Nests (s.task th) c' = true := by
  cases h with
  | isCurrentThread op =>
    obtain hth | ⟨⟨w, hth⟩, hrun⟩ := task_of_nests hnests rfl
    · rw [hth]
      exact nests_none _
    · rw [hcurrent w hth, hth]
      cases op with
      | start w => cases hrun
      | stop | join => rfl
  | request k _ =>
    refine nests_next hnests rfl fun hrun => ?_
    cases k with
    | user => exact Or.inl rfl
    | stop => cases hrun
  | msleep _ => exact nests_outside _
  | load | claim | attrInit | readNone | read | joinFails | noWorker =>
    exact nests_next hnests rfl fun hrun => by cases hrun

theorem State.Nested.callDoes {c₀ : Call W Th} (h : s.Nested)
    (hcurrent : ∀ w, s.task th = .run w → s.isCurrentThread th = true) (hcall : s.call th = c₀)
    (hdoes : CallDoes s th answer c₀ s') : s'.Nested := by
  have hnests : Nests (s.task th) c₀ = true := hcall ▸ h th
  -- where run() does not lead, the thread is outside taskEntry
  have hother {c : Call W Th} (hc : c₀.isNone = false) (hrun : c₀.byRun = false) :
      Nests (s.task th) c = true :=
    nests_next hnests hc fun htrue => by rw [hrun] at htrue; cases htrue
  cases hdoes with
  | goes hleads => exact h.goto (hleads.nests hnests hcurrent)
  | logs hlogs =>
    exact State.Nested.goto h
      (nests_next hnests hlogs.isNone fun hrun => Or.inr (hlogs.byRun hrun))
  | resets hresets =>
    exact State.Nested.goto h (hother hresets.outside_run.1 hresets.outside_run.2)
  | create w id _ hid _ => exact h.create hcall hid (hother rfl rfl)
  | join op id _ _ => exact h.join (hother rfl rfl)
  | handshakeStop =>
    apply State.Nested.notify
    · exact h
    · exact hother rfl rfl
    · exact fun _ => hother rfl rfl
  | request k _ => exact State.Nested.goto h (nests_request hnests).1
  | stop k _ =>
    apply State.Nested.notify
    · exact h
    · exact (nests_request hnests).1
    · exact (nests_request hnests).2
  | delivered k w =>
    exact State.Nested.goto h (nests_next hnests rfl fun hrun => Or.inl (k.back_byRun hrun))
  | sleepBlock pt _ _ =>
    exact State.Nested.goto h (nests_next hnests rfl fun _ => Or.inr rfl)
  | release | sleepEnd => exact State.Nested.goto h (nests_outside _)
  | acquire | claim | handshakeBlock | handshakeRun | joinBlock | take =>
    exact State.Nested.goto h (hother rfl rfl)

theorem State.Nested.taskDoes (h : s.Nested) (hcall : s.call th = .none)
    (hdoes : TaskDoes s th t s') : s'.Nested := by
  have hgoto (t' : Task W) : Nests t' (s.call th) = true := by
    rw [hcall]
    exact nests_outside t'
  cases hdoes with
  | entry => exact State.Nested.awaitRelease h hcall
  | await => exact h.awaitRelease hcall
  | skip | run | exit => exact State.Nested.gotoTask h (hgoto _)

variable [DecidableEq W] {p : Phase W Th}

/-- run() is the worker thread's own. -/
theorem Fits.isCurrentThread (h : Fits s p) (hth : s.task th = .run w) :
    s.isCurrentThread th = true := by
  obtain ⟨w', h', stored, rfl⟩ | ⟨w', stop, rfl⟩ := h.inTask hth nofun
  · obtain ⟨-, -, ⟨hr, -⟩ | ⟨hr, -⟩⟩ := h.handshake <;> cases hr
  · rw [State.isCurrentThread, h.state, h.handshake.2.1]
    cases stop <;> simp [Phase.state]

theorem State.Nested.does (h : s.Nested) (hfits : Fits s p) (hdoes : Does s th answer s') :
    s'.Nested := by
  cases hdoes with
  | call hcall hdoes => exact h.callDoes (fun w => hfits.isCurrentThread) hcall hdoes
  | task hcall _ hdoes => exact h.taskDoes hcall hdoes

/-- When run() does not call start(), a step leaves the worker thread in a function that run() may
call. -/
theorem State.Nested.step (h : s.Nested) (hfits : Fits s p) (hwaits : Waits s) {a : Action W Th}
    (hok : s.runObeys a = true) (hmoves : Moves s a s') : s'.Nested := by
  cases hmoves with
  | @call th e _ hmay =>
    refine h.goto ?_
    cases hth : s.task th with
    | none => exact nests_none _
    | run w =>
      cases e with
      | start w' =>
        simp [State.runObeys, hth, Task.isNone] at hok
      | stop | requestStop | join | msleep => rfl
    | entry | await | released | exit | exited =>
      rw [hth] at hmay
      cases hmay
  | lock _ _ _ | wakeup => exact h
  | inside _ _ hdoes =>
    have hfits' := hfits.waits none s.mStateCv s.mSleepCv s.mStopRequested s.mWakeupRequested
    exact State.Nested.does (s := { s with mStateLock := none }) h hfits' hdoes
  | outside _ hdoes => exact h.does hfits hdoes
  | @expire th hasleep =>
    have hnests := h th
    rw [(hwaits.sleep th hasleep).1] at hnests
    exact State.Nested.goto h (nests_next hnests rfl fun _ => Or.inr rfl)

/-- In a run in which run() never calls start(), a thread in taskEntry is in no function but those
that run() may call. -/
theorem nested_of_reachable
    (hs : (machine W Th).Reachable (fun s a => s.runObeys a = true) s) : s.Nested := by
  refine Machine.Invariant.reachable (J := fun s => (∃ p, Fits s p) ∧ Waits s)
    (I := State.Nested) ⟨?_, ?_⟩ (fun s => fits_and_waits) hs
  · rintro _ rfl th
    rfl
  · rintro s a s' hok ⟨⟨p, hfits⟩, hwaits⟩ hstep hnested
    exact hnested.step hfits hwaits hok (step_moves hstep)

end Nesting

end CWrapper.WorkerThread
