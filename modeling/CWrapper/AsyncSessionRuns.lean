import CWrapper.AsyncSessions

/-!
Every step keeps the sessions: the steps of run(), those of taskEntry, pthread_create, pthread_join,
and the others.
-/
namespace CWrapper.AsyncThread

open Transition WorkerThread

variable {K Th : Type} [DecidableEq Th] {s s' : State K Th} {th t : Th} {p : Phase Unit Th}
  {e : WorkerThread.State Unit Th} {answer : Answer Th} {callback : Callable K}

section Steps

/-- At most one thread is in taskEntry, and it serves its session. -/
theorem Sessions.serving (h : Sessions s) (hfits : Fits s.mThreadEngine p)
    (ht : s.mThreadEngine.task t ≠ .none) :
    (∃ callback, Serves s t callback) ∧ ∀ u, s.mThreadEngine.task u ≠ .none → u = t :=
  ⟨h.serves t ht, fun _ hu => hfits.one_task hu ht⟩

/-- A step of run() goes on with the session whose thread takes it. -/
theorem Sessions.runStep (h : Sessions s) (hfits : Fits s.mThreadEngine p)
    (hstep : runStep s t (s.run t) = some s') : Sessions s' := by
  have hbusy : s.mThreadEngine.task t ≠ .none := by
    intro hnone
    rw [h.outside t hnone] at hstep
    cases hstep
  obtain ⟨⟨callback, hserves⟩, hone⟩ := h.serving hfits hbusy
  have htask : s.mThreadEngine.task =
      Function.update s.mThreadEngine.task t (s.mThreadEngine.task t) :=
    (Function.update_eq_self ..).symm
  have hrunning := hserves.running
  generalize hpt : s.run t = pt at hstep hrunning
  generalize hlog : sessionLog callback.id s.log = events at hrunning
  generalize hr : s.mThreadEngine.task t = r at hrunning htask
  cases pt with
  | outside | leave => cases hstep
  | test =>
    obtain rfl := Option.some.inj hstep
    have hbool : s.mWorkerTask.toBool = true := by
      rw [FixedFunction.toBool_iff, hserves.stored]
      simp
    rw [hbool, if_pos rfl]
    refine h.move hserves hone (fun _ _ r hc => ⟨r, hc⟩) htask rfl rfl rfl
      (List.append_nil _).symm (by simp) ?_
    rw [List.append_nil, hlog]
    cases hrunning with
    | test w => exact .invoke w
  | invoke =>
    obtain rfl := Option.some.inj hstep
    have hinvoke : s.mWorkerTask.invoke = [callback] := by
      rw [FixedFunction.invoke_eq, hserves.stored]
      rfl
    refine h.move hserves hone (fun _ _ r hc => ⟨r, hc⟩) htask rfl rfl rfl rfl ?_ ?_
    · simp [Event.session, hserves.session]
    · rw [hinvoke, hserves.session, hlog]
      cases hrunning with
      | invoke w => exact .inside w
  | inside =>
    simp only [AsyncThread.runStep] at hstep
    split at hstep
    · obtain rfl := Option.some.inj hstep
      refine h.move hserves hone (fun _ _ r hc => ⟨r, hc⟩) htask rfl rfl rfl
        (List.append_nil _).symm (by simp) ?_
      rw [List.append_nil, hlog]
      cases hrunning with
      | inside w => exact .leave w
    · cases hstep

/-- The worker thread goes on in taskEntry. -/
theorem Sessions.taskStep (h : Sessions s) (hfits : Fits s.mThreadEngine p)
    (hec : s.mThreadEngine.call t = .none) (hadmits : s.admits (.resume t answer) = true)
    (he : WorkerThread.step s.mThreadEngine (.resume t answer) = some e) :
    Sessions ({ s with mThreadEngine := e }.turn t (s.mThreadEngine.task t)) := by
  obtain ⟨r', hcalls, htasks, hmoves⟩ := hfits.task_moves hec he
  obtain ⟨⟨callback, hserves⟩, hone⟩ := h.serving hfits hmoves.ne_none
  have hleave : s.run t = .outside ∨ s.run t = .leave := by
    simpa [State.admits, hec] using hadmits
  have hrunning := hserves.running
  have hrunSame : s.run = Function.update s.run t (s.run t) := (Function.update_eq_self ..).symm
  generalize hpt : s.run t = pt at hrunning hrunSame hleave
  generalize hlog : sessionLog callback.id s.log = events at hrunning
  generalize hr : s.mThreadEngine.task t = r at hrunning hmoves
  have hstay (hrunning' : Running callback r' pt events) :
      Sessions { s with mThreadEngine := e } := by
    refine h.move hserves hone (fun _ _ r hc => ⟨r, hc⟩) htasks hrunSame rfl rfl
      (List.append_nil _).symm (by simp) ?_
    rw [List.append_nil, hlog]
    exact hrunning'
  cases hmoves with
  | await ht =>
    obtain rfl | rfl := ht
    · cases hrunning with
      | entry => exact hstay .await
    · cases hrunning with
      | await => exact hstay .await
  | release ht w =>
    obtain rfl | rfl := ht
    · cases hrunning with
      | entry => exact hstay (.released w)
    · cases hrunning with
      | await => exact hstay (.released w)
  | enter w =>
    refine h.move hserves hone (fun _ _ r hc => ⟨r, hc⟩) htasks rfl rfl rfl
      (List.append_nil _).symm (by simp) ?_
    rw [List.append_nil, hlog]
    cases hrunning with
    | released => exact .test w
  | leave w =>
    refine h.move hserves hone (fun _ _ r hc => ⟨r, hc⟩) htasks rfl rfl rfl rfl
      (by simp [Event.session, hserves.session]) ?_
    rw [hserves.session, hlog]
    cases hrunning with
    | leave => exact .exit
    | test | invoke | inside => simp at hleave
  | exit =>
    cases hrunning with
    | exit => exact hstay .exited

/-- While a thread goes on, nobody comes to be in mThreadEngine.start(). -/
theorem Call.GoesOn.starting {c : Call K} (hon : (s.call th).GoesOn c) {u : Th} {result : Bool}
    (hu : (s.goto th c).call u = .starting callback result) :
    ∃ result', s.call u = .starting callback result' := by
  by_cases heq : u = th
  · subst heq
    obtain rfl : c = .starting callback result := by
      rw [← hu]
      exact (Function.update_self u c s.call).symm
    generalize s.call u = c at hon ⊢
    cases hon with
    | stay => exact ⟨result, rfl⟩
    | ended _ result => exact ⟨result, rfl⟩
  · refine ⟨result, ?_⟩
    rw [← hu]
    exact (Function.update_of_ne heq c s.call).symm

/-- A thread that goes on inside mThreadEngine may create a session, enter run() or leave it. -/
theorem Sessions.resume (h : Sessions s) (horderly : Orderly s) (hfits : Fits s.mThreadEngine p)
    (hadmits : s.admits (.resume th answer) = true)
    (he : WorkerThread.step s.mThreadEngine (.resume th answer) = some e) :
    Sessions (s.observe { s with mThreadEngine := e } (.resume th answer)) := by
  have hmoves := horderly.resume_moves hfits hadmits he
  generalize s.observe { s with mThreadEngine := e } (.resume th answer) = s' at hmoves ⊢
  cases hmoves with
  | task hcall hec => exact h.taskStep hfits hec hadmits he
  | goes hgoes hon =>
    exact h.other (fun _ _ _ hu => Or.inl (hon.starting hu)) hgoes.task rfl rfl (Or.inl rfl)
      (List.append_nil _).symm (by simp)
  | joined hcall hexited hcalls htasks =>
    exact h.join hexited (fun u hu => hfits.one_task hu (by rw [hexited]; simp)) htasks rfl rfl
  | @created callback id hcall hnobody hhistory hid hcalls htasks =>
    have hnil : sessionLog callback.id s.log = [] := by
      refine h.unused_of hnobody fun callback' hcreated hid => ?_
      have hmem : .created callback' ∈ history callback.id s.log :=
        (mem_about _ _).mpr ⟨hcreated, congrArg some hid⟩
      rw [hhistory] at hmem
      simp at hmem
    refine h.create hnobody (horderly.assigned th callback (by rw [hcall]; rfl)) hnil
      (fun u callback' result hu => ?_) htasks rfl rfl rfl rfl
    have hu' : s.call u = .starting callback' result := hu
    obtain rfl := horderly.holder (by rw [hcall]; rfl) (by rw [hu']; rfl)
    rw [hcall] at hu'
    cases hu'
    rfl

/-- Every step of mThreadEngine keeps the log of the sessions in order. -/
theorem Sessions.engine (h : Sessions s) (horderly : Orderly s) (hfits : Fits s.mThreadEngine p)
    {a : WorkerThread.Action Unit Th} (hadmits : s.admits a = true)
    (he : WorkerThread.step s.mThreadEngine a = some e) :
    Sessions (s.observe { s with mThreadEngine := e } a) := by
  have hother (htask : e.task = s.mThreadEngine.task) : Sessions { s with mThreadEngine := e } :=
    h.other (fun _ _ result hu => Or.inl ⟨result, hu⟩) htask rfl rfl (Or.inl rfl)
      (List.append_nil _).symm (by simp)
  have hmoves := WorkerThread.step_moves he
  cases a with
  | resume th answer => exact h.resume horderly hfits hadmits he
  | call | lock | wakeup | expire =>
    cases hmoves
    exact hother rfl

/-- One step keeps each session at one of its stages. -/
theorem Sessions.step (h : Sessions s) (horderly : Orderly s) (hfits : Fits s.mThreadEngine p)
    {a : Action K Th} (hstep : step s a = some s') : Sessions s' := by
  cases step_moves hstep with
  | start | stop =>
    exact h.other (starting_of_update (fun _ => _) rfl (by simp)) rfl rfl rfl (Or.inl rfl)
      (List.append_nil _).symm (by simp)
  | resume hstep =>
    obtain ⟨hrun, hsession, hengine, hstore, ⟨new, hlog, hnew⟩, hstarting⟩ := callStep_moves hstep
    have htask : s'.mThreadEngine.task = s.mThreadEngine.task := by
      obtain hsame | ⟨entry, he⟩ := hengine
      · rw [hsame]
      · generalize s'.mThreadEngine = e at he ⊢
        cases WorkerThread.step_moves he
        rfl
    refine h.other (fun u callback result hu => ?_) htask hrun hsession ?_ hlog hnew
    · obtain hstays | hcall := hstarting u callback result hu
      · exact Or.inl hstays
      · obtain ⟨ec, vacant, events, -, hst, hvacant, -⟩ := horderly.standing hcall
        cases hst
        exact Or.inr (hvacant rfl)
    obtain hkept | ⟨callback, hcall⟩ := hstore
    · exact Or.inl hkept
    · obtain ⟨ec, vacant, events, -, hst, hvacant, -⟩ := horderly.standing hcall
      cases hst
      exact Or.inr (hvacant rfl)
  | run hstep => exact h.runStep hfits hstep
  | engine hadmits he => exact h.engine horderly hfits hadmits he

/-- Every session has not been created, is served by one thread with the callback of its start(), or
has ended. -/
theorem sessions_reachable (hs : (machine K Th).Reachable Machine.anyStep s) : Sessions s := by
  refine Machine.Invariant.reachable
    (J := fun s : State K Th => Orderly s ∧ ∃ p, Fits s.mThreadEngine p) (I := Sessions) ⟨?_, ?_⟩
    (fun s hs => ⟨orderly_reachable hs, (fits_and_waits_engine hs).1⟩) hs
  · intro s hinit
    obtain rfl : s = start := hinit
    exact sessions_start
  · intro s a s' _ hengine hstep hsessions
    obtain ⟨horderly, p, hfits⟩ := hengine
    exact hsessions.step horderly hfits hstep

end Steps

end CWrapper.AsyncThread
