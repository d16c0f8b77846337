import CWrapper.AsyncSteps

/-!
The steps of mThreadEngine keep the threads in order: it runs as a WorkerThread does, start() and
stop() go through its functions, and all other threads are outside them or asleep in msleep().
-/
namespace CWrapper.AsyncThread

open Transition WorkerThread

variable {K Th : Type} {s s' : State K Th} {th : Th} {c : Call K} {ec : WorkerThread.Call Unit Th}
  {e : WorkerThread.State Unit Th} {answer : Answer Th}

theorem Orderly.same (h : Orderly s) (hcall : e.call = s.mThreadEngine.call)
    (htask : e.task = s.mThreadEngine.task) : Orderly { s with mThreadEngine := e } where
  lifecycle := h.lifecycle
  outside u hu := by
    rw [htask]
    exact h.outside u hu
  stands u := by
    obtain ⟨vacant, events, hst, hvacant, hevents⟩ := h.stands u
    refine ⟨vacant, events, hcall ▸ hst, fun hv t => ?_, hevents⟩
    rw [htask]
    exact hvacant hv t
  assigned := h.assigned
  number := h.number
  distinct := h.distinct
  closed := h.closed

theorem creates_of_inStop (hec : InStop ec) : ec.creates answer = none := by
  cases hec <;> rfl

theorem creates_of_after (hec : AfterCreate ec) : ec.creates answer = none := by
  cases hec <;> rfl

theorem succeeds_of_before (hec : BeforeCreate ec) : ec.succeeds = false := by
  cases hec <;> rfl

theorem finish_of_starting {callback : Callable K} {result : Bool} [DecidableEq Th]
    (hcall : s.call th = .starting callback result) (hec : s.mThreadEngine.call th = .unlock) :
    s.finish th ec = s.goto th (.starting callback ec.succeeds) := by
  rw [State.finish, hcall, hec]

theorem finish_of_ne_unlock [DecidableEq Th] (hec : s.mThreadEngine.call th ≠ .unlock) :
    s.finish th ec = s := by
  unfold State.finish
  split
  · rename_i hunlock
    exact absurd hunlock hec
  · rfl

theorem finish_of_ne_starting [DecidableEq Th]
    (hcall : ∀ callback result, s.call th ≠ .starting callback result) :
    s.finish th ec = s := by
  unfold State.finish
  split
  · rename_i hstarting _
    exact absurd hstarting (hcall _ _)
  · rfl

variable [DecidableEq Th]

/-- A thread goes on in mThreadEngine, at a point of the same call. -/
theorem Orderly.engineMove (h : Orderly s) (hgoes : Goes s.mThreadEngine e th ec)
    (hcall : s.call th = c) {c' : Call K}
    (hcallback : c'.callback = c.callback) (hholds : c'.holds = c.holds)
    (hassigned : c'.assigned = c.assigned) (hc' : c' = .none ↔ c = .none)
    (hstands : Standing s c' ec) :
    Orderly ({ s with mThreadEngine := e }.goto th c') := by
  obtain ⟨vacant, events, hst, hvacant, hevents⟩ := hstands
  have hlock := h.lifecycle th
  rw [hcall, ← hholds] at hlock
  refine h.move _ _ [] rfl hgoes.call (fun _ _ => Iff.rfl) hlock (by rw [hcall, hcallback])
    (fun hne => ?_) (fun u _ hu => ?_) (fun _ hs => hgoes.nobody hs)
    ⟨vacant, events, hst, fun hv => hgoes.nobody (hvacant hv), hevents⟩
    (fun callback hcb => ?_) (fun _ => rfl) rfl (List.append_nil _).symm (by simp)
  · show e.task th = .none
    rw [hgoes.task]
    exact h.outside th fun heq => hne (hc'.mpr (hcall ▸ heq))
  · show e.task u = .none
    rw [hgoes.task, hu]
  · rw [hassigned, ← hcall] at hcb
    exact h.assigned th callback hcb

theorem goto_self (hcall : s.call th = c) : s.goto th c = s := by
  rw [State.goto, ← hcall, Function.update_eq_self]

/-- A thread that goes on inside mThreadEngine may stand in its call as before. -/
theorem Orderly.engineStay (h : Orderly s) (hgoes : Goes s.mThreadEngine e th ec)
    (hcall : s.call th = c) (hstands : Standing s c ec) :
    Orderly { s with mThreadEngine := e } := by
  have hmoved := h.engineMove hgoes hcall rfl rfl rfl Iff.rfl hstands
  rwa [goto_self (by exact hcall)] at hmoved

section Resume

variable {p : Phase Unit Th}

/-- A step of a thread in a function of mThreadEngine, other than pthread_create. -/
theorem observe_resume (hec : s.mThreadEngine.call th = ec) (hcreates : ec.creates answer = none)
    (hnone : ec.isNone = false) :
    s.observe s' (.resume th answer) = s'.finish th ec := by
  simp [State.observe, hec, hcreates, hnone]

/-- Nobody who is in a call of AsyncThread is in taskEntry. -/
theorem not_resume (h : Orderly s) (hne : s.call th ≠ .none)
    (hec : s.mThreadEngine.call th = .none) :
    WorkerThread.step s.mThreadEngine (.resume th answer) = none := by
  cases he : WorkerThread.step s.mThreadEngine (.resume th answer) with
  | none => rfl
  | some e =>
    obtain ⟨lock, htask⟩ := taskStep_of_resume he hec
    rw [h.outside th hne] at htask
    cases htask

/-- The worker thread goes on in taskEntry. -/
theorem Orderly.taskStep (h : Orderly s) (hfits : Fits s.mThreadEngine p)
    (hcall : s.call th = .none) (hec : s.mThreadEngine.call th = .none)
    (he : WorkerThread.step s.mThreadEngine (.resume th answer) = some e) :
    Orderly ({ s with mThreadEngine := e }.turn th (s.mThreadEngine.task th)) := by
  obtain ⟨t, hcalls, htasks, hmoves⟩ := hfits.task_moves hec he
  obtain ⟨new, run, hturn, hnew⟩ : ∃ new run,
      { s with mThreadEngine := e }.turn th (s.mThreadEngine.task th) =
        { s with mThreadEngine := e, log := s.log ++ new, run := run } ∧
      ∀ e ∈ new, ∀ n, e.call ≠ some n := by
    unfold State.turn
    split
    · exact ⟨[], _, by rw [List.append_nil]; rfl, by simp⟩
    · exact ⟨[.left (s.session th)], _, rfl, by simp [Event.call]⟩
    · exact ⟨[], s.run, by rw [List.append_nil], by simp⟩
  have hlock := h.lifecycle th
  rw [hcall] at hlock
  rw [hturn]
  refine h.move .none .none new ?_ ?_ (fun _ _ => Iff.rfl) hlock
    (by rw [hcall]) (fun hne => absurd rfl hne) (fun u hu htask => ?_) (fun _ hs => ?_)
    ⟨false, [], .outside, by simp, by simp [Call.callback]⟩ (by simp [Call.assigned])
    (fun _ => rfl) rfl rfl (fun e he n hn => absurd hn (hnew e he n))
  · rw [← hcall, Function.update_eq_self]
  · show e.call = _
    rw [hcalls]
    exact call_same hec
  · show e.task u = .none
    have hne : u ≠ th := by
      intro heq
      exact hu (heq ▸ hcall)
    rw [htasks, Function.update_of_ne hne, htask]
  · exact absurd (hs th) hmoves.ne_none

/-- The thread of a session is created. -/
theorem Orderly.created (h : Orderly s) {callback : Callable K}
    (hcall : s.call th = .starting callback false)
    (hassigned : history callback.id s.log = [.assigned callback]) {id : Th} {session : Th → ℕ}
    (hid : s.call id = .none)
    (hcalls : e.call = Function.update s.mThreadEngine.call th (.start () (.handshake (some id))))
    (htasks : e.task = Function.update s.mThreadEngine.task id .entry) :
    Orderly ({ s with mThreadEngine := e, session := session }.emit (.created callback)) := by
  have hne : th ≠ id := by
    intro heq
    rw [heq, hid] at hcall
    cases hcall
  have hout (u : Th) (hu : s.call u ≠ .none) (htask : s.mThreadEngine.task u = .none) :
      e.task u = .none := by
    have hu' : u ≠ id := fun heq => hu (by rw [heq, hid])
    rw [htasks, Function.update_of_ne hu', htask]
  have hlock := h.lifecycle th
  rw [hcall] at hlock
  refine h.move (.starting callback false) _ [.created callback] ?_ hcalls
    (fun _ _ => Iff.rfl) hlock (by rw [hcall]) (fun _ => ?_) hout (fun hfalse => ?_)
    ⟨false, _, .after callback (.handshake () (some id)), by simp, fun callback' hcb => ?_⟩
    (fun callback' hcb => h.assigned th callback' (by rw [hcall]; exact hcb)) (fun _ => rfl) rfl rfl
    (fun e he n hn => ?_)
  · show s.call = _
    rw [← hcall, Function.update_eq_self]
  · exact hout th (by rw [hcall]; simp) (h.outside th (by rw [hcall]; simp))
  · rw [hcall] at hfalse
    cases hfalse
  · obtain rfl := Option.some.inj hcb
    simp only [State.emit]
    rw [history_concat s.log rfl, hassigned]
    rfl
  · obtain rfl := List.mem_singleton.mp he
    exact ⟨callback, by rw [hcall]; rfl, Option.some.inj hn⟩

/-- pthread_join does not fail: it is called with the identity of the worker thread. -/
theorem not_join_no {op : WorkerThread.Operation Unit} {threadId : Option Th}
    (hfits : Fits s.mThreadEngine p)
    (hec : s.mThreadEngine.call th = .joinLocked op (.pthreadJoin threadId))
    (hout : s.mThreadEngine.task th = .none) : s.admits (.resume th .no) = false := by
  have hjoin := hfits.agrees.joining th threadId (by rw [hec]; rfl)
  obtain rfl | ⟨w, t, r, stop, rfl⟩ :=
    hfits.idle_or_live th (by rw [hec]; rfl) (by rw [hec]; rfl)
  · cases hjoin
  · obtain rfl : some t = threadId := Option.some.inj hjoin
    have hlive : (s.mThreadEngine.task t).isNone = false := by
      rw [hfits.task]
      obtain ⟨-, -, hr | hr | hr | hr | hr⟩ := hfits.handshake <;>
      simp [Phase.task, hr, WorkerThread.Task.isNone]
    have hne : t ≠ th := by
      intro heq
      rw [heq, hout] at hlive
      cases hlive
    simp [State.admits, hec, hlive, hne]

theorem Orderly.join_yes (h : Orderly s) (hfits : Fits s.mThreadEngine p) {op : Operation K}
    (hcall : s.call th = .stopping op) (hadmits : s.admits (.resume th answer) = true)
    (threadId : Option Th)
    (hec : s.mThreadEngine.call th = .joinLocked .stop (.pthreadJoin threadId)) :
    answer ≠ .no := by
  intro hno
  rw [hno, not_join_no hfits hec (h.outside th (by rw [hcall]; simp))] at hadmits
  cases hadmits

/-- stop() joins the worker thread. -/
theorem Orderly.joined (h : Orderly s) {op : Operation K} (hcall : s.call th = .stopping op)
    {id : Th} (hcalls : e.call = Function.update s.mThreadEngine.call th ec)
    (htasks : e.task = Function.update s.mThreadEngine.task id .none)
    (hstands : Standing s (.stopping op) ec) : Orderly { s with mThreadEngine := e } := by
  obtain ⟨vacant, events, hst, hvacant, hevents⟩ := hstands
  have hout (u : Th) (htask : s.mThreadEngine.task u = .none) : e.task u = .none := by
    rw [htasks]
    by_cases hu : u = id
    · rw [hu, Function.update_self]
    · rw [Function.update_of_ne hu, htask]
  have hlock := h.lifecycle th
  rw [hcall] at hlock
  refine h.move (.stopping op) ec [] ?_ hcalls (fun _ _ => Iff.rfl) hlock (by rw [hcall])
    (fun _ => hout th (h.outside th (by rw [hcall]; simp))) (fun u _ hu => hout u hu)
    (fun _ hs t => hout t (hs t)) ⟨vacant, events, hst, fun hv t => hout t (hvacant hv t), hevents⟩
    (by simp [Call.assigned]) (fun _ => rfl) rfl (List.append_nil _).symm (by simp)
  show s.call = _
  rw [← hcall, Function.update_eq_self]

/-- The point of a call stays while mThreadEngine goes on, until mThreadEngine.start() comes to its
end with a result. -/
inductive Call.GoesOn : Call K → Call K → Prop
  | stay (c : Call K) : GoesOn c c
  | ended (callback : Callable K) (result result' : Bool) :
      GoesOn (.starting callback result) (.starting callback result')

/-- What a step of a thread in mThreadEngine means for the AsyncThread. -/
inductive ResumeMoves (s : State K Th) (e : WorkerThread.State Unit Th) (th : Th) :
    State K Th → Prop
  | task (hcall : s.call th = .none) (hec : s.mThreadEngine.call th = .none) :
      ResumeMoves s e th ({ s with mThreadEngine := e }.turn th (s.mThreadEngine.task th))
  | goes {c : Call K} {ec : WorkerThread.Call Unit Th} (hgoes : Goes s.mThreadEngine e th ec)
      (hon : (s.call th).GoesOn c) (hstands : Standing s c ec) :
      ResumeMoves s e th ({ s with mThreadEngine := e }.goto th c)
  | joined {op : Operation K} {id : Th} {ec : WorkerThread.Call Unit Th}
      (hcall : s.call th = .stopping op) (hexited : s.mThreadEngine.task id = .exited)
      (hcalls : e.call = Function.update s.mThreadEngine.call th ec)
      (htasks : e.task = Function.update s.mThreadEngine.task id .none)
      (hstands : Standing s (.stopping op) ec) : ResumeMoves s e th { s with mThreadEngine := e }
  | created {callback : Callable K} {id : Th} (hcall : s.call th = .starting callback false)
      (hnobody : s.mThreadEngine.nobody)
      (hhistory : history callback.id s.log = [.assigned callback]) (hid : s.call id = .none)
      (hcalls : e.call =
        Function.update s.mThreadEngine.call th (.start () (.handshake (some id))))
      (htasks : e.task = Function.update s.mThreadEngine.task id .entry) :
      ResumeMoves s e th ({ s with
        mThreadEngine := e, session := Function.update s.session id callback.id }.emit
          (.created callback))

theorem ResumeMoves.stay (hcall : s.call th = c) (hgoes : Goes s.mThreadEngine e th ec)
    (hstands : Standing s c ec) : ResumeMoves s e th { s with mThreadEngine := e } := by
  have hmoves := ResumeMoves.goes hgoes (hcall ▸ .stay c) hstands
  rwa [goto_self (by exact hcall)] at hmoves

/-- start() goes on in mThreadEngine.start(), or comes to its end there. -/
theorem ResumeMoves.starting {callback : Callable K} {result : Bool}
    (hcall : s.call th = .starting callback result) {last : WorkerThread.Call Unit Th}
    (ec : WorkerThread.Call Unit Th) (hgoes : Goes s.mThreadEngine e th ec)
    (hstay : ec ≠ .unlock → Standing s (.starting callback result) ec)
    (hend : ec = .unlock →
      history callback.id s.log = startHistory callback last.succeeds) :
    ResumeMoves s e th ({ s with mThreadEngine := e }.finish th last) := by
  have hself : e.call th = ec := by rw [hgoes.call, Function.update_self]
  by_cases hunlock : ec = .unlock
  · subst hunlock
    rw [finish_of_starting (s := { s with mThreadEngine := e }) hcall hself]
    refine .goes hgoes (hcall ▸ .ended callback _ _)
      ⟨false, _, .startEnd callback _, by simp, fun callback' hcb => ?_⟩
    obtain rfl := Option.some.inj hcb
    exact hend rfl
  · rw [finish_of_ne_unlock (by exact hself ▸ hunlock)]
    exact .stay hcall hgoes (hstay hunlock)

/-- What a step means of a thread that is inside mThreadEngine or in taskEntry. -/
theorem Orderly.resume_moves (h : Orderly s) (hfits : Fits s.mThreadEngine p)
    (hadmits : s.admits (.resume th answer) = true)
    (he : WorkerThread.step s.mThreadEngine (.resume th answer) = some e) :
    ResumeMoves s e th (s.observe { s with mThreadEngine := e } (.resume th answer)) := by
  obtain ⟨c, hcall⟩ : ∃ c, s.call th = c := ⟨_, rfl⟩
  obtain ⟨ec, vacant, events, hec, hst, hvacant, hevents⟩ := h.standing hcall
  cases hst with
  | outside =>
    simp only [State.observe, hec, WorkerThread.Call.creates, WorkerThread.Call.isNone, if_true]
    exact .task hcall hec
  | sleeping pt =>
    obtain ⟨lock, hdoes⟩ := callDoes_of_resume he (by rw [hec]; rfl)
    rw [hec] at hdoes
    obtain ⟨ec', hgoes, hec'⟩ := hdoes.msleep
    have hstands : Stands (.none : Call K) ec' false [] := by
      obtain rfl | ⟨pt', rfl⟩ := hec'
      · exact .outside
      · exact .sleeping pt'
    rw [observe_resume hec rfl rfl, finish_of_ne_starting (by simp [hcall])]
    exact .stay hcall ⟨hgoes.call, hgoes.task⟩
      ⟨false, [], hstands, by simp, by simp [Call.callback]⟩
  | stopping op hc =>
    have hmoves := hfits.stop_moves (by rw [hec]; exact hc) (h.outside th (by rw [hcall]; simp))
      (h.join_yes hfits hcall hadmits) he
    rw [observe_resume hec (creates_of_inStop hc) hc.isNone,
      finish_of_ne_starting (by simp [hcall])]
    cases hmoves with
    | goOn hgoes hc' =>
      exact .stay hcall hgoes ⟨false, [], .stopping op hc', by simp, hevents⟩
    | joined hc' hexited hcalls htasks =>
      exact .joined hcall hexited hcalls htasks ⟨false, [], .stopping op hc', by simp, hevents⟩
    | finish hgoes hnobody =>
      exact .stay hcall hgoes ⟨true, [], .stopEnd op, fun _ => hnobody, hevents⟩
  | stopEnd op =>
    obtain ⟨lock, hstep⟩ := callStep_of_resume he (by rw [hec]; rfl)
    rw [hec] at hstep
    obtain rfl := Option.some.inj hstep
    rw [observe_resume hec rfl rfl, finish_of_ne_starting (by simp [hcall])]
    exact .stay hcall ⟨rfl, rfl⟩ ⟨true, [], .stopped op, hvacant, hevents⟩
  | before callback hc =>
    have hmoves := hfits.start_moves (by rw [hec]; exact hc) (hvacant rfl) he
    cases hmoves with
    | goOn hcreates hgoes hc' =>
      rw [hec] at hcreates
      rw [observe_resume hec hcreates hc.isNone]
      refine .starting hcall _ hgoes (fun hne => ?_) (fun _ => ?_)
      · obtain hc' | rfl | ⟨w, rfl⟩ := hc'
        · exact ⟨true, _, .before callback hc', hvacant, hevents⟩
        · exact absurd rfl hne
        · exact ⟨false, _, .failing callback false, by simp, hevents⟩
      · rw [succeeds_of_before hc]
        exact hevents callback rfl
    | created hcreates hid hcalls htasks =>
      rename_i w id
      have hidle : s.call id = .none := by
        obtain ⟨⟨w', hcreate⟩, hanswer⟩ := creates_eq_some hcreates
        simp only [State.admits, hcreate, hanswer] at hadmits
        exact call_isNone_iff.mp hadmits
      simp only [State.observe, hcreates, hcall, State.create]
      exact .created hcall (hvacant rfl) (hevents callback rfl) hidle hcalls htasks
  | failing callback inside =>
    obtain ⟨lock, hstep⟩ := callStep_of_resume he (by rw [hec]; rfl)
    rw [hec] at hstep
    rw [observe_resume hec rfl rfl]
    cases inside with
    | false =>
      obtain rfl := Option.some.inj hstep
      refine .starting hcall (.start () (.cleanup true)) ?_
        (fun _ => ⟨false, _, .failing callback true, by simp, hevents⟩) (by simp)
      exact ⟨rfl, rfl⟩
    | true =>
      obtain rfl := Option.some.inj hstep
      refine .starting hcall .unlock ?_ (by simp) (fun _ => hevents callback rfl)
      exact ⟨rfl, rfl⟩
  | after callback hc =>
    obtain ⟨ec', hgoes, hec'⟩ := afterCreate_goes (by rw [hec]; exact hc) he
    rw [observe_resume hec (creates_of_after hc) hc.isNone]
    obtain hc' | ⟨rfl, hsucceeds⟩ := hec'
    · exact .starting hcall _ hgoes (fun _ => ⟨false, _, .after callback hc', by simp, hevents⟩)
        (fun heq => by rw [heq] at hc'; cases hc')
    · rw [hec] at hsucceeds
      refine .starting hcall _ hgoes (fun hne => absurd rfl hne) (fun _ => ?_)
      rw [hsucceeds]
      exact hevents callback rfl
  | startEnd callback result =>
    obtain ⟨lock, hstep⟩ := callStep_of_resume he (by rw [hec]; rfl)
    rw [hec] at hstep
    obtain rfl := Option.some.inj hstep
    rw [observe_resume hec rfl rfl]
    refine .starting hcall .none ?_
      (fun _ => ⟨false, _, .started callback result, by simp, hevents⟩) (by simp)
    exact ⟨rfl, rfl⟩
  | isCurrentThread | lockLifecycle | shouldRun | callStop | stopped | assign | callStart | started
  | refused | unlock | unlockStop =>
    rw [not_resume h (by rw [hcall]; simp) hec] at he
    cases he

/-- The calls keep their order when a thread goes on inside mThreadEngine. -/
theorem Orderly.resume (h : Orderly s) (hfits : Fits s.mThreadEngine p)
    (hadmits : s.admits (.resume th answer) = true)
    (he : WorkerThread.step s.mThreadEngine (.resume th answer) = some e) :
    Orderly (s.observe { s with mThreadEngine := e } (.resume th answer)) := by
  have hmoves := h.resume_moves hfits hadmits he
  generalize s.observe { s with mThreadEngine := e } (.resume th answer) = s' at hmoves ⊢
  cases hmoves with
  | task hcall hec => exact h.taskStep hfits hcall hec he
  | @goes c' ec hgoes hon hstands =>
    generalize hcall : s.call th = c at hon
    cases hon with
    | stay => exact h.engineMove hgoes hcall rfl rfl rfl Iff.rfl hstands
    | ended => exact h.engineMove hgoes hcall rfl rfl rfl (by simp) hstands
  | joined hcall hexited hcalls htasks hstands => exact h.joined hcall hcalls htasks hstands
  | created hcall hnobody hhistory hid hcalls htasks =>
    exact h.created hcall hhistory hid hcalls htasks

end Resume

end CWrapper.AsyncThread
