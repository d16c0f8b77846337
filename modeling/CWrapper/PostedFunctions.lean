import CWrapper.PostQueue
import Mathlib.Algebra.BigOperators.Fin
import Mathlib.Data.List.ReduceOption
import Mathlib.Tactic.Abel

/-!
Each function that post accepts is invoked once, in the order of acceptance, and what it captured
has one owner until it is destroyed. The ring of FixedFunctions is the list of functions of
MainLoop's model.
-/
namespace CWrapper.PostQueue

open Transition

variable {K Th : Type}

section Ring

variable {q : CircularQueue (FixedFunction K) kSlots}

def functions (q : CircularQueue (FixedFunction K) kSlots) : List (Option (Callable K)) :=
  q.contents.map FixedFunction.mStorage

theorem length_functions : (functions q).length = q.mSize := by
  rw [functions, List.length_map, CircularQueue.length_contents]

/-- put appends to the list of MainLoop's model, while that has room. -/
theorem put_functions (hq : q.WellFormed) (t : FixedFunction K) :
    functions (q.put FixedFunction.moveAssign t).2 =
      if (functions q).length < MainLoop.kMaxFunctionSize then functions q ++ [t.mStorage]
      else functions q := by
  rw [length_functions, ← kSlots_eq]
  by_cases hfull : q.isFull = true
  · rw [CircularQueue.put_full hfull, if_neg]
    simpa [CircularQueue.isFull] using hfull
  · have hroom : q.isFull = false := by simpa using hfull
    rw [functions, CircularQueue.put_contents _ t hq hroom, List.map_append, List.map_singleton,
      FixedFunction.moveAssign_target, if_pos]
    · rfl
    · simpa [CircularQueue.isFull] using hroom

/-- get takes the head of the list. -/
theorem get_functions (hq : q.WellFormed) (hempty : q.isEmpty = false) :
    functions q = (q.mBuffer q.mFront).mStorage ::
      functions (q.get FixedFunction.moveAssign (some .new)).2 := by
  rw [functions, functions, CircularQueue.get_contents _ _ hq hempty,
    CircularQueue.contents_cons hempty, List.map_cons, List.tail_cons]

end Ring

/-- The function taken by runFunctions and not yet invoked. -/
def LoopPoint.taken : LoopPoint K → List (Callable K)
  | .inside _ (.test func) => func.mStorage.toList
  | _ => []

/-- The function that has been invoked in this iteration. -/
def LoopPoint.called : LoopPoint K → List (Callable K)
  | .inside _ (.call func) | .inside _ (.leave func) => func.mStorage.toList
  | _ => []

/-- What was passed to post and not yet to put. -/
def PostPoint.undecided : PostPoint K → List (Callable K)
  | .put _ t => t.mStorage.toList
  | .leave _ _ => []

/-- What its FixedFunctions are about to destroy. -/
def PostPoint.spent : PostPoint K → List (Callable K)
  | .put callback _ => callback.mStorage.toList
  | .leave callback t => t.mStorage.toList ++ callback.mStorage.toList

/-- What the parameter of put and the caller's FixedFunction own. -/
def PostPoint.held : PostPoint K → Multiset (Callable K)
  | .put callback t | .leave callback t => t.held + callback.held

namespace State

def waiting (s : State K Th) : List (Callable K) := (functions s.mFunctions).reduceOption

def inPost {α : Type} (s : State K Th) (none : α) (f : PostPoint K → α) : α :=
  s.mFunctionLock.elim none fun p => f p.2

/-- What all FixedFunctions own: the slots of the ring, the local of the iteration, and those of
the thread in post. -/
def owned (s : State K Th) : Multiset (Callable K) :=
  s.mFunctions.stock FixedFunction.held + ↑(s.loop.taken ++ s.loop.called) +
    s.inPost 0 PostPoint.held

end State

structure Intact (s : State K Th) : Prop where
  ring : s.mFunctions.WellFormed
  spare : s.mFunctions.Spare fun f => f.mStorage = none
  numbered : s.posted.map Callable.id = List.range s.posted.length
  decided : (↑(s.accepted ++ s.rejected) : Multiset (Callable K)) +
    ↑(s.inPost [] PostPoint.undecided) = s.posted
  order : s.alive = true → s.accepted = s.invoked ++ s.loop.taken ++ s.waiting
  started : s.invoked <+: s.accepted
  owners : s.owned + s.destroyed = s.posted
  finished : ∀ x ∈ s.invoked, x ∈ s.destroyed ++ s.loop.called
  settled : s.alive = true → ∀ x ∈ s.destroyed ++ s.loop.called ++ s.inPost [] PostPoint.spent,
    x ∈ s.invoked ++ s.rejected

section Steps

variable {s s' : State K Th}

theorem construct_callables (callback : Callback K) (id : ℕ) :
    (callback.construct id).1.mStorage.toList = callback.callables id := by
  rcases callback with type | _ | type <;> rfl

theorem construct_passed (callback : Callback K) (id : ℕ) :
    (callback.construct id).2.mStorage = none := by
  rcases callback with type | _ | type <;> rfl

theorem intact_start : Intact (start : State K Th) where
  ring := CircularQueue.wellFormed_empty
  spare := CircularQueue.spare_empty rfl
  numbered := rfl
  decided := rfl
  order _ := rfl
  started := List.nil_prefix
  owners := by
    simp only [State.owned, start, CircularQueue.stock, CircularQueue.empty,
      FixedFunction.held_new, Finset.sum_const_zero]
    rfl
  finished _ hx := by cases hx
  settled _ x hx := by cases hx

/-- What is passed to post() is owned by its parameter. -/
theorem Intact.post (h : Intact s) (hlock : s.mFunctionLock = none) (th : Th)
    (callback : Callback K) : Intact { s with
      mFunctionLock := some (th, .put (callback.construct s.posted.length).2
        (callback.construct s.posted.length).1)
      posted := s.posted ++ callback.callables s.posted.length } where
  ring := h.ring
  spare := h.spare
  numbered := by
    rcases callback with type | _ | type <;>
      simp [Callback.callables, h.numbered, List.range_succ]
  decided := by
    have hd := h.decided
    simp only [State.inPost, hlock, Option.elim_none, Multiset.coe_nil, add_zero] at hd
    simp only [State.inPost, Option.elim_some, PostPoint.undecided, construct_callables, hd,
      Multiset.coe_add]
  order := h.order
  started := h.started
  owners := by
    have ho := h.owners
    simp only [State.owned, State.inPost, hlock, Option.elim_none, add_zero] at ho
    simp only [State.owned, State.inPost, Option.elim_some, PostPoint.held,
      FixedFunction.held_eq_zero (construct_passed ..), add_zero]
    rw [FixedFunction.held, construct_callables, ← Multiset.coe_add s.posted, ← ho]
    abel
  finished := h.finished
  settled halive := by
    have hs := h.settled halive
    simp only [State.inPost, hlock, Option.elim_none] at hs
    simpa only [State.inPost, Option.elim_some, PostPoint.spent, construct_passed,
      Option.toList_none] using hs

/-- A function that is refused stays in the parameter until post() leaves. -/
theorem Intact.put_rejected (h : Intact s) {th : Th} {callback t : FixedFunction K}
    (hlock : s.mFunctionLock = some (th, .put callback t)) : Intact { s with
      mFunctionLock := some (th, .leave callback t)
      rejected := s.rejected ++ t.mStorage.toList } where
  ring := h.ring
  spare := h.spare
  numbered := h.numbered
  decided := by
    have hd := h.decided
    simp only [State.inPost, hlock, Option.elim_some, PostPoint.undecided] at hd
    simp only [State.inPost, Option.elim_some, PostPoint.undecided, Multiset.coe_nil, add_zero,
      ← List.append_assoc, ← hd, Multiset.coe_add]
  order := h.order
  started := h.started
  owners := by
    have ho := h.owners
    simp only [State.owned, State.inPost, hlock] at ho
    exact ho
  finished := h.finished
  settled halive := by
    have hs := h.settled halive
    simp only [State.inPost, hlock, Option.elim_some, PostPoint.spent, List.mem_append] at hs
    simp only [State.inPost, Option.elim_some, PostPoint.spent, List.mem_append]
    rintro x ((hx | hx) | hx | hx)
    · exact (hs x (Or.inl (Or.inl hx))).imp_right Or.inl
    · exact (hs x (Or.inl (Or.inr hx))).imp_right Or.inl
    · exact Or.inr (Or.inr hx)
    · exact (hs x (Or.inr hx)).imp_right Or.inl

/-- The slot behind the last function is empty: the assignment destroys nothing, and leaves the
parameter empty. -/
theorem Intact.put_accepted (h : Intact s) (halive : s.alive = true) {th : Th}
    {callback t : FixedFunction K} (hlock : s.mFunctionLock = some (th, .put callback t))
    (hroom : s.mFunctions.isFull = false) : Intact { s with
      mFunctions := (s.mFunctions.put FixedFunction.moveAssign t).2
      mFunctionLock := some (th, .leave callback
        (FixedFunction.moveAssign (s.mFunctions.mBuffer s.mFunctions.mRear) t).2.1)
      accepted := s.accepted ++ t.mStorage.toList } where
  ring := h.ring.put
  spare := h.spare.put h.ring
  numbered := h.numbered
  decided := by
    have hd := h.decided
    simp only [State.inPost, hlock, Option.elim_some, PostPoint.undecided] at hd
    simp only [State.inPost, Option.elim_some, PostPoint.undecided, ← hd, ← Multiset.coe_add]
    simp only [Multiset.coe_nil, add_zero]
    abel
  order _ := by
    have hlen : (functions s.mFunctions).length < MainLoop.kMaxFunctionSize := by
      rw [length_functions, ← kSlots_eq]
      simpa [CircularQueue.isFull] using hroom
    rw [State.waiting, put_functions h.ring, if_pos hlen, List.reduceOption_append,
      List.reduceOption_singleton, h.order halive, State.waiting]
    simp only [List.append_assoc]
  started := h.started.trans (List.prefix_append ..)
  owners := by
    have ho := h.owners
    have hempty := h.spare.rear h.ring hroom
    have hstock := CircularQueue.put_stock FixedFunction.held FixedFunction.moveAssign t hroom
    rw [FixedFunction.held_eq_zero hempty, add_zero] at hstock
    simp only [State.owned, State.inPost, hlock, Option.elim_some, PostPoint.held] at ho
    simp only [State.owned, State.inPost, Option.elim_some, PostPoint.held, hstock,
      FixedFunction.held_eq_zero (FixedFunction.moveAssign_source ..), zero_add]
    rw [← ho, FixedFunction.held, FixedFunction.moveAssign_target]
    simp only [FixedFunction.held]
    abel
  finished := h.finished
  settled _ := by
    have hs := h.settled halive
    simp only [State.inPost, hlock, Option.elim_some, PostPoint.spent] at hs
    simpa only [State.inPost, Option.elim_some, PostPoint.spent, FixedFunction.moveAssign_source,
      Option.toList_none, List.nil_append] using hs

theorem Intact.leavePost (h : Intact s) {th : Th} {callback t : FixedFunction K}
    (hlock : s.mFunctionLock = some (th, .leave callback t)) :
    Intact (postStep s th (.leave callback t)) where
  ring := h.ring
  spare := h.spare
  numbered := h.numbered
  decided := by
    have hd := h.decided
    simp only [State.inPost, hlock] at hd
    exact hd
  order := h.order
  started := h.started
  owners := by
    have ho := h.owners
    simp only [State.owned, State.inPost, hlock, Option.elim_some, PostPoint.held] at ho
    simp only [postStep, State.owned, State.inPost, Option.elim_none, add_zero,
      FixedFunction.reset_destroyed, ← Multiset.coe_add, ← ho, FixedFunction.held]
    abel
  finished x hx := by
    have hf := h.finished x hx
    simp only [postStep, List.mem_append] at hf ⊢
    exact hf.imp_left fun hx => Or.inl (Or.inl hx)
  settled halive := by
    have hs := h.settled halive
    simp only [State.inPost, hlock, Option.elim_some, PostPoint.spent, List.mem_append] at hs
    simp only [postStep, State.inPost, Option.elim_none, FixedFunction.reset_destroyed,
      List.mem_append, List.append_nil]
    rintro x (((hx | hx) | hx) | hx)
    · exact hs x (Or.inl (Or.inl hx))
    · exact hs x (Or.inr (Or.inl hx))
    · exact hs x (Or.inr (Or.inr hx))
    · exact hs x (Or.inl (Or.inr hx))

/-- A step of post() hands the function on or destroys it. -/
theorem Intact.postStep (h : Intact s) (halive : s.alive = true) {th : Th} {p : PostPoint K}
    (hlock : s.mFunctionLock = some (th, p)) : Intact (postStep s th p) := by
  cases p with
  | leave callback t => exact h.leavePost hlock
  | put callback t =>
    by_cases hfull : s.mFunctions.isFull = true
    · have hput := h.put_rejected hlock
      simpa [PostQueue.postStep, CircularQueue.put_full hfull] using hput
    · have hroom : s.mFunctions.isFull = false := by simpa using hfull
      have hput := h.put_accepted halive hlock hroom
      have hempty := h.spare.rear h.ring hroom
      simpa [PostQueue.postStep, CircularQueue.put_eq hroom, hempty] using hput

theorem Intact.get (h : Intact s) (halive : s.alive = true) {executedAny : Bool}
    (hloop : s.loop = .inside executedAny .get) (hempty : s.mFunctions.isEmpty = false) :
    Intact { s with
      mFunctions := (s.mFunctions.get FixedFunction.moveAssign (some .new)).2
      loop := .inside executedAny
        (.test (FixedFunction.moveAssign .new (s.mFunctions.mBuffer s.mFunctions.mFront)).1) } where
  ring := h.ring.get
  spare := h.spare.get (FixedFunction.moveAssign_source ..)
  numbered := h.numbered
  decided := h.decided
  order _ := by
    have ho := h.order halive
    have hget := get_functions h.ring hempty
    rw [State.waiting, hget, ← List.singleton_append, List.reduceOption_append,
      List.reduceOption_singleton, hloop] at ho
    simpa [LoopPoint.taken, State.waiting] using ho
  started := h.started
  owners := by
    have ho := h.owners
    have hstock := CircularQueue.get_stock FixedFunction.held FixedFunction.moveAssign .new
      hempty
    rw [FixedFunction.held_eq_zero (FixedFunction.moveAssign_source ..), add_zero] at hstock
    simp only [State.owned, hloop, LoopPoint.taken, LoopPoint.called, List.nil_append,
      Multiset.coe_nil, add_zero] at ho
    simp only [State.owned, LoopPoint.taken, LoopPoint.called, List.append_nil,
      FixedFunction.moveAssign_target]
    rw [← ho, ← hstock, FixedFunction.held]
    rfl
  finished := by
    have hf := h.finished
    simp only [hloop, LoopPoint.called] at hf
    exact hf
  settled _ := by
    have hs := h.settled halive
    simp only [hloop, LoopPoint.called] at hs
    exact hs

theorem Intact.call (h : Intact s) (halive : s.alive = true) {executedAny : Bool}
    {func : FixedFunction K} (hloop : s.loop = .inside executedAny (.test func)) :
    Intact { s with
      loop := .inside executedAny (.call func)
      invoked := s.invoked ++ func.invoke } where
  ring := h.ring
  spare := h.spare
  numbered := h.numbered
  decided := h.decided
  order _ := by
    have ho := h.order halive
    rw [hloop, LoopPoint.taken] at ho
    simpa [LoopPoint.taken, State.waiting, FixedFunction.invoke_eq] using ho
  started := by
    have ho := h.order halive
    rw [hloop, LoopPoint.taken, ← FixedFunction.invoke_eq] at ho
    exact ⟨s.waiting, ho.symm⟩
  owners := by
    have ho := h.owners
    simp only [State.owned, hloop, LoopPoint.taken, LoopPoint.called, List.append_nil] at ho
    exact ho
  finished := by
    have hf := h.finished
    simp only [hloop, LoopPoint.called, List.append_nil] at hf
    simp only [FixedFunction.invoke_eq, LoopPoint.called, List.mem_append]
    exact fun x hx => hx.imp_left (hf x)
  settled _ := by
    have hs := h.settled halive
    simp only [hloop, LoopPoint.called, List.append_nil, List.mem_append] at hs
    simp only [FixedFunction.invoke_eq, LoopPoint.called, List.mem_append]
    rintro x ((hx | hx) | hx)
    · exact (hs x (Or.inl hx)).imp_left Or.inl
    · exact Or.inl (Or.inr hx)
    · exact (hs x (Or.inr hx)).imp_left Or.inl

/-- Steps that only go on from one point of the iteration to another. -/
theorem Intact.goto (h : Intact s) {loop : LoopPoint K} (htaken : loop.taken = s.loop.taken)
    (hcalled : loop.called = s.loop.called) : Intact { s with loop := loop } := by
  obtain ⟨hring, hspare, hnumbered, hdecided, horder, hstarted, howners, hfinished, hsettled⟩ := h
  rw [State.owned, ← htaken, ← hcalled] at howners
  rw [← htaken] at horder
  rw [← hcalled] at hfinished hsettled
  exact ⟨hring, hspare, hnumbered, hdecided, horder, hstarted, howners, hfinished, hsettled⟩

theorem Intact.leaveIteration (h : Intact s) {executedAny : Bool}
    {func : FixedFunction K} (hloop : s.loop = .inside executedAny (.leave func)) :
    Intact { s with
      loop := .inside true .get
      destroyed := s.destroyed ++ func.reset.2 } where
  ring := h.ring
  spare := h.spare
  numbered := h.numbered
  decided := h.decided
  order halive := by
    have ho := h.order halive
    rw [hloop] at ho
    exact ho
  started := h.started
  owners := by
    have ho := h.owners
    simp only [State.owned, hloop, LoopPoint.taken, LoopPoint.called, List.nil_append] at ho
    simp only [State.owned, LoopPoint.taken, LoopPoint.called, List.append_nil,
      FixedFunction.reset_destroyed, ← Multiset.coe_add, Multiset.coe_nil, add_zero, ← ho]
    simp only [State.inPost]
    abel
  finished := by
    have hf := h.finished
    simp only [hloop, LoopPoint.called] at hf
    simpa only [LoopPoint.called, FixedFunction.reset_destroyed, List.append_nil] using hf
  settled halive := by
    have hs := h.settled halive
    simp only [hloop, LoopPoint.called] at hs
    simp only [LoopPoint.called, FixedFunction.reset_destroyed, List.append_nil]
    exact hs

/-- A step of runFunctions takes a function out, calls it, or destroys it. -/
theorem Intact.loopStep (h : Intact s) (halive : s.alive = true) {executedAny : Bool}
    {it : Iteration K} (hloop : s.loop = .inside executedAny it)
    (hstep : loopStep s executedAny it = some s') : Intact s' := by
  cases it with
  | get =>
    simp only [PostQueue.loopStep] at hstep
    split at hstep
    case isFalse => cases hstep
    by_cases hempty : s.mFunctions.isEmpty = true
    · rw [CircularQueue.get_empty hempty] at hstep
      obtain rfl := Option.some.inj hstep
      exact h.goto (by rw [hloop]; rfl) (by rw [hloop]; rfl)
    · have hsome : s.mFunctions.isEmpty = false := by simpa using hempty
      rw [← Prod.mk.eta (p := s.mFunctions.get _ _), CircularQueue.get_eq hsome] at hstep
      obtain rfl := Option.some.inj hstep
      have hget := h.get halive hloop hsome
      simpa using hget
  | test func =>
    simp only [PostQueue.loopStep] at hstep
    split at hstep
    · obtain rfl := Option.some.inj hstep
      exact h.call halive hloop
    · rename_i hnot
      obtain rfl := Option.some.inj hstep
      have hnone : func.mStorage = none := by
        by_contra hne
        exact hnot (FixedFunction.toBool_iff.mpr hne)
      exact h.goto (by simp [hloop, LoopPoint.taken, hnone])
        (by simp [hloop, LoopPoint.called, hnone])
  | call func =>
    obtain rfl := Option.some.inj hstep
    exact h.goto (by rw [hloop]; rfl) (by rw [hloop]; rfl)
  | leave func =>
    obtain rfl := Option.some.inj hstep
    exact h.leaveIteration hloop

theorem coe_slots (f : Fin kSlots → FixedFunction K) :
    (↑((List.finRange kSlots).reverse.flatMap fun i => (f i).reset.2) : Multiset (Callable K)) =
      ∑ i, (f i).held := by
  have hperm := (List.reverse_perm (List.finRange kSlots)).flatMap_right fun i => (f i).reset.2
  rw [Multiset.coe_eq_coe.mpr hperm, ← Multiset.coe_bind, Fin.sum_univ_def]
  simp only [FixedFunction.reset_destroyed]
  rfl

theorem destructStep_stock (s : State K Th) :
    (destructStep s).mFunctions.stock FixedFunction.held = 0 :=
  Finset.sum_eq_zero fun _ _ => FixedFunction.held_eq_zero (FixedFunction.reset_mStorage _)

theorem Intact.destructStep (h : Intact s) : Intact (destructStep s) where
  ring := ⟨h.ring.size_le, h.ring.rear⟩
  spare _ _ _ := FixedFunction.reset_mStorage _
  numbered := h.numbered
  decided := h.decided
  order halive := by cases halive
  started := h.started
  owners := by
    have ho := h.owners
    refine Eq.trans ?_ ho
    rw [State.owned, destructStep_stock]
    simp only [PostQueue.destructStep, State.owned, State.inPost, ← Multiset.coe_add, coe_slots,
      CircularQueue.stock]
    abel
  finished x hx := by
    have hf := h.finished x hx
    simp only [PostQueue.destructStep, List.mem_append] at hf ⊢
    exact hf.imp_left Or.inl
  settled halive := by cases halive

/-- One step keeps what was posted apart in what is owned, called and destroyed. -/
theorem Intact.step (h : Intact s) {a : Action K Th} (hstep : step s a = some s') :
    Intact s' := by
  unfold PostQueue.step at hstep
  split at hstep
  case isFalse => cases hstep
  rename_i halive
  cases a with
  | post th callback =>
    dsimp only at hstep
    split at hstep
    · rename_i hlock
      obtain rfl := Option.some.inj hstep
      exact h.post (Option.isNone_iff_eq_none.mp hlock) th callback
    · cases hstep
  | resume =>
    obtain ⟨⟨th, p⟩, hlock, rfl⟩ := Option.map_eq_some_iff.mp hstep
    exact h.postStep halive hlock
  | runFunctions =>
    dsimp only at hstep
    split at hstep
    · rename_i result hloop
      obtain rfl := Option.some.inj hstep
      exact h.goto (by rw [hloop]; rfl) (by rw [hloop]; rfl)
    · cases hstep
  | loop =>
    dsimp only at hstep
    split at hstep
    · cases hstep
    · rename_i executedAny it hloop
      exact h.loopStep halive hloop hstep
  | destruct =>
    dsimp only at hstep
    split at hstep
    · split at hstep
      · obtain rfl := Option.some.inj hstep
        exact h.destructStep
      · cases hstep
    · cases hstep

/-- Every function is owned once or has been destroyed once, in every reachable state. -/
theorem Intact.reachable (hs : (machine K Th).Reachable Machine.anyStep s) : Intact s := by
  refine Machine.Invariant.always ⟨?_, ?_⟩ hs
  · rintro _ rfl
    exact intact_start
  · intro s a s' _ _ hstep h
    exact h.step hstep

theorem loopStep_alive {executedAny : Bool} {it : Iteration K}
    (hstep : loopStep s executedAny it = some s') : s'.alive = s.alive := by
  cases it with
  | get =>
    simp only [loopStep] at hstep
    split at hstep
    · split at hstep <;>
      · obtain rfl := Option.some.inj hstep
        rfl
    · cases hstep
  | test func =>
    simp only [loopStep] at hstep
    split at hstep <;>
    · obtain rfl := Option.some.inj hstep
      rfl
  | call func | leave func =>
    obtain rfl := Option.some.inj hstep
    rfl

/-- After ~MainLoop no FixedFunction owns anything. -/
theorem step_closed {a : Action K Th} (hstep : step s a = some s') (hdead : s'.alive = false) :
    s'.owned = 0 := by
  unfold step at hstep
  split at hstep
  case isFalse => cases hstep
  rename_i halive
  have hkept (h : s'.alive = s.alive) : s'.owned = 0 := by
    rw [h, halive] at hdead
    cases hdead
  cases a with
  | post th callback =>
    dsimp only at hstep
    split at hstep
    · obtain rfl := Option.some.inj hstep
      exact hkept rfl
    · cases hstep
  | resume =>
    obtain ⟨⟨th, p⟩, -, rfl⟩ := Option.map_eq_some_iff.mp hstep
    refine hkept ?_
    cases p <;> rfl
  | runFunctions =>
    dsimp only at hstep
    split at hstep
    · obtain rfl := Option.some.inj hstep
      exact hkept rfl
    · cases hstep
  | loop =>
    dsimp only at hstep
    split at hstep
    · cases hstep
    · exact hkept (loopStep_alive hstep)
  | destruct =>
    dsimp only at hstep
    split at hstep
    · rename_i result hloop
      split at hstep
      · rename_i hlock
        obtain rfl := Option.some.inj hstep
        rw [State.owned, destructStep_stock]
        simp [destructStep, hloop, LoopPoint.taken, LoopPoint.called, State.inPost,
          Option.isNone_iff_eq_none.mp hlock]
      · cases hstep
    · cases hstep

/-- After the destructor no function is owned. -/
theorem closed_reachable (hs : (machine K Th).Reachable Machine.anyStep s)
    (hdead : s.alive = false) : s.owned = 0 := by
  have hinv : (machine K Th).Invariant Machine.anyStep (fun _ => True)
      fun s => s.alive = false → s.owned = 0 := by
    refine ⟨?_, ?_⟩
    · rintro _ rfl hdead
      cases hdead
    · exact fun s a s' _ _ hstep _ => step_closed hstep
  exact hinv.always hs hdead

theorem Intact.posted_nodup (h : Intact s) : s.posted.Nodup := by
  apply List.Nodup.of_map Callable.id
  rw [h.numbered]
  exact List.nodup_range

/-- No function is accepted twice, and none is both accepted and rejected. -/
theorem Intact.decided_nodup (h : Intact s) : (s.accepted ++ s.rejected).Nodup := by
  have hle : (↑(s.accepted ++ s.rejected) : Multiset (Callable K)) ≤ s.posted := by
    rw [← h.decided]
    exact Multiset.le_add_right _ _
  exact Multiset.coe_nodup.mp (Multiset.nodup_of_le hle (Multiset.coe_nodup.mpr h.posted_nodup))

/-- The functions that post accepted are those invoked, the one taken, and those in the ring, in
this order; each function posted has one owner or has been destroyed once. -/
theorem posted_functions (hs : (machine K Th).Reachable Machine.anyStep s) :
    (s.alive = true → s.accepted = s.invoked ++ s.loop.taken ++ s.waiting) ∧
    s.invoked.Nodup ∧ (∀ x ∈ s.rejected, x ∉ s.invoked) ∧
    s.posted.Nodup ∧ s.owned + s.destroyed = s.posted ∧
    (∀ executedAny, s.loop = .inside executedAny .get → ∀ x ∈ s.invoked, x ∈ s.destroyed) ∧
    (s.alive = true → ∀ x ∈ s.destroyed, x ∈ s.invoked ∨ x ∈ s.rejected) ∧
    (s.alive = false → s.destroyed.Perm s.posted) := by
  have h := Intact.reachable hs
  have hdecided := h.decided_nodup
  have hinvoked : s.invoked.Nodup := (List.nodup_append.mp hdecided).1.sublist h.started.sublist
  refine ⟨h.order, hinvoked, fun x hx hx' => ?_, h.posted_nodup, h.owners, ?_, ?_, ?_⟩
  · exact List.disjoint_of_nodup_append hdecided (h.started.subset hx') hx
  · intro executedAny hloop x hx
    have hf := h.finished x hx
    rw [hloop] at hf
    simpa [LoopPoint.called] using hf
  · intro halive x hx
    exact List.mem_append.mp
      (h.settled halive x (List.mem_append_left _ (List.mem_append_left _ hx)))
  · intro hdead
    have ho := h.owners
    rw [closed_reachable hs hdead, zero_add] at ho
    exact Multiset.coe_eq_coe.mp ho

/-- A function that posts another one is invoked and destroyed before that one is taken. -/
def postedInside : State Bool Bool :=
  (machine Bool Bool).after Machine.anyStep start
    [.post true (.callable true), .resume, .resume, .runFunctions, .loop, .loop,
      .post false (.fixed (some false)), .resume, .resume, .loop, .loop, .loop, .loop]

theorem posted_functions_inside :
    postedInside.accepted = [⟨true, 0⟩, ⟨false, 1⟩] ∧ postedInside.destroyed = [⟨true, 0⟩] ∧
    postedInside.owned + postedInside.destroyed = postedInside.posted := by
  refine ⟨by decide +kernel, by decide +kernel, ?_⟩
  exact (posted_functions (Machine.reachable_after (M := machine Bool Bool) (s := start) rfl
    (by decide +kernel))).2.2.2.2.1

end Steps

end CWrapper.PostQueue
