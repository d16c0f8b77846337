import CWrapper.SyncQueueRecords

/-!
Nothing is lost, duplicated or reordered. What went in is what came out followed by what is in
the ring; an item that was evicted or flushed awaits its dispose in one call, and is passed to
it once.
-/
namespace CWrapper.SyncQueue

open Transition

variable {T Th : Type} {Capacity : ℕ+}

/-- The item that the call holds for dispose, under its number. -/
def ThreadPoint.pending : ThreadPoint T → Option (ℕ × T)
  | .putForceDispose k d | .flushDispose k d => some (k, d)
  | _ => none

/-- The item of a number was taken out to be disposed of. -/
def Discarded (removed : List (Removal × T)) (k : ℕ) (d : T) : Prop :=
  ∃ why, why ≠ .got ∧ removed[k]? = some (why, d)

/-- Every item evicted or flushed is with one call, or has been passed to dispose once. -/
structure DisposedOnce (removed : List (Removal × T)) (disposed : List (ℕ × T))
    (pending : Th → Option (ℕ × T)) : Prop where
  once : (disposed.map Prod.fst).Nodup
  sound : ∀ k d, (k, d) ∈ disposed → Discarded removed k d
  held : ∀ th k d, pending th = some (k, d) →
    Discarded removed k d ∧ k ∉ disposed.map Prod.fst
  owner : ∀ th th' k d d', pending th = some (k, d) → pending th' = some (k, d') → th = th'
  complete : ∀ k d, Discarded removed k d → (k, d) ∈ disposed ∨ ∃ th, pending th = some (k, d)

structure Lawful (s : State T Th Capacity) : Prop where
  ring : s.mQueue.WellFormed
  order : s.enqueued = s.removed.map Prod.snd ++ s.mQueue.contents
  disposals : DisposedOnce s.removed s.disposed fun th => (s.thread th).pending

section Disposals

variable {removed : List (Removal × T)} {disposed : List (ℕ × T)} {pending : Th → Option (ℕ × T)}
  {k : ℕ} {d x : T} {why : Removal}

theorem Discarded.lt (h : Discarded removed k d) : k < removed.length := by
  obtain ⟨why, -, hget⟩ := h
  exact (List.getElem?_eq_some_iff.mp hget).1

theorem Discarded.concat (h : Discarded removed k d) (y : Removal × T) :
    Discarded (removed ++ [y]) k d := by
  obtain ⟨why, hwhy, hget⟩ := h
  exact ⟨why, hwhy, by rw [List.getElem?_append_left (List.getElem?_eq_some_iff.mp hget).1, hget]⟩

theorem discarded_concat_iff : Discarded (removed ++ [(why, x)]) k d ↔
    Discarded removed k d ∨ why ≠ .got ∧ k = removed.length ∧ d = x := by
  constructor
  · rintro ⟨why', hwhy, hget⟩
    rcases lt_or_ge k removed.length with hk | hk
    · rw [List.getElem?_append_left hk] at hget
      exact Or.inl ⟨why', hwhy, hget⟩
    · rw [List.getElem?_append_right hk] at hget
      obtain ⟨hlt, hval⟩ := List.getElem?_eq_some_iff.mp hget
      simp only [List.length_singleton, Nat.lt_one_iff] at hlt
      simp only [hlt, List.getElem_cons_zero, Prod.mk.injEq] at hval
      exact Or.inr ⟨hval.1 ▸ hwhy, by omega, hval.2.symm⟩
  · rintro (h | ⟨hwhy, rfl, rfl⟩)
    · exact h.concat _
    · exact ⟨why, hwhy, by simp⟩

/-- An item that get returns is not for dispose. -/
theorem DisposedOnce.got (h : DisposedOnce removed disposed pending) (x : T) :
    DisposedOnce (removed ++ [(.got, x)]) disposed pending where
  once := h.once
  sound k d hmem := (h.sound k d hmem).concat _
  held th k d hp := ⟨(h.held th k d hp).1.concat _, (h.held th k d hp).2⟩
  owner := h.owner
  complete k d hd := h.complete k d ((discarded_concat_iff.mp hd).resolve_right (by simp))

variable [DecidableEq Th] {th : Th}

/-- A call takes out an item for dispose. -/
theorem DisposedOnce.take (h : DisposedOnce removed disposed pending) (hth : pending th = none)
    (hwhy : why ≠ .got) (x : T) :
    DisposedOnce (removed ++ [(why, x)]) disposed
      (Function.update pending th (some (removed.length, x))) where
  once := h.once
  sound k d hmem := (h.sound k d hmem).concat _
  held u k d hp := by
    by_cases hu : u = th
    · subst hu
      simp only [Function.update_self, Option.some.injEq, Prod.mk.injEq] at hp
      obtain ⟨rfl, rfl⟩ := hp
      refine ⟨discarded_concat_iff.mpr (Or.inr ⟨hwhy, rfl, rfl⟩), fun hmem => ?_⟩
      obtain ⟨⟨k, d⟩, hmem, rfl⟩ := List.mem_map.mp hmem
      exact Nat.lt_irrefl _ (h.sound _ _ hmem).lt
    · rw [Function.update_of_ne hu] at hp
      exact ⟨(h.held u k d hp).1.concat _, (h.held u k d hp).2⟩
  owner u v k d d' hu hv := by
    have hnew (w : Th) (e e' : T) (hw : w ≠ th) (hp : pending w = some (k, e))
        (hk : (removed.length, x) = (k, e')) : False := by
      obtain ⟨rfl, -⟩ := Prod.mk.inj hk
      exact Nat.lt_irrefl _ (h.held w _ e hp).1.lt
    by_cases hut : u = th
    · by_cases hvt : v = th
      · rw [hut, hvt]
      · rw [hut, Function.update_self] at hu
        rw [Function.update_of_ne hvt] at hv
        exact (hnew v d' d hvt hv (Option.some.inj hu)).elim
    · rw [Function.update_of_ne hut] at hu
      by_cases hvt : v = th
      · rw [hvt, Function.update_self] at hv
        exact (hnew u d d' hut hu (Option.some.inj hv)).elim
      · rw [Function.update_of_ne hvt] at hv
        exact h.owner u v k d d' hu hv
  complete k d hd := by
    rcases discarded_concat_iff.mp hd with hd | ⟨-, rfl, rfl⟩
    · rcases h.complete k d hd with hmem | ⟨u, hu⟩
      · exact Or.inl hmem
      · refine Or.inr ⟨u, ?_⟩
        rw [Function.update_of_ne]
        · exact hu
        · rintro rfl
          simp [hth] at hu
    · exact Or.inr ⟨th, Function.update_self ..⟩

/-- A call passes its item to dispose. -/
theorem DisposedOnce.pass (h : DisposedOnce removed disposed pending)
    (hth : pending th = some (k, x)) :
    DisposedOnce removed (disposed ++ [(k, x)]) (Function.update pending th none) where
  once := by
    rw [List.map_append, List.nodup_append]
    refine ⟨h.once, by simp, ?_⟩
    rintro j hj i hi rfl
    obtain rfl : j = k := by simpa using hi
    exact (h.held th j x hth).2 hj
  sound j d hmem := by
    rcases List.mem_append.mp hmem with hmem | hmem
    · exact h.sound j d hmem
    · obtain ⟨rfl, rfl⟩ := Prod.mk.inj (List.mem_singleton.mp hmem)
      exact (h.held th _ _ hth).1
  held u j d hp := by
    have hu : u ≠ th := by
      rintro rfl
      simp at hp
    rw [Function.update_of_ne hu] at hp
    refine ⟨(h.held u j d hp).1, fun hmem => ?_⟩
    rw [List.map_append, List.mem_append] at hmem
    rcases hmem with hmem | hmem
    · exact (h.held u j d hp).2 hmem
    · obtain rfl : j = k := by simpa using hmem
      exact hu (h.owner u th j d x hp hth)
  owner u v j d d' hu hv := by
    have hne (w : Th) (e : T) (hw : Function.update pending th none w = some (j, e)) :
        pending w = some (j, e) := by
      by_cases hwt : w = th
      · simp [hwt] at hw
      · rwa [Function.update_of_ne hwt] at hw
    exact h.owner u v j d d' (hne u d hu) (hne v d' hv)
  complete j d hd := by
    rcases h.complete j d hd with hmem | ⟨u, hu⟩
    · exact Or.inl (List.mem_append_left _ hmem)
    · by_cases hut : u = th
      · rw [hut, hth] at hu
        exact Or.inl (List.mem_append_right _ (by simp [Option.some.inj hu]))
      · exact Or.inr ⟨u, by rw [Function.update_of_ne hut]; exact hu⟩

end Disposals

section Laws

variable {s s' : State T Th Capacity}

theorem Lawful.of_same (h : Lawful s) (hqueue : s'.mQueue = s.mQueue)
    (henq : s'.enqueued = s.enqueued) (hrem : s'.removed = s.removed)
    (hdis : s'.disposed = s.disposed)
    (hpend : (fun u => (s'.thread u).pending) = fun u => (s.thread u).pending) : Lawful s' where
  ring := hqueue ▸ h.ring
  order := by rw [henq, hrem, hqueue, h.order]
  disposals := by
    rw [hrem, hdis, hpend]
    exact h.disposals

/-- A put appends its item to what has been put in, and to the contents. -/
theorem Lawful.enqueue (h : Lawful s) (moved : T → T) (hfull : s.mQueue.isFull = false) (t : T) :
    Lawful (s.enqueue moved t) where
  ring := h.ring.put
  order := by
    have hput := CircularQueue.put_contents (assign moved) t h.ring hfull
    simp only [State.enqueue, hput, h.order, List.append_assoc]
    rfl
  disposals := h.disposals

theorem dequeue_order (h : Lawful s) (moved : T → T) (hempty : s.mQueue.isEmpty = false)
    (t : Option T) (why : Removal) : (s.dequeue moved t why).enqueued =
      (s.dequeue moved t why).removed.map Prod.snd ++
        (s.dequeue moved t why).mQueue.contents := by
  have hget := CircularQueue.get_contents (assign moved) t h.ring hempty
  have hcons := CircularQueue.contents_cons hempty
  simp only [State.dequeue, hget, h.order, List.map_append, List.append_assoc]
  rw [hcons]
  rfl

/-- A get takes the next item out, and hands it out. -/
theorem Lawful.got (h : Lawful s) (moved : T → T) (hempty : s.mQueue.isEmpty = false)
    (t : Option T) :
    Lawful (s.dequeue moved t .got) where
  ring := h.ring.get
  order := dequeue_order h moved hempty t .got
  disposals := h.disposals.got _

/-- The ring has room again when putForce has evicted. -/
theorem dequeue_not_full (h : Lawful s) (moved : T → T) (hempty : s.mQueue.isEmpty = false)
    (t : Option T) (why : Removal) : (s.dequeue moved t why).mQueue.isFull = false := by
  have hget := CircularQueue.get_contents (assign moved) t h.ring hempty
  have hlen := congrArg List.length hget
  have hle := h.ring.size_le
  have hpos : s.mQueue.mSize ≠ 0 := by simpa [CircularQueue.isEmpty] using hempty
  simp only [CircularQueue.length_contents, List.length_tail] at hlen
  simp only [State.dequeue, CircularQueue.isFull, hlen, ge_iff_le, decide_eq_false_iff_not]
  omega

end Laws

section Steps

variable [DecidableEq Th]

theorem pending_wake (p : ThreadPoint T) (timedOut : Bool) :
    (p.wake timedOut).pending = p.pending := by
  cases p <;> rfl

theorem pending_update {thread : Th → ThreadPoint T} {th : Th} {p : ThreadPoint T} :
    (fun u => (Function.update thread th p u).pending) =
      Function.update (fun u => (thread u).pending) th p.pending := by
  funext u
  by_cases hu : u = th <;> simp [hu]

/-- Waking others does not touch what calls hold for dispose. -/
theorem pending_wakeAll (waiters : List Th) (thread : Th → ThreadPoint T) :
    (fun u => (wakeAll waiters thread u).pending) = fun u => (thread u).pending := by
  funext u
  unfold wakeAll
  split
  · exact pending_wake _ _
  · rfl

theorem pending_keep {thread : Th → ThreadPoint T} {th : Th} {p : ThreadPoint T}
    (h : p.pending = (thread th).pending) :
    (fun u => (Function.update thread th p u).pending) = fun u => (thread u).pending := by
  rw [pending_update, h, Function.update_eq_self_iff]

variable {s s' : State T Th Capacity} {th : Th} {choice : ℕ} {moved : T → T}

theorem signalEmpty_pending : (fun u => ((s.signalEmpty choice).thread u).pending) =
    fun u => (s.thread u).pending := by
  unfold State.signalEmpty
  split
  · rfl
  · exact pending_keep (pending_wake _ _)

theorem signalFull_pending : (fun u => ((s.signalFull choice).thread u).pending) =
    fun u => (s.thread u).pending := by
  unfold State.signalFull
  split
  · rfl
  · exact pending_keep (pending_wake _ _)

theorem Lawful.goto (h : Lawful s) {p : ThreadPoint T} (hp : p.pending = (s.thread th).pending) :
    Lawful (s.goto th p) :=
  h.of_same rfl rfl rfl rfl (pending_keep hp)

theorem Lawful.return (h : Lawful s) (r : Returned T) (hp : (s.thread th).pending = none) :
    Lawful (s.return th r) :=
  h.of_same rfl rfl rfl rfl (pending_keep hp.symm)

theorem Lawful.signalEmpty (h : Lawful s) : Lawful (s.signalEmpty choice) :=
  h.of_same signalEmpty_same.1 signalEmpty_same.2.1 signalEmpty_same.2.2.1
    signalEmpty_same.2.2.2.1 signalEmpty_pending

theorem Lawful.signalFull (h : Lawful s) : Lawful (s.signalFull choice) :=
  h.of_same signalFull_same.1 signalFull_same.2.1 signalFull_same.2.2.1
    signalFull_same.2.2.2.1 signalFull_pending

theorem Lawful.leaveWait (h : Lawful s) (timedOut : Bool) : Lawful (s.leaveWait th timedOut) :=
  h.of_same rfl rfl rfl rfl (pending_keep (pending_wake _ _))

theorem Lawful.wakeFull (h : Lawful s) :
    Lawful { s with mCvFull := [], thread := wakeAll s.mCvFull s.thread } :=
  h.of_same rfl rfl rfl rfl (pending_wakeAll ..)

theorem Lawful.wakeEmpty (h : Lawful s) :
    Lawful { s with mCvEmpty := [], thread := wakeAll s.mCvEmpty s.thread } :=
  h.of_same rfl rfl rfl rfl (pending_wakeAll ..)

theorem pending_woken {waiters : List Th} {p : ThreadPoint T} (hth : s.thread th = p)
    (hp : p.pending = none) : (wakeAll waiters s.thread th).pending = none := by
  rw [congrFun (pending_wakeAll waiters s.thread) th, hth, hp]

/-- An item is taken out, for the call to dispose of it. -/
theorem Lawful.take (h : Lawful s) (moved : T → T) (hempty : s.mQueue.isEmpty = false)
    (t : Option T) {why : Removal} (hwhy : why ≠ .got) (hth : (s.thread th).pending = none)
    {p : ThreadPoint T} (hp : p.pending = some (s.removed.length, s.front)) :
    Lawful ((s.dequeue moved t why).goto th p) where
  ring := h.ring.get
  order := dequeue_order h moved hempty t why
  disposals := by
    have htake := h.disposals.take hth hwhy s.front
    rw [← hp, ← pending_update] at htake
    exact htake

/-- An item that was taken out to be disposed of is passed to dispose by the call that holds it. -/
theorem Lawful.pass (h : Lawful s) {k : ℕ} {d : T} (hth : (s.thread th).pending = some (k, d))
    {p : ThreadPoint T} (hp : p.pending = none) : Lawful ((s.dispose k d).goto th p) where
  ring := h.ring
  order := h.order
  disposals := by
    have hpass := h.disposals.pass hth
    rw [← hp, ← pending_update] at hpass
    exact hpass

variable [Inhabited T]

/-- One step keeps the contents between what has been put in and what has been taken out. -/
theorem Lawful.step {a : Action T Th} (h : Lawful s) (hm : Moves moved s a s') : Lawful s' := by
  cases hm with
  | tick => exact h.of_same rfl rfl rfl rfl rfl
  | @call _ th p hth hentry =>
    refine h.goto ?_
    rw [hth]
    cases p <;> simp_all [ThreadPoint.isEntry, ThreadPoint.pending]
  | putFail hth | getFail hth | putForceFail hth => exact h.return _ (by rw [hth]; rfl)
  | putBlock hth => exact (h.goto (by rw [hth]; rfl)).of_same rfl rfl rfl rfl rfl
  | getBlock hth => exact (h.goto (by rw [hth]; rfl)).of_same rfl rfl rfl rfl rfl
  | @put th choice _ _ _ hth _ hfull =>
    refine ((h.enqueue moved hfull _).signalEmpty).return _ ?_
    rw [congrFun signalEmpty_pending th]
    exact congrArg ThreadPoint.pending hth
  | @get th choice _ _ _ hth _ hempty =>
    refine ((h.got moved hempty _).signalFull).return _ ?_
    rw [congrFun signalFull_pending th]
    exact congrArg ThreadPoint.pending hth
  | @putForce th choice _ hth hfull =>
    refine ((h.enqueue moved hfull _).signalEmpty).return _ ?_
    rw [congrFun signalEmpty_pending th]
    exact congrArg ThreadPoint.pending hth
  | @evict th choice t hth hfull =>
    have hempty := isEmpty_of_isFull hfull
    have hwhy : Removal.evicted ≠ .got := by simp
    have htake := h.take moved hempty (some default) hwhy (by rw [hth]; rfl)
      (p := .putForceDispose s.removed.length s.front) rfl
    have hput := htake.enqueue moved (dequeue_not_full h moved hempty (some default) .evicted) t
    refine hput.of_same signalEmpty_same.1 signalEmpty_same.2.1 signalEmpty_same.2.2.1
      signalEmpty_same.2.2.2.1 ?_
    refine pending_update.trans ?_
    rw [signalEmpty_pending]
    exact pending_update.symm
  | putForceDispose hth => exact (h.pass (by rw [hth]; rfl) rfl).of_same rfl rfl rfl rfl rfl
  | flushEnd hth => exact h.goto (by rw [hth]; rfl)
  | flushItem hth hempty => exact h.take moved hempty _ (by simp) (by rw [hth]; rfl) rfl
  | flushDispose hth => exact h.pass (by rw [hth]; rfl) rfl
  | flushBroadcast hth => exact h.wakeFull.return _ (pending_woken hth rfl)
  | storeEOS hth => exact (h.goto (by rw [hth]; rfl)).of_same rfl rfl rfl rfl rfl
  | broadcastFull hth => exact h.wakeFull.goto (pending_woken hth rfl).symm
  | broadcastEmpty hth => exact h.wakeEmpty.return _ (pending_woken hth rfl)
  | putLeave => exact h.leaveWait _
  | getLeave => exact h.leaveWait _

/-- While mEOS is set only flush changes the contents. -/
theorem Moves.flushes {a : Action T Th} (hm : Moves moved s a s') (heos : s.mEOS = true)
    (hne : s'.mQueue.contents ≠ s.mQueue.contents) :
    ∃ th choice removedAny, a = .resume th choice ∧ s.thread th = .flush removedAny := by
  cases hm with
  | put _ _ _ hopen | get _ _ _ hopen => simp [heos] at hopen
  | putForce _ _ hopen | evict _ _ hopen => simp [heos] at hopen
  | flushItem hth => exact ⟨_, _, _, rfl, hth⟩
  | _ => exact absurd rfl hne

end Steps

section Reachable

variable [Inhabited T] [DecidableEq Th] {moved : T → T} {s : State T Th Capacity}

/-- In every reachable state the items put in are those taken out, in order, and then the contents.
-/
theorem lawful_reachable (hs : (system T Th Capacity moved).Reachable Machine.anyStep s) :
    Lawful s := by
  refine Machine.Invariant.always ⟨?_, ?_⟩ hs
  · rintro _ ⟨now, rfl⟩
    exact ⟨CircularQueue.wellFormed_empty, rfl,
      ⟨List.nodup_nil, by simp [State.start], by simp [State.start, ThreadPoint.pending],
        by simp [State.start, ThreadPoint.pending], by simp [State.start, Discarded]⟩⟩
  · intro s a s' _ _ hstep h
    exact h.step (step_moves hstep)

/-- Items leave in the order they came in, and none is lost, doubled or disposed of twice. The
lists they are in are those that the sections of the calls write. -/
theorem items_conserved (hs : (system T Th Capacity moved).Reachable Machine.anyStep s) :
    s.enqueued = s.removed.map Prod.snd ++ s.mQueue.contents ∧
    s.mQueue.contents.length ≤ Capacity ∧
    DisposedOnce s.removed s.disposed (fun th => (s.thread th).pending) ∧
    (∀ a s', (system T Th Capacity moved).step s a = some s' → Records s a s') ∧
    ∀ a s', (system T Th Capacity moved).step s a = some s' → s.mEOS = true →
      s'.mQueue.contents ≠ s.mQueue.contents →
      ∃ th choice removedAny, a = .resume th choice ∧ s.thread th = .flush removedAny := by
  have h := lawful_reachable hs
  refine ⟨h.order, ?_, h.disposals, fun a s' hstep => (step_moves hstep).records,
    fun a s' hstep => (step_moves hstep).flushes⟩
  rw [CircularQueue.length_contents]
  exact h.ring.size_le

/-- In one cell a second putForce evicts what the first one put, and disposes of it. -/
def evicted : State ℕ Bool oneCell :=
  (system ℕ Bool oneCell id).after Machine.anyStep (State.start 0)
    [.putForce false 1, .resume false 0, .putForce true 2, .resume true 0, .resume true 0]

theorem items_conserved_evicted :
    evicted.enqueued = evicted.removed.map Prod.snd ++ evicted.mQueue.contents ∧
    evicted.mQueue.contents.length ≤ oneCell ∧
    DisposedOnce evicted.removed evicted.disposed (fun th => (evicted.thread th).pending) :=
  have hs : (system ℕ Bool oneCell id).Reachable Machine.anyStep evicted :=
    Machine.reachable_after initial_start (by decide +kernel)
  have h := items_conserved hs
  ⟨h.1, h.2.1, h.2.2.1⟩

end Reachable

end CWrapper.SyncQueue
