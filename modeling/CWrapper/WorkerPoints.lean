import CWrapper.WorkerSession

/-!
Where the threads stand in a phase. A thread that the phase depends on is where the phase wants it;
a thread that holds mLifecycleLock is the only one; and pthread_join is for the thread of a session.
-/
namespace CWrapper.WorkerThread

open Transition

variable {W Th : Type}

variable [DecidableEq Th] {call : Th → Call W Th} {lock : Option Th} {p p' : Phase W Th}
  {th : Th} {c : Call W Th}

/-- The threads stand where the phase wants them. -/
structure Agrees (call : Th → Call W Th) (lock : Option Th) (p : Phase W Th) : Prop where
  allows : ∀ th, p.Allows th (call th)
  joining : ∀ th id, (call th).joins = some id → p.joinable = some id
  lifecycle : ∀ th, (call th).holds = true ↔ lock = some th

section Points

/-- Which phases want a thread at which point. -/
inductive Pinned : Phase W Th → Th → Call W Th → Prop
  | preparing (w h pt) : Pinned (.preparing w h pt) h (.start w (.prepare pt))
  | created (w h t r) : Pinned (.opening w h t false r) h (.start w (.handshake (some t)))
  | opening (w h t r) : Pinned (.opening w h t true r) h (.start w (.handshake none))
  | failed (w h inside) : Pinned (.failed w h inside) h (.start w (.cleanup inside))
  | live (w t r n k pt) : Pinned (.live w t r (.under n k pt)) n (.onStopRequested k w pt)
  | joined (w h op stop) : Pinned (.joined w h op stop) h (.joinLocked op .await)
  | joinedUnder (w h op n k pt) : n ≠ h →
      Pinned (.joined w h op (.under n k pt)) n (.onStopRequested k w pt)
  | cleaning (w h op stop) :
      Pinned (.cleaning w h op stop) h (.joinLocked op (.cleanup w false))
  | inside (w h op) : Pinned (.closing w h op true) h (.joinLocked op (.cleanup w true))
  | reset (w h op) : Pinned (.closing w h op false) h (.joinLocked op .reset)

theorem point_under {w : W} {stop : Delivery Th} (h : stop.point w th = some c) :
    ∃ k pt, stop = .under th k pt ∧ c = .onStopRequested k w pt := by
  cases stop with
  | under n k pt =>
    simp only [Delivery.point] at h
    split at h
    · rename_i heq
      exact ⟨k, pt, by rw [heq], (Option.some.inj h).symm⟩
    · cases h
  | none | done => cases h

theorem pinned_of_point (h : p.point th = some c) : Pinned p th c := by
  cases p with
  | idle => cases h
  | live w t r stop =>
    obtain ⟨k, pt, rfl, rfl⟩ := point_under h
    exact .live ..
  | joined w h' op stop =>
    simp only [Phase.point] at h
    split at h
    · rename_i heq
      subst heq
      obtain rfl := Option.some.inj h
      exact .joined ..
    · rename_i hne
      obtain ⟨k, pt, rfl, rfl⟩ := point_under h
      exact .joinedUnder _ _ _ _ _ _ hne
  | preparing w h' pt | failed w h' inside | cleaning w h' op stop =>
    simp only [Phase.point] at h
    split at h
    · rename_i heq
      subst heq
      obtain rfl := Option.some.inj h
      constructor
    · cases h
  | opening w h' t stored r =>
    simp only [Phase.point] at h
    split at h
    · rename_i heq
      subst heq
      obtain rfl := Option.some.inj h
      cases stored <;> constructor
    · cases h
  | closing w h' op inside =>
    simp only [Phase.point] at h
    split at h
    · rename_i heq
      subst heq
      obtain rfl := Option.some.inj h
      cases inside <;> constructor
    · cases h

theorem point_not_free (h : p.point th = some c) : c.isFree = false := by
  cases pinned_of_point h <;> rfl

theorem Agrees.free (h : Agrees call lock p) (hfree : (call th).isFree = true) :
    p.point th = none := by
  have hallows := h.allows th
  rw [Phase.Allows] at hallows
  split at hallows
  · rename_i c' hc'
    rw [hallows, point_not_free hc'] at hfree
    cases hfree
  · rename_i hnone
    exact hnone

theorem allows_free (h : p.point th = none) (hfree : c.isFree = true) : p.Allows th c := by
  rw [Phase.Allows, h]
  exact hfree

/-- Only one thread is where mLifecycleLock is held. -/
theorem Agrees.holder (h : Agrees call lock p) (hth : (call th).holds = true) {th' : Th}
    (hth' : (call th').holds = true) : th' = th := by
  have h1 := (h.lifecycle th).mp hth
  have h2 := (h.lifecycle th').mp hth'
  exact Option.some.inj (h2.symm.trans h1)

/-- One thread goes on, and the phase and the lock change with it. -/
theorem Agrees.moveLock (h : Agrees call lock p) {lock' : Option Th} (hself : p'.Allows th c)
    (hother : ∀ th', th' ≠ th → p'.point th' = p.point th')
    (hjoinable : (call th).holds = false → p'.joinable = p.joinable)
    (hjoin : ∀ id, c.joins = some id → p'.joinable = some id)
    (hlock : ∀ th', th' ≠ th → (lock' = some th' ↔ lock = some th'))
    (hholds : c.holds = true ↔ lock' = some th) : Agrees (Function.update call th c) lock' p' where
  allows th' := by
    by_cases heq : th' = th
    · rw [heq, Function.update_self]
      exact hself
    · rw [Function.update_of_ne heq, Phase.Allows, hother th' heq]
      exact h.allows th'
  joining th' id hc := by
    by_cases heq : th' = th
    · rw [heq, Function.update_self] at hc
      exact hjoin id hc
    · rw [Function.update_of_ne heq] at hc
      have hfalse : (call th).holds = false := by
        by_contra hholds'
        exact heq (h.holder (by simpa using hholds') (joins_holds hc))
      rw [hjoinable hfalse]
      exact h.joining th' id hc
  lifecycle th' := by
    by_cases heq : th' = th
    · rw [heq, Function.update_self]
      exact hholds
    · rw [Function.update_of_ne heq, hlock th' heq]
      exact h.lifecycle th'

/-- One thread goes on and the phase changes with it. -/
theorem Agrees.move (h : Agrees call lock p) (hself : p'.Allows th c)
    (hother : ∀ th', th' ≠ th → p'.point th' = p.point th')
    (hjoinable : (call th).holds = false → p'.joinable = p.joinable)
    (hjoin : ∀ id, c.joins = some id → p'.joinable = some id)
    (hholds : c.holds = (call th).holds) : Agrees (Function.update call th c) lock p' := by
  refine h.moveLock hself hother hjoinable hjoin (fun _ _ => Iff.rfl) ?_
  rw [hholds]
  exact h.lifecycle th

/-- A thread goes from one point that does not matter to another. -/
theorem Agrees.goto (h : Agrees call lock p) (hfree : (call th).isFree = true)
    (hc : c.isFree = true) (hjoin : ∀ id, c.joins = some id → p.joinable = some id)
    (hholds : c.holds = (call th).holds) : Agrees (Function.update call th c) lock p :=
  h.move (allows_free (h.free hfree) hc) (fun _ _ => rfl) (fun _ => rfl) hjoin hholds

/-- A thread that gets mLifecycleLock agrees with the phase as before. -/
theorem Agrees.acquire (h : Agrees call none p) (hfree : (call th).isFree = true)
    (hc : c.isFree = true) (hjoin : c.joins = none) (hholds : c.holds = true) :
    Agrees (Function.update call th c) (some th) p := by
  refine h.moveLock (allows_free (h.free hfree) hc) (fun _ _ => rfl) (fun _ => rfl)
    (fun id hid => ?_) (fun th' hne => ?_) (by simp [hholds])
  · rw [hjoin] at hid
    cases hid
  · simp [Ne.symm hne]

theorem Agrees.release (h : Agrees call (some th) p) (hfree : (call th).isFree = true)
    (hc : c.isFree = true) (hjoin : c.joins = none) (hholds : c.holds = false) :
    Agrees (Function.update call th c) none p := by
  refine h.moveLock (allows_free (h.free hfree) hc) (fun _ _ => rfl) (fun _ => rfl)
    (fun id hid => ?_) (fun th' hne => ?_) (by simp [hholds])
  · rw [hjoin] at hid
    cases hid
  · simp [Ne.symm hne]

/-- The worker thread goes on. -/
theorem Agrees.phase (h : Agrees call lock p) (hpoint : p'.point = p.point)
    (hjoinable : p'.joinable = p.joinable) : Agrees call lock p' where
  allows th := by
    rw [Phase.Allows, hpoint]
    exact h.allows th
  joining th id hc := by
    rw [hjoinable]
    exact h.joining th id hc
  lifecycle := h.lifecycle

/-- Where a thread holds mLifecycleLock at a point that does not matter, no other starts or
joins. -/
theorem Agrees.unheld (h : Agrees call lock p) (hholds : (call th).holds = true)
    (hfree : (call th).isFree = true) : p = .idle ∨ ∃ w t r stop, p = .live w t r stop := by
  have hnone := h.free hfree
  have hheld (h' : Th) {c : Call W Th} (hpoint : p.point h' = some c) (hc : c.holds = true) :
      False := by
    have hcall := h.allows h'
    rw [Phase.Allows, hpoint] at hcall
    obtain rfl := h.holder hholds (by rw [hcall]; exact hc)
    rw [hnone] at hpoint
    cases hpoint
  cases p with
  | idle => exact Or.inl rfl
  | live w t r stop => exact Or.inr ⟨w, t, r, stop, rfl⟩
  | preparing w h' pt => exact (hheld h' (if_pos rfl) rfl).elim
  | opening w h' t stored r => exact (hheld h' (if_pos rfl) rfl).elim
  | failed w h' inside => exact (hheld h' (if_pos rfl) rfl).elim
  | joined w h' op stop => exact (hheld h' (if_pos rfl) rfl).elim
  | cleaning w h' op stop => exact (hheld h' (if_pos rfl) rfl).elim
  | closing w h' op inside => exact (hheld h' (if_pos rfl) rfl).elim

/-- A thread at a point that is not free is where the phase wants one. -/
theorem Agrees.pinned (h : Agrees call lock p) (hc : call th = c) (hfree : c.isFree = false) :
    Pinned p th c := by
  have hallows := h.allows th
  rw [Phase.Allows, hc] at hallows
  split at hallows
  · rename_i c' hpoint
    exact pinned_of_point (hallows ▸ hpoint)
  · rw [hallows] at hfree
    cases hfree

end Points

end CWrapper.WorkerThread
