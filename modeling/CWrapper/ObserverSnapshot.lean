import CWrapper.ObserverRegistrations

/-!
The snapshot semantics of notify. A call of notify acts on the registrations that stand at
its snapshot and whose removal is not flagged when it reaches their slots, once on each. The
walk goes over slots; that a slot of the snapshot still holds a registration of the snapshot
is what the comparison of generations decides.
-/
namespace CWrapper.ObserverList

open Chronicle SlotLife Transition

variable {O Th : Type} {N w : ℕ} {s s' : State O Th N w}

/-- How often the call `c` has begun its action for the registration `r`. -/
def actions (log : List (Event O Th N)) (c r : ℕ) : ℕ :=
  log.countP fun
    | .began c' r' _ => decide (c' = c ∧ r' = r)
    | _ => false

def Event.call : Event O Th N → Option ℕ
  | .snapshot c | .reached c _ | .began c _ _ | .finished c => some c
  | _ => none

/-- The slots below this one have been dealt with. -/
def NotifyPoint.passed : NotifyPoint O N → ℕ
  | .walk i => i
  | .action i _ | .broadcast i => i + 1
  | .done => N

/-- What the log tells of a call that took its snapshot after `start` adds. -/
structure Walked (s : State O Th N w) (c start : ℕ) (bits : Fin N → Bool) (pos : ℕ) : Prop where
  bound : start ≤ s.adds
  before : ∀ r o i, .added r o i ∈ s.log →
    (Earlier (.added r o i) (.snapshot c) s.log ↔ r ≤ start)
  passed : ∀ i : Fin N, .reached c i ∈ s.log → i < pos
  called : ∀ r o, .began c r o ∈ s.log → r ≤ start ∧ ∃ i, .added r o i ∈ s.log ∧
    .reached c i ∈ s.log ∧ ¬ Earlier (.flagged r) (.reached c i) s.log
  once : ∀ r, actions s.log c r ≤ 1
  visited : ∀ r o (i : Fin N), .added r o i ∈ s.log → r ≤ start → i < pos →
    .reached c i ∉ s.log ∧ Earlier (.flagged r) (.snapshot c) s.log ∨
      .reached c i ∈ s.log ∧
        (Earlier (.flagged r) (.reached c i) s.log ∨ 0 < actions s.log c r)
  due : ∀ r o i, .added r o i ∈ s.log → r ≤ start →
    bits i = true ∨ Earlier (.flagged r) (.snapshot c) s.log

theorem actions_append (new log : List (Event O Th N)) (c r : ℕ) :
    actions (new ++ log) c r = actions new c r + actions log c r :=
  List.countP_append

theorem actions_pos_iff {log : List (Event O Th N)} {c r : ℕ} :
    0 < actions log c r ↔ ∃ o, .began c r o ∈ log := by
  unfold actions
  rw [List.countP_pos_iff]
  constructor
  · rintro ⟨e, he, hacts⟩
    cases e with
    | began c' r' o =>
      obtain ⟨rfl, rfl⟩ : c' = c ∧ r' = r := by simpa using hacts
      exact ⟨o, he⟩
    | _ => simp at hacts
  · rintro ⟨o, ho⟩
    exact ⟨_, ho, by simp⟩

theorem actions_eq_zero {new : List (Event O Th N)} {c : ℕ}
    (hnew : ∀ e ∈ new, e.call = some c → e = .finished c) (r : ℕ) : actions new c r = 0 := by
  by_contra hne
  obtain ⟨o, ho⟩ := actions_pos_iff.mp (Nat.pos_of_ne_zero hne)
  simpa using hnew _ ho rfl

/-- Entries about other calls, later adds and its own end change nothing for a call. -/
theorem Walked.frame {c start pos : ℕ} {bits : Fin N → Bool} {new : List (Event O Th N)}
    (h : Walked s c start bits pos) (hlog : s'.log = new ++ s.log) (hadds : s.adds ≤ s'.adds)
    (hnew : ∀ e ∈ new, e.call = some c → e = .finished c)
    (hfresh : ∀ r o i, .added r o i ∈ new → s.adds < r) : Walked s' c start bits pos := by
  have hbound := h.bound
  have hadd {r : ℕ} {o : O} {i : Fin N} (hr : .added r o i ∈ s'.log) (hle : r ≤ start) :
      .added r o i ∈ s.log := by
    rw [hlog] at hr
    refine (List.mem_append.mp hr).resolve_left fun hr => ?_
    have hlt := hfresh r o i hr
    omega
  have hsnap : .snapshot c ∉ new := fun he => by simpa using hnew _ he rfl
  have hreached (i : Fin N) : .reached c i ∉ new := fun he => by simpa using hnew _ he rfl
  have hactions (r : ℕ) : actions s'.log c r = actions s.log c r := by
    rw [hlog, actions_append, actions_eq_zero hnew, Nat.zero_add]
  refine ⟨by omega, ?_, ?_, ?_, ?_, ?_, ?_⟩
  · intro r o i hr
    rw [hlog, earlier_append_iff hsnap]
    refine ⟨fun he => (h.before r o i he.mem).mp he, fun hle => ?_⟩
    exact (h.before r o i (hadd hr hle)).mpr hle
  · intro i hi
    rw [hlog] at hi
    exact h.passed i ((List.mem_append.mp hi).resolve_left (hreached i))
  · intro r o hr
    rw [hlog] at hr ⊢
    obtain ⟨hle, i, hi, hri, hflag⟩ :=
      h.called r o ((List.mem_append.mp hr).resolve_left fun he => by simpa using hnew _ he rfl)
    refine ⟨hle, i, List.mem_append_right _ hi, List.mem_append_right _ hri, ?_⟩
    rwa [earlier_append_iff (hreached i)]
  · intro r
    rw [hactions]
    exact h.once r
  · intro r o i hr hle hi
    have hmem : .reached c i ∈ s'.log ↔ .reached c i ∈ s.log := by simp [hlog, hreached]
    rw [hmem, hactions, hlog, earlier_append_iff hsnap, earlier_append_iff (hreached i)]
    exact h.visited r o i (hadd hr hle) hle hi
  · intro r o i hr hle
    rw [hlog, earlier_append_iff hsnap]
    exact h.due r o i (hadd hr hle) hle

/-- The snapshot: each registration made so far is in a slot of it or flagged. -/
theorem Walked.begin (hr : Registered s) {c : ℕ}
    (hfresh : ∀ e ∈ s.log, e.call ≠ some c) (hlog : s'.log = .snapshot c :: s.log)
    (hadds : s'.adds = s.adds) : Walked s' c s.adds s.list.mOccupiedBits 0 := by
  have hsnap : .snapshot c ∉ s.log := fun he => hfresh _ he rfl
  have hadd {r : ℕ} {o : O} {i : Fin N} (he : .added r o i ∈ s'.log) : .added r o i ∈ s.log := by
    simpa [hlog] using he
  refine ⟨hadds.ge, ?_, ?_, ?_, ?_, ?_, ?_⟩
  · intro r o i he
    rw [hlog, earlier_cons_self_iff hsnap]
    exact iff_of_true (hadd he) (hr.bound r o i (hadd he))
  · intro i he
    have hold : .reached c i ∈ s.log := by simpa [hlog] using he
    exact absurd rfl (hfresh _ hold)
  · intro r o he
    have hold : .began c r o ∈ s.log := by simpa [hlog] using he
    exact absurd rfl (hfresh _ hold)
  · intro r
    have hlog' : s'.log = [.snapshot c] ++ s.log := hlog
    rw [hlog', actions_append, actions_eq_zero (fun e he hec => absurd hec (hfresh e he)) r]
    exact Nat.zero_le 1
  · intro r o i he hle hi
    exact absurd hi (Nat.not_lt_zero _)
  · intro r o i he hle
    rw [hlog, earlier_cons_self_iff hsnap]
    rcases hr.kept r o i (hadd he) with hf | ⟨n, hn⟩
    · exact Or.inr hf
    · exact Or.inl hn.bit

/-- The call reaches slot `i` and writes `es` besides: it finds none of its registrations
listed there, or finds one and begins the action for it. -/
structure Reach (s s' : State O Th N w) (c start : ℕ) (bits : Fin N → Bool) (i : Fin N)
    (es : List (Event O Th N)) : Prop where
  before : Walked s c start bits i
  log : s'.log = es ++ [.reached c i] ++ s.log
  adds : s'.adds = s.adds
  entries : es = [] ∧ (∀ r o, .added r o i ∈ s.log → r ≤ start → .flagged r ∈ s.log) ∨
    ∃ r o n, es = [.began c r o] ∧ Holds s i (.listed o r n) ∧ r ≤ start

namespace Reach

variable {c start r : ℕ} {bits : Fin N → Bool} {i j : Fin N} {es : List (Event O Th N)} {o : O}

theorem began (h : Reach s s' c start bits i es) (he : .began c r o ∈ es) :
    ∃ n, Holds s i (.listed o r n) ∧ r ≤ start := by
  rcases h.entries with ⟨rfl, -⟩ | ⟨r', o', n, rfl, hn, hle⟩
  · simp at he
  · obtain ⟨rfl, rfl⟩ : r = r' ∧ o = o' := by simpa using he
    exact ⟨n, hn, hle⟩

theorem kinds (h : Reach s s' c start bits i es) {e : Event O Th N}
    (he : e ∈ es ++ [.reached c i]) : e = .reached c i ∨ ∃ r o, e = .began c r o := by
  rcases h.entries with ⟨rfl, -⟩ | ⟨r, o, n, rfl, -, -⟩
  · exact Or.inl (by simpa using he)
  · rcases List.mem_cons.mp he with rfl | he
    · exact Or.inr ⟨r, o, rfl⟩
    · exact Or.inl (by simpa using he)

theorem mem_added (h : Reach s s' c start bits i es) :
    .added r o j ∈ s'.log ↔ .added r o j ∈ s.log := by
  rw [h.log, List.mem_append]
  exact or_iff_right fun he => by simpa using h.kinds he

theorem snapshot_not_mem (h : Reach s s' c start bits i es) :
    .snapshot c ∉ es ++ [.reached c i] := fun he => by simpa using h.kinds he

theorem reached_not_mem (h : Reach s s' c start bits i es) (hj : j ≠ i) :
    .reached c j ∉ es ++ [.reached c i] := fun he => by simpa [hj] using h.kinds he

theorem first (h : Reach s s' c start bits i es) : .reached c i ∉ s.log :=
  fun he => absurd (h.before.passed i he) (Nat.lt_irrefl _)

theorem mem_reached (h : Reach s s' c start bits i es) : .reached c i ∈ s'.log := by
  simp [h.log]

theorem flagged_iff (h : Reach s s' c start bits i es) :
    Earlier (.flagged r) (.reached c i) s'.log ↔ .flagged r ∈ s.log := by
  have hes : .reached c i ∉ es := by
    rcases h.entries with ⟨rfl, -⟩ | ⟨_, _, _, rfl, -, -⟩ <;> simp
  rw [h.log, List.append_assoc, earlier_append_iff hes]
  exact earlier_cons_self_iff h.first

/-- A registration for which the call has begun its action is not one of this slot. -/
theorem other_slot (h : Reach s s' c start bits i es) (hr : Registered s)
    (he : .began c r o ∈ s.log) (hj : .added r o j ∈ s.log) : j ≠ i := by
  rintro rfl
  obtain ⟨-, k, hk, hreach, -⟩ := h.before.called r o he
  obtain ⟨-, rfl⟩ := hr.unique r o o k j hk hj
  exact h.first hreach

theorem called (h : Reach s s' c start bits i es) (hr : Registered s)
    (he : .began c r o ∈ s'.log) : r ≤ start ∧ ∃ j, .added r o j ∈ s'.log ∧
      .reached c j ∈ s'.log ∧ ¬ Earlier (.flagged r) (.reached c j) s'.log := by
  rw [h.log, List.mem_append, List.mem_append] at he
  rcases he with (he | he) | he
  · obtain ⟨n, hn, hle⟩ := h.began he
    obtain ⟨hri, hunflagged⟩ := hr.listed hn
    exact ⟨hle, i, h.mem_added.mpr hri, h.mem_reached,
      fun hf => hunflagged (h.flagged_iff.mp hf)⟩
  · simp at he
  · obtain ⟨hle, j, hj, hreach, hf⟩ := h.before.called r o he
    refine ⟨hle, j, h.mem_added.mpr hj, ?_, ?_⟩
    · rw [h.log]
      exact List.mem_append_right _ hreach
    · rwa [h.log, earlier_append_iff (h.reached_not_mem (h.other_slot hr he hj))]

theorem once (h : Reach s s' c start bits i es) (hr : Registered s) (r : ℕ) :
    actions s'.log c r ≤ 1 := by
  rw [h.log, actions_append]
  have honce := h.before.once r
  rcases h.entries with ⟨rfl, -⟩ | ⟨r', o, n, rfl, hn, -⟩
  · have hnone : actions ([] ++ [.reached c i] : List (Event O Th N)) c r = 0 := rfl
    omega
  · by_cases hrr : r' = r
    · subst hrr
      have hnone : ¬ 0 < actions s.log c r' := by
        intro hpos
        obtain ⟨o', ho'⟩ := actions_pos_iff.mp hpos
        obtain ⟨-, k, hk, -, -⟩ := h.before.called r' o' ho'
        obtain ⟨-, hki⟩ := hr.unique r' o' o k i hk (hr.listed hn).1
        exact h.other_slot hr ho' hk hki
      have hone : actions ([.began c r' o] ++ [.reached c i] : List (Event O Th N)) c r' = 1 := by
        simp [actions]
      omega
    · have hnone : actions ([.began c r' o] ++ [.reached c i] : List (Event O Th N)) c r = 0 := by
        simp [actions, hrr]
      omega

/-- What stands in the slot is flagged or is acted on now. -/
theorem here (h : Reach s s' c start bits i es) (hr : Registered s)
    (he : .added r o i ∈ s.log) (hle : r ≤ start) :
    Earlier (.flagged r) (.reached c i) s'.log ∨ 0 < actions s'.log c r := by
  rw [h.flagged_iff, actions_pos_iff]
  rcases h.entries with ⟨-, hall⟩ | ⟨r', o', n, rfl, hn, -⟩
  · exact Or.inl (hall r o he hle)
  · rcases hr.kept r o i he with hf | ⟨n', hn'⟩
    · exact Or.inl hf
    · obtain ⟨rfl, rfl, rfl⟩ : o' = o ∧ r' = r ∧ n = n' := by simpa using hn.unique hn'
      exact Or.inr ⟨o', by simp [h.log]⟩

theorem visited (h : Reach s s' c start bits i es) (hr : Registered s)
    (he : .added r o j ∈ s.log) (hle : r ≤ start) (hj : (j : ℕ) < i + 1) :
    .reached c j ∉ s'.log ∧ Earlier (.flagged r) (.snapshot c) s'.log ∨
      .reached c j ∈ s'.log ∧
        (Earlier (.flagged r) (.reached c j) s'.log ∨ 0 < actions s'.log c r) := by
  by_cases hji : j = i
  · subst hji
    exact Or.inr ⟨h.mem_reached, h.here hr he hle⟩
  · have hlt : (j : ℕ) < i := by
      have hne : (j : ℕ) ≠ i := fun heq => hji (Fin.ext heq)
      omega
    have hvisited := h.before.visited r o j he hle hlt
    have hold := h.reached_not_mem hji
    have hmem : .reached c j ∈ s'.log ↔ .reached c j ∈ s.log := by
      rw [h.log, List.mem_append]
      exact or_iff_right hold
    rw [hmem, h.log, earlier_append_iff h.snapshot_not_mem, earlier_append_iff hold,
      actions_append]
    exact hvisited.imp_right (And.imp_right (Or.imp_right fun hpos => by omega))

/-- A call that has reached slot `i` has dealt with the slots up to it. -/
theorem walked (h : Reach s s' c start bits i es) (hr : Registered s) :
    Walked s' c start bits (i + 1) where
  bound := h.adds ▸ h.before.bound
  before r o j he := by
    rw [h.log, earlier_append_iff h.snapshot_not_mem]
    exact h.before.before r o j (h.mem_added.mp he)
  passed j he := by
    by_cases hj : j = i
    · rw [hj]
      exact Nat.lt_succ_self _
    · rw [h.log] at he
      exact Nat.lt_succ_of_lt
        (h.before.passed j ((List.mem_append.mp he).resolve_left (h.reached_not_mem hj)))
  called r o he := h.called hr he
  once := h.once hr
  visited r o j he hle hj := h.visited hr (h.mem_added.mp he) hle hj
  due r o j he hle := by
    rw [h.log, earlier_append_iff h.snapshot_not_mem]
    exact h.before.due r o j (h.mem_added.mp he) hle

end Reach

theorem Walked.moved {c start pos pos' : ℕ} {bits : Fin N → Bool}
    (h : Walked s c start bits pos) (hle : ∀ i : Fin N, (i : ℕ) < pos → (i : ℕ) < pos')
    (hpassed : ∀ r o (i : Fin N), .added r o i ∈ s.log → r ≤ start → (i : ℕ) < pos' →
      (i : ℕ) < pos ∨ .reached c i ∉ s.log ∧ Earlier (.flagged r) (.snapshot c) s.log) :
    Walked s c start bits pos' where
  bound := h.bound
  before := h.before
  passed i hi := hle i (h.passed i hi)
  called := h.called
  once := h.once
  visited r o i hr hst hi := by
    rcases hpassed r o i hr hst hi with hi | hf
    · exact h.visited r o i hr hst hi
    · exact Or.inl hf
  due := h.due

/-- What the log tells of a call; of removeAndWait it tells nothing under the call's number. -/
def CallRecord (s : State O Th N w) (c : ℕ) : Call O N w → Prop
  | .notify startGeneration occupiedSnapshot point =>
      (∃ start, startGeneration = BitVec.ofNat w start ∧
        Walked s c start occupiedSnapshot point.passed) ∧
      (.finished c ∈ s.log → point = .done)
  | .removeAndWait _ _ _ => ∀ e ∈ s.log, e.call ≠ some c

structure Recorded (s : State O Th N w) : Prop where
  numbered : ∀ e ∈ s.log, ∀ c, e.call = some c → c < s.calls.length
  record : ∀ c call, s.calls[c]? = some call → CallRecord s c call

theorem CallRecord.frame {c : ℕ} {call : Call O N w} {new : List (Event O Th N)}
    (h : CallRecord s c call) (hlog : s'.log = new ++ s.log) (hadds : s.adds ≤ s'.adds)
    (hnew : ∀ e ∈ new, e.call ≠ some c)
    (hfresh : ∀ r o i, .added r o i ∈ new → s.adds < r) : CallRecord s' c call := by
  cases call with
  | notify g bits point =>
    obtain ⟨⟨start, hg, hwalked⟩, hfinished⟩ := h
    refine ⟨⟨start, hg, hwalked.frame hlog hadds (fun e he hec => absurd hec (hnew e he)) hfresh⟩,
      fun he => hfinished ?_⟩
    rw [hlog] at he
    exact (List.mem_append.mp he).resolve_left fun he => hnew _ he rfl
  | removeAndWait o i point =>
    intro e he
    rw [hlog] at he
    rcases List.mem_append.mp he with he | he
    · exact hnew e he
    · exact h e he

theorem CallRecord.wake {c : ℕ} {call : Call O N w} (h : CallRecord s c call) :
    CallRecord s c call.wake := by
  rcases call with ⟨_, _, _⟩ | ⟨_, _, _ | _ | _⟩ <;> exact h

/-- One call moves and the step writes about no other call. -/
theorem Recorded.of_call (h : Recorded s) {new : List (Event O Th N)} (c : ℕ)
    (hlog : s'.log = new ++ s.log) (hadds : s.adds ≤ s'.adds)
    (hfresh : ∀ r o i, .added r o i ∈ new → s.adds < r)
    (hlen : s.calls.length ≤ s'.calls.length)
    (hnew : ∀ e ∈ new, ∀ d, e.call = some d → d = c ∧ c < s'.calls.length)
    (hother : ∀ d call, d ≠ c → s'.calls[d]? = some call →
      ∃ old, s.calls[d]? = some old ∧ (call = old ∨ call = old.wake))
    (hself : ∀ call, s'.calls[c]? = some call → CallRecord s' c call) : Recorded s' := by
  refine ⟨?_, ?_⟩
  · intro e he d hd
    rw [hlog] at he
    rcases List.mem_append.mp he with he | he
    · obtain ⟨rfl, hlt⟩ := hnew e he d hd
      exact hlt
    · exact lt_of_lt_of_le (h.numbered e he d hd) hlen
  · intro d call hd
    by_cases hdc : d = c
    · subst hdc
      exact hself call hd
    · obtain ⟨old, hold, hcall⟩ := hother d call hdc hd
      have hrecord := (h.record d old hold).frame hlog hadds
        (fun e he hed => hdc (hnew e he d hed).1) hfresh
      rcases hcall with rfl | rfl
      · exact hrecord
      · exact hrecord.wake

theorem Recorded.of_goto (h : Recorded s) (new : List (Event O Th N)) {c : ℕ}
    {old call : Call O N w} (hc : s.calls[c]? = some old) (hcalls : s'.calls = s.calls.set c call)
    (hlog : s'.log = new ++ s.log) (hadds : s'.adds = s.adds)
    (hnew : ∀ e ∈ new, (∀ d, e.call = some d → d = c) ∧ ∀ r o i, e ≠ .added r o i)
    (hself : CallRecord s' c call) : Recorded s' := by
  have hlt := (List.getElem?_eq_some_iff.mp hc).1
  have hlen : s'.calls.length = s.calls.length := by rw [hcalls, List.length_set]
  refine h.of_call c hlog hadds.ge (fun r o i he => absurd rfl ((hnew _ he).2 r o i)) hlen.ge
    (fun e he d hd => ⟨(hnew e he).1 d hd, hlen ▸ hlt⟩) ?_ ?_
  · intro d call' hdc hd
    rw [hcalls, List.getElem?_set_ne (Ne.symm hdc)] at hd
    exact ⟨call', hd, Or.inl rfl⟩
  · intro call' hd
    rw [hcalls, List.getElem?_set_self hlt] at hd
    exact Option.some.inj hd ▸ hself

theorem Recorded.of_enter (h : Recorded s) (new : List (Event O Th N)) {call : Call O N w}
    (hcalls : s'.calls = s.calls ++ [call]) (hlog : s'.log = new ++ s.log)
    (hadds : s'.adds = s.adds)
    (hnew : ∀ e ∈ new, (∀ d, e.call = some d → d = s.calls.length) ∧ ∀ r o i, e ≠ .added r o i)
    (hself : CallRecord s' s.calls.length call) : Recorded s' := by
  have hlen : s'.calls.length = s.calls.length + 1 := by simp [hcalls]
  refine h.of_call s.calls.length hlog hadds.ge
    (fun r o i he => absurd rfl ((hnew _ he).2 r o i)) (by omega)
    (fun e he d hd => ⟨(hnew e he).1 d hd, by omega⟩) ?_ ?_
  · intro d call' hdc hd
    rw [hcalls] at hd
    exact ⟨call', (getElem?_concat_cases hd).resolve_left fun hlast => hdc hlast.1, Or.inl rfl⟩
  · intro call' hd
    rw [hcalls, List.getElem?_concat_length] at hd
    exact Option.some.inj hd ▸ hself

theorem Recorded.of_same (h : Recorded s) (new : List (Event O Th N))
    (hcalls : s'.calls = s.calls) (hlog : s'.log = new ++ s.log) (hadds : s.adds ≤ s'.adds)
    (hfresh : ∀ r o i, .added r o i ∈ new → s.adds < r) (hnew : ∀ e ∈ new, e.call = none) :
    Recorded s' := by
  refine h.of_call s.calls.length hlog hadds hfresh (by rw [hcalls])
    (fun e he d hd => by simp [hnew e he] at hd) ?_ ?_
  · intro d call _ hd
    exact ⟨call, hcalls ▸ hd, Or.inl rfl⟩
  · intro call hd
    simp [hcalls] at hd

/-- The walk passes slot `i`, which the snapshot does not have. -/
theorem Walked.skip {c start : ℕ} {bits : Fin N → Bool} {i : Fin N}
    (h : Walked s c start bits i) (hbit : bits i = false) : Walked s c start bits (i + 1) := by
  refine h.moved (fun j hj => by omega) ?_
  intro r o j hr hle hj
  by_cases hji : j = i
  · subst hji
    exact Or.inr ⟨fun hreach => absurd (h.passed j hreach) (Nat.lt_irrefl _),
      (h.due r o j hr hle).resolve_left (by simp [hbit])⟩
  · have hne : (j : ℕ) ≠ i := fun heq => hji (Fin.ext heq)
    exact Or.inl (by omega)

theorem Walked.same {c start pos : ℕ} {bits : Fin N → Bool} (h : Walked s c start bits pos)
    (hlog : s'.log = s.log) (hadds : s'.adds = s.adds) : Walked s' c start bits pos :=
  h.frame (hlog.trans (List.nil_append _).symm) hadds.ge (by simp) (by simp)

/-- A call of notify moves on without returning. -/
theorem Recorded.of_walk (h : Recorded s) (new : List (Event O Th N)) {c : ℕ} {g : BitVec w}
    {bits : Fin N → Bool} {p p' : NotifyPoint O N}
    (hc : s.calls[c]? = some (.notify g bits p)) (hp : p ≠ .done)
    (hcalls : s'.calls = s.calls.set c (.notify g bits p')) (hlog : s'.log = new ++ s.log)
    (hadds : s'.adds = s.adds)
    (hnew : ∀ e ∈ new, (∀ d, e.call = some d → d = c) ∧ (∀ r o i, e ≠ .added r o i) ∧
      e ≠ .finished c)
    (hwalk : ∀ start, g = BitVec.ofNat w start → Walked s c start bits p.passed →
      Walked s' c start bits p'.passed) : Recorded s' := by
  obtain ⟨⟨start, hg, hwalked⟩, hfinished⟩ := h.record c _ hc
  refine h.of_goto new hc hcalls hlog hadds (fun e he => ⟨(hnew e he).1, (hnew e he).2.1⟩)
    ⟨⟨start, hg, hwalk start hg hwalked⟩, fun hf => ?_⟩
  rw [hlog] at hf
  rcases List.mem_append.mp hf with hf | hf
  · exact absurd rfl (hnew _ hf).2.2
  · exact absurd (hfinished hf) hp

/-- Between fewer adds than a size_t counts, generations compare as registrations do. -/
theorem lt_ofNat_iff {g r : ℕ} (hg : g < Nat.pow 2 w) (hr : r < Nat.pow 2 w) :
    BitVec.ofNat w g < BitVec.ofNat w r ↔ g < r := by
  rw [BitVec.lt_def, BitVec.toNat_ofNat, BitVec.toNat_ofNat]
  exact iff_of_eq (congrArg₂ (· < ·) (Nat.mod_eq_of_lt hg) (Nat.mod_eq_of_lt hr))

theorem Recorded.wake (h : Recorded s) : Recorded { s with calls := s.calls.map Call.wake } where
  numbered e he c hc := lt_of_lt_of_eq (h.numbered e he c hc) (List.length_map ..).symm
  record c call hc := by
    obtain ⟨old, hold, rfl⟩ := Option.map_eq_some_iff.mp ((List.getElem?_map ..).symm.trans hc)
    exact (h.record c old hold).wake.frame (List.nil_append _).symm le_rfl (by simp) (by simp)

variable [DecidableEq Th]

/-- One step keeps the record of every call, whichever call takes it. -/
theorem recorded_step {a : Action O Th} (hs : Consistent s) (hr : Registered s)
    (h : Recorded s) (hw : s.adds < Nat.pow 2 w) (hm : Moves s a s') : Recorded s' := by
  have hquiet {c : ℕ} {o : Option O} {i : Fin N} {p p' : WaitPoint} {new : List (Event O Th N)}
      (hc : s.calls[c]? = some (.removeAndWait o i p)) (hlog : s'.log = new ++ s.log)
      (hnew : ∀ e ∈ new, e.call = none) : CallRecord s' c (.removeAndWait o i p') := by
    intro e he
    rw [hlog] at he
    rcases List.mem_append.mp he with he | he
    · simp [hnew e he]
    · exact h.record c _ hc e he
  cases hm with
  | idle => exact h
  | refused => exact h.of_same [_] rfl rfl le_rfl (by simp) (by simp [Event.call])
  | register =>
    refine h.of_same [_] rfl rfl (Nat.le_succ _) ?_ (by simp [Event.call])
    intro r o i he
    obtain ⟨rfl, -, -⟩ : r = s.adds + 1 ∧ _ ∧ _ := by simpa using he
    omega
  | unlist | leave => exact h.of_same [_] rfl rfl le_rfl (by simp) (by simp [Event.call])
  | unlistAndReturn => exact h.of_same [_, _] rfl rfl le_rfl (by simp) (by simp [Event.call])
  | await =>
    refine h.of_enter [_] rfl rfl rfl (by simp [Event.call]) ?_
    intro e he hcall
    rcases List.mem_cons.mp he with rfl | he
    · simp [Event.call] at hcall
    · exact absurd (h.numbered e he _ hcall) (Nat.lt_irrefl _)
  | snapshot =>
    refine h.of_enter [_] rfl rfl rfl (by simp [Event.call]) ?_
    have hfresh (e : Event O Th N) (he : e ∈ s.log) : e.call ≠ some s.calls.length :=
      fun hcall => absurd (h.numbered e he _ hcall) (Nat.lt_irrefl _)
    refine ⟨⟨s.adds, hs.generation, Walked.begin hr hfresh rfl rfl⟩, fun he => ?_⟩
    rcases List.mem_cons.mp he with he | he
    · simp at he
    · exact absurd rfl (hfresh _ he)
  | skip hcur hbit =>
    refine h.of_walk [] (current_call hcur).2 (by simp) rfl rfl rfl (by simp) ?_
    intro start _ hwalked
    exact (hwalked.skip hbit).same rfl rfl
  | refuse hcur hnone =>
    refine h.of_walk [_] (current_call hcur).2 (by simp) rfl rfl rfl (by simp [Event.call]) ?_
    rintro start rfl hwalked
    refine Reach.walked ⟨hwalked, rfl, rfl, Or.inl ⟨rfl, fun r o hro hle => ?_⟩⟩ hr
    rcases hr.kept r o _ hro with hf | ⟨n, hn⟩
    · exact hf
    · have hbound := hr.bound r o _ hro
      have hstart := hwalked.bound
      have hlt := (lt_ofNat_iff (by omega) (by omega)).mp (hnone o r n hn)
      omega
  | @borrow _ c rest g bits i o r n hcur hi hg =>
    refine h.of_walk [_, _] (current_call hcur).2 (by simp) rfl rfl rfl (by simp [Event.call]) ?_
    rintro start rfl hwalked
    refine Reach.walked ⟨hwalked, rfl, rfl, Or.inr ⟨_, _, _, rfl, hi, ?_⟩⟩ hr
    have hbound := hwalked.bound
    have hrbound := hr.bound r o i (hr.listed hi).1
    exact Nat.le_of_not_lt fun hlt => hg ((lt_ofNat_iff (by omega) (by omega)).mpr hlt)
  | release hcur =>
    refine h.of_walk [] (current_call hcur).2 (by simp) rfl rfl rfl (by simp) ?_
    intro start _ hwalked
    split <;> exact hwalked.same rfl rfl
  | @broadcast _ c _ g bits i hcur =>
    have hc : (s.calls.map Call.wake)[c]? = some (.notify g bits (.broadcast i)) := by
      simp [(current_call hcur).2, Call.wake]
    refine h.wake.of_walk [] hc (by simp) rfl rfl rfl (by simp) ?_
    intro start _ hwalked
    exact hwalked.same rfl rfl
  | @finish _ c _ g bits i hcur hi =>
    have hc := (current_call hcur).2
    refine h.of_goto [_] hc rfl rfl rfl (by simp [Event.call]) ?_
    obtain ⟨⟨start, hg, hwalked⟩, -⟩ := h.record c _ hc
    refine ⟨⟨start, hg, Walked.moved (hwalked.frame rfl le_rfl (by simp) (by simp))
      (fun j _ => j.isLt) ?_⟩, fun _ => rfl⟩
    intro r o j _ _ hj
    exact Or.inl (lt_of_lt_of_le hj hi)
  | retire hcur =>
    exact h.of_goto [_] (current_call hcur).2 rfl rfl rfl (by simp [Event.call])
      (hquiet (current_call hcur).2 rfl (by simp [Event.call]))
  | recheck hcur | spurious hcur =>
    exact h.of_goto [] (current_call hcur).2 rfl rfl rfl (by simp)
      (hquiet (current_call hcur).2 (List.nil_append _).symm (by simp))

/-- The number of the adds does not go down. -/
theorem adds_step {a : Action O Th} (hm : Moves s a s') : s.adds ≤ s'.adds := by
  cases hm with
  | register => exact Nat.le_succ _
  | _ => exact le_rfl

variable [DecidableEq O]

/-- The induction is over the run; the hypothesis is that the generations have not wrapped around at
its end. -/
theorem recorded_reachable (hs : (system O Th N w).Reachable Machine.anyStep s)
    (hw : s.adds < Nat.pow 2 w) : Recorded s := by
  refine Machine.Invariant.reachable (J := fun s => Consistent s ∧ Registered s)
    (I := fun s => s.adds < Nat.pow 2 w → Recorded s) ⟨?_, ?_⟩
    (fun _ h => ⟨consistent_reachable h, registered_reachable h⟩) hs hw
  · rintro _ rfl -
    refine ⟨?_, ?_⟩
    · intro e he
      simp [State.start] at he
    · intro c call hc
      simp [State.start] at hc
  · intro s a s' _ hJ hs h hw
    have hm := step_moves hJ.1 hs
    have hw' : s.adds < Nat.pow 2 w := lt_of_le_of_lt (adds_step hm) hw
    exact recorded_step hJ.1 hJ.2 (h hw') hw' hm

/-- A call of notify runs its action only for registrations, at most once for each, and for a
registration exactly when it was made before the call's snapshot and its removal is not flagged
when the call reaches its slot; a call that is over has reached the slot of every registration
that stood at its snapshot. -/
theorem snapshot_semantics (hs : (system O Th N w).Reachable Machine.anyStep s)
    (hw : s.adds < Nat.pow 2 w) {c : ℕ} (hc : .snapshot c ∈ s.log) :
    (∀ r o, .began c r o ∈ s.log → ∃ i, .added r o i ∈ s.log) ∧
    ∀ r o i, .added r o i ∈ s.log →
      actions s.log c r ≤ 1 ∧
      (actions s.log c r = 1 ↔ Earlier (.added r o i) (.snapshot c) s.log ∧
        .reached c i ∈ s.log ∧ ¬ Earlier (.flagged r) (.reached c i) s.log) ∧
      (.finished c ∈ s.log → Earlier (.added r o i) (.snapshot c) s.log →
        ¬ Earlier (.flagged r) (.snapshot c) s.log → .reached c i ∈ s.log) := by
  have hrec := recorded_reachable hs hw
  have hreg := registered_reachable hs
  have hlt := hrec.numbered _ hc c rfl
  obtain ⟨call, hcall⟩ : ∃ call, s.calls[c]? = some call :=
    ⟨_, List.getElem?_eq_getElem hlt⟩
  have hrecord := hrec.record c call hcall
  cases call with
  | removeAndWait o i p => exact absurd rfl (hrecord _ hc)
  | notify g bits p =>
    obtain ⟨⟨start, -, hwalked⟩, hfinished⟩ := hrecord
    refine ⟨?_, fun r o i hr => ⟨hwalked.once r, ⟨?_, ?_⟩, ?_⟩⟩
    · intro r o ho
      obtain ⟨-, i, hi, -⟩ := hwalked.called r o ho
      exact ⟨i, hi⟩
    · intro hone
      obtain ⟨o', ho'⟩ := actions_pos_iff.mp (lt_of_lt_of_eq Nat.one_pos hone.symm)
      obtain ⟨hle, j, hj, hreach, hflag⟩ := hwalked.called r o' ho'
      obtain ⟨rfl, rfl⟩ := hreg.unique r o o' i j hr hj
      exact ⟨(hwalked.before r o i hr).mpr hle, hreach, hflag⟩
    · rintro ⟨hbefore, hreach, hflag⟩
      have hle := (hwalked.before r o i hr).mp hbefore
      rcases hwalked.visited r o i hr hle (hwalked.passed i hreach) with
        ⟨hnot, -⟩ | ⟨-, hearly | hpos⟩
      · exact absurd hreach hnot
      · exact absurd hearly hflag
      · have honce := hwalked.once r
        omega
    · intro hf hbefore hflag
      obtain rfl := hfinished hf
      have hle := (hwalked.before r o i hr).mp hbefore
      rcases hwalked.visited r o i hr hle i.isLt with ⟨-, hearly⟩ | ⟨hreach, -⟩
      · exact absurd hearly hflag
      · exact hreach

section Runs

/-- In the action on 5 the slot of 6 is given to 7, and a nested notify acts on 5 and 7. The
outer call, which has 6 in its snapshot, then reaches that slot. -/
def refilledInAction : State ℕ Bool 2 8 :=
  (system ℕ Bool 2 8).after Machine.anyStep State.start
    ([.add false (some 5), .add false (some 6), .notify false, .resume false,
      .remove false (some 6), .add false (some 7), .notify false] ++
      List.replicate 8 (.resume false))

theorem snapshot_semantics_refilled : actions refilledInAction.log 0 1 = 1 :=
  ((snapshot_semantics (Machine.reachable_after initial_start (by decide +kernel))
    (by decide +kernel) (by decide +kernel)).2 1 5 0 (by decide +kernel)).2.1.mpr
    ⟨⟨refilledInAction.log.take 12, refilledInAction.log.drop 13, by decide +kernel,
      by decide +kernel⟩, by decide +kernel, fun h => absurd h.mem (by decide +kernel)⟩

end Runs

end CWrapper.ObserverList
