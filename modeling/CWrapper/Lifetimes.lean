import Mathlib.Data.List.Basic
import Mathlib.Data.List.Count
import Mathlib.Data.List.Nodup

/-!
Traces of what is constructed and destructed at places. Nothing is constructed over something live
and nothing is destructed that is not live exactly when the two alternate at each place.
-/
namespace CWrapper.Lifetimes

inductive Event (P : Type*)
  | construct (place : P)
  | destruct (place : P)
  deriving DecidableEq, Repr

variable {P : Type*}

def Event.place : Event P → P
  | construct place => place
  | destruct place => place

variable [DecidableEq P]

def eventsAt (trace : List (Event P)) (x : P) : List (Event P) :=
  trace.filter fun e => decide (e.place = x)

def Live (trace : List (Event P)) (x : P) : Prop :=
  (eventsAt trace x).getLast? = some (.construct x)

instance (trace : List (Event P)) (x : P) : Decidable (Live trace x) :=
  inferInstanceAs (Decidable (_ = _))

/-- The events at a place are construct, destruct, construct, destruct, and so on. They end with
a construct if the place is live. -/
def Alternates (trace : List (Event P)) (x : P) (live : Bool) : Prop :=
  ∃ n, eventsAt trace x = (List.replicate n [Event.construct x, .destruct x]).flatten ++
    if live then [.construct x] else []

variable {trace events : List (Event P)} {x y : P} {live : Bool}

theorem eventsAt_append (trace events : List (Event P)) (x : P) :
    eventsAt (trace ++ events) x = eventsAt trace x ++ eventsAt events x := by
  rw [eventsAt, List.filter_append]
  rfl

theorem alternates_nil (x : P) : Alternates [] x false := ⟨0, rfl⟩

theorem Alternates.live_iff (h : Alternates trace x live) : Live trace x ↔ live = true := by
  obtain ⟨n, hn⟩ := h
  rw [Live, hn]
  cases live with
  | true => simp
  | false =>
    cases n with
    | zero => simp
    | succ n => simp [List.replicate_succ']

theorem Alternates.construct (h : Alternates trace x false) :
    Alternates (trace ++ [.construct x]) x true := by
  obtain ⟨n, hn⟩ := h
  refine ⟨n, ?_⟩
  rw [eventsAt_append, hn]
  simp [eventsAt, Event.place]

/-- What happens at other places makes no difference. -/
theorem Alternates.other (h : Alternates trace x live) (hother : ∀ e ∈ events, e.place ≠ x) :
    Alternates (trace ++ events) x live := by
  have hnone : eventsAt events x = [] := by
    rw [eventsAt, List.filter_eq_nil_iff]
    intro e he
    simpa using hother e he
  obtain ⟨n, hn⟩ := h
  refine ⟨n, ?_⟩
  rw [eventsAt_append, hnone, List.append_nil, hn]

theorem Alternates.destruct (h : Alternates trace x true) :
    Alternates (trace ++ [.destruct x]) x false := by
  obtain ⟨n, hn⟩ := h
  refine ⟨n + 1, ?_⟩
  rw [eventsAt_append, hn, List.replicate_succ', List.flatten_append]
  simp [eventsAt, Event.place]

/-- All live places may be destructed one after the other. -/
theorem Alternates.destructAll (h : Alternates trace x live) {places : List P}
    (hnodup : places.Nodup) (hlive : x ∈ places ↔ live = true) :
    Alternates (trace ++ places.map .destruct) x false := by
  induction places generalizing trace live with
  | nil =>
    have hdead : live = false := by simpa using hlive
    rw [hdead] at h
    simpa using h
  | cons y places ih =>
    obtain ⟨hy, htail⟩ := List.nodup_cons.mp hnodup
    rw [List.map_cons, List.append_cons]
    by_cases hx : y = x
    · subst hx
      have hyes : live = true := hlive.mp List.mem_cons_self
      rw [hyes] at h
      exact ih h.destruct htail (by simpa using hy)
    · have hrest : Alternates (trace ++ [.destruct y]) x live :=
        h.other fun e he => by
          rw [List.mem_singleton.mp he]
          exact hx
      exact ih hrest htail (by rw [← hlive, List.mem_cons, or_iff_right (Ne.symm hx)])

end CWrapper.Lifetimes
