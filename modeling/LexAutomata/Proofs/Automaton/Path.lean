/-
# Paths of an automaton

A path leads from state to state along transitions, and reads the symbols of those that
consume one (`Leads`).  The closure of a set is what its members lead to without reading
(`mem_closure_iff`), and a run ends in the states that paths with its symbols lead to
(`mem_run_closure_iff`).  So a word is accepted exactly when a path that reads it leads
from the start state to a final state (`accepts_eq_ok_true_iff`).
-/
import LexAutomata.Proofs.Table.Determinization

namespace LexAutomata

theorem StateSet.meets_eq_true_iff {S T : StateSet} : S.meets T = true ↔ ∃ q ∈ S, q ∈ T := by
  rw [meets, List.any_eq_true]
  simp only [decide_eq_true_eq, StateSet.mem_toList]

namespace Automaton

variable {A : Automaton}

/-- Reading symbols along transitions leads from one state to another. -/
inductive Leads (A : Automaton) : Int → List String → Int → Prop
  /-- Every state leads to itself. -/
  | nil (q : Int) : Leads A q [] q
  /-- A transition that consumes nothing comes before the rest of the path. -/
  | epsilon {p q r : Int} {w : List String} (h : q ∈ A.targets p .epsilon) (hw : Leads A q w r) :
      Leads A p w r
  /-- A transition that consumes a symbol comes before the rest of the path. -/
  | symbol {p q r : Int} {s : String} {w : List String} (h : q ∈ A.targets p (.symbol s))
      (hw : Leads A q w r) : Leads A p (s :: w) r

namespace Leads

variable {p q r : Int} {s : String} {v w : List String}

theorem append (hv : A.Leads p v q) (hw : A.Leads q w r) : A.Leads p (v ++ w) r := by
  induction hv with
  | nil => exact hw
  | epsilon h _ ih => exact .epsilon h (ih hw)
  | symbol h _ ih => exact .symbol h (ih hw)

/-- A path ends where it began, or its last step is a transition. -/
theorem eq_or_exists_last (h : A.Leads p w r) :
    (w = [] ∧ r = p) ∨ ∃ q, (A.Leads p w q ∧ r ∈ A.targets q .epsilon) ∨
      ∃ v s, w = v ++ [s] ∧ A.Leads p v q ∧ r ∈ A.targets q (.symbol s) := by
  induction h with
  | nil => exact Or.inl ⟨rfl, rfl⟩
  | @epsilon p q' r w h hw ih =>
    obtain ⟨rfl, rfl⟩ | ⟨q, ⟨hq, hr⟩ | ⟨v, s, rfl, hq, hr⟩⟩ := ih
    · exact Or.inr ⟨p, Or.inl ⟨.nil p, h⟩⟩
    · exact Or.inr ⟨q, Or.inl ⟨.epsilon h hq, hr⟩⟩
    · exact Or.inr ⟨q, Or.inr ⟨v, s, rfl, .epsilon h hq, hr⟩⟩
  | @symbol p q' r t w h hw ih =>
    obtain ⟨rfl, rfl⟩ | ⟨q, ⟨hq, hr⟩ | ⟨v, s, rfl, hq, hr⟩⟩ := ih
    · exact Or.inr ⟨p, Or.inr ⟨[], t, rfl, .nil p, h⟩⟩
    · exact Or.inr ⟨q, Or.inl ⟨.symbol h hq, hr⟩⟩
    · exact Or.inr ⟨q, Or.inr ⟨t :: v, s, rfl, .symbol h hq, hr⟩⟩

/-- A path that reads something comes to a transition that consumes the first symbol. -/
theorem exists_of_cons (h : A.Leads p (s :: w) r) :
    ∃ q q', A.Leads p [] q ∧ q' ∈ A.targets q (.symbol s) ∧ A.Leads q' w r := by
  generalize hv : s :: w = v at h
  induction h with
  | nil => cases hv
  | epsilon h _ ih =>
    obtain ⟨q, q', hq, hq', hr⟩ := ih hv
    exact ⟨q, q', .epsilon h hq, hq', hr⟩
  | symbol h hw =>
    cases hv
    exact ⟨_, _, .nil _, h, hw⟩

end Leads

/-! ## Closures and runs -/

/-- **The closure of a set is what its members lead to without reading.** -/
theorem mem_closure_iff {S : StateSet} {r : Int} :
    r ∈ A.closure S ↔ ∃ q ∈ S, A.Leads q [] r := by
  rw [closure, StateSet.mem_ofList, Graph.mem_search_iff]
  constructor
  · intro h
    induction h with
    | start h => exact ⟨_, h, .nil _⟩
    | step _ hr ih =>
      obtain ⟨q, hq, hp⟩ := ih
      exact ⟨q, hq, hp.append (.epsilon hr (.nil _))⟩
  · rintro ⟨q, hq, h⟩
    have hstart : A.epsilonGraph.Reaches S.toList q := .start hq
    clear hq
    generalize hw : ([] : List String) = w at h
    induction h with
    | nil => exact hstart
    | epsilon h _ ih => exact ih (hstart.step h) hw
    | symbol => cases hw

/-- **A run ends in the states that paths with its symbols lead to.** -/
theorem mem_run_closure_iff {S : StateSet} {w : List String} {r : Int} :
    r ∈ A.run (A.closure S) w ↔ ∃ q ∈ S, A.Leads q w r := by
  induction w generalizing S with
  | nil => exact mem_closure_iff
  | cons s w ih =>
    rw [run_cons, successor, ih]
    constructor
    · rintro ⟨q', hq', hr⟩
      obtain ⟨q, hq, hstep⟩ := mem_move.1 hq'
      obtain ⟨p, hp, hpq⟩ := mem_closure_iff.1 hq
      exact ⟨p, hp, hpq.append (.symbol hstep hr)⟩
    · rintro ⟨p, hp, h⟩
      obtain ⟨q, q', hpq, hstep, hr⟩ := h.exists_of_cons
      exact ⟨q', mem_move.2 ⟨q, mem_closure_iff.2 ⟨p, hp, hpq⟩, hstep⟩, hr⟩

/-! ## Acceptance -/

/-- Does a path that reads the symbols lead from a state to a final state? -/
def Reads (A : Automaton) (q : Int) (w : List String) : Prop := ∃ r ∈ A.finals, A.Leads q w r

theorem acceptsFrom_eq_true_iff {q : Int} {w : List String} :
    A.acceptsFrom q w = true ↔ A.Reads q w := by
  rw [acceptsFrom, simulate_eq_acceptsFromSet, acceptsFromSet, StateSet.meets_eq_true_iff, Reads]
  constructor
  · rintro ⟨r, hr, hfin⟩
    obtain ⟨p, hp, h⟩ := mem_run_closure_iff.1 hr
    rw [StateSet.mem_singleton] at hp
    exact ⟨r, hfin, hp ▸ h⟩
  · rintro ⟨r, hfin, h⟩
    exact ⟨r, mem_run_closure_iff.2 ⟨q, StateSet.mem_singleton.2 rfl, h⟩, hfin⟩

/-- **A word is accepted exactly when a path reads it** from the start state to a final state. -/
theorem accepts_eq_ok_true_iff {word : String} :
    A.accepts word = .ok true ↔ ∃ q, A.start = some q ∧ A.Reads q (spell word) := by
  rw [accepts]
  cases A.start with
  | none => simp
  | some q => simp [acceptsFrom_eq_true_iff]

/-- An automaton with a start state can tell about every word. -/
theorem exists_accepts_eq_ok {q : Int} (hq : A.start = some q) (word : String) :
    ∃ b, A.accepts word = .ok b := by
  rw [accepts, hq]
  exact ⟨_, rfl⟩

end Automaton

end LexAutomata
