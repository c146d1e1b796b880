/-
# Paths by their labels

A path follows transitions from state to state, each of them under its label (`IsPath`); what
it consumes are the symbols among its labels, in order, epsilon being left out (`consumed`).
Reading along transitions is following some path that consumes what is read
(`leads_iff_exists_isPath`).  So an automaton accepts exactly the words that a path to a final
state spells, whether or not it is valid, and only one without a start state cannot tell
(`accepts_iff_exists_path`).
-/
import LexAutomata.Proofs.Automaton.Construction

namespace LexAutomata

/-- The symbols of labels, in order. -/
def consumed (ls : List Label) : List String := ls.filterMap Label.symbol?

namespace Automaton

variable {A : Automaton}

/-- Following the labels along transitions leads from one state to another. -/
inductive IsPath (A : Automaton) : Int → List Label → Int → Prop
  /-- Every state leads to itself. -/
  | nil (q : Int) : IsPath A q [] q
  /-- A transition comes before the rest of the path. -/
  | cons {p q r : Int} {l : Label} {ls : List Label} (h : (p, l, q) ∈ A.transitions)
      (hls : IsPath A q ls r) : IsPath A p (l :: ls) r

/-- A path reads what it consumes. -/
theorem IsPath.leads {p r : Int} {ls : List Label} (h : A.IsPath p ls r) :
    A.Leads p (consumed ls) r := by
  induction h with
  | nil => exact .nil _
  | @cons p q r l ls h _ ih =>
    rw [mem_transitions_iff] at h
    cases l with
    | epsilon => exact .epsilon h ih
    | symbol s => exact .symbol h ih

/-- What is read is consumed along a path. -/
theorem Leads.exists_isPath {p r : Int} {w : List String} (h : A.Leads p w r) :
    ∃ ls, A.IsPath p ls r ∧ consumed ls = w := by
  induction h with
  | nil q => exact ⟨[], .nil q, rfl⟩
  | epsilon h _ ih =>
    obtain ⟨ls, hls, rfl⟩ := ih
    exact ⟨.epsilon :: ls, .cons (mem_transitions_iff.2 h) hls, rfl⟩
  | @symbol p q r s w h _ ih =>
    obtain ⟨ls, hls, rfl⟩ := ih
    exact ⟨.symbol s :: ls, .cons (mem_transitions_iff.2 h) hls, rfl⟩

/-- **Reading is following a path.** -/
theorem leads_iff_exists_isPath {p r : Int} {w : List String} :
    A.Leads p w r ↔ ∃ ls, A.IsPath p ls r ∧ consumed ls = w := by
  constructor
  · exact Leads.exists_isPath
  · rintro ⟨ls, hls, rfl⟩
    exact hls.leads

/-- **Acceptance decides the existence of paths.**  Without a start state there is a violation.
With one there is an answer for every word, which is positive exactly when some path from the start
state to a final state consumes the characters of the word one after the other; what it does not
consume may stand anywhere in it. -/
theorem accepts_iff_exists_path (A : Automaton) (word : String) :
    (A.start = none → A.accepts word = .error (.noStart A.name)) ∧
      ∀ q, A.start = some q → ∃ b, A.accepts word = .ok b ∧
        (b = true ↔ ∃ ls r, A.IsPath q ls r ∧ r ∈ A.finals ∧ consumed ls = spell word) := by
  constructor
  · intro hstart
    rw [accepts, hstart]
  · intro q hstart
    refine ⟨A.acceptsFrom q (spell word), by rw [accepts, hstart], ?_⟩
    rw [acceptsFrom_eq_true_iff, Reads]
    constructor
    · rintro ⟨r, hr, hw⟩
      obtain ⟨ls, hls, hword⟩ := hw.exists_isPath
      exact ⟨ls, r, hls, hr, hword⟩
    · rintro ⟨ls, r, hls, hr, hword⟩
      exact ⟨r, hr, leads_iff_exists_isPath.2 ⟨ls, hls, hword⟩⟩

/-- An automaton that is not valid: none of its states is known to it.  It has a cycle of epsilon
transitions, an entry without a target, and a symbol of two characters. -/
def unregistered : Automaton :=
  ofParts "unregistered" [] (some 7) [-2]
    [(7, [(.epsilon, [3]), (.symbol "ab", [-2]), (.symbol "c", [])]),
      (3, [(.epsilon, [7]), (.symbol "a", [3, 5])]), (5, [(.symbol "b", [7, 4])]),
      (4, [(.epsilon, [-2])])]

theorem accepts_iff_exists_path_unregistered :
    (({ name := "lost" } : Automaton).start = none ∧
      ({ name := "lost" } : Automaton).accepts "ab" = .error (.noStart "lost")) ∧
      unregistered.start = some 7 ∧ ∃ b, unregistered.accepts "ab" = .ok b ∧
        (b = true ↔ ∃ ls r, unregistered.IsPath 7 ls r ∧ r ∈ unregistered.finals ∧
          consumed ls = spell "ab") :=
  ⟨⟨rfl, (accepts_iff_exists_path { name := "lost" } "ab").1 rfl⟩, rfl,
    (accepts_iff_exists_path unregistered "ab").2 7 rfl⟩

end Automaton

end LexAutomata
