/-
# Languages only grow

Calls that add to an automaton take no transition away, so a path of the automaton is one of
every automaton that extends it (`Leads.of_extends`).  One more transition may change every
set of states that a run goes through, and let a run go on that used to break off; but each of
these sets is what paths lead to, and hence contains what it was (`mem_closure_of_extends`).
As long as no other start state is chosen, whatever was accepted stays accepted
(`accepts_afterAll`).
-/
import LexAutomata.Proofs.Automaton.History
import LexAutomata.Proofs.Automaton.LabelledPath

namespace LexAutomata.Automaton

variable {A B : Automaton} {calls : List Call}

/-! ## Extensions -/

/-- No target is lost. -/
theorem Extends.mem_targets (h : A.Extends B) {p q : Int} {l : Label} (hq : q ∈ A.targets p l) :
    q ∈ B.targets p l :=
  mem_transitions_iff.1 (h.transitions (p, l, q) (mem_transitions_iff.2 hq))

/-- **No path is lost.** -/
theorem Leads.of_extends {p r : Int} {w : List String} (hw : A.Leads p w r) (h : A.Extends B) :
    B.Leads p w r := by
  induction hw with
  | nil q => exact .nil q
  | epsilon hq _ ih => exact .epsilon (h.mem_targets hq) ih
  | symbol hq _ ih => exact .symbol (h.mem_targets hq) ih

/-- No state is lost from a closure. -/
theorem mem_closure_of_extends (h : A.Extends B) {S : StateSet} {q : Int} (hq : q ∈ A.closure S) :
    q ∈ B.closure S := by
  obtain ⟨p, hp, hpq⟩ := mem_closure_iff.1 hq
  exact mem_closure_iff.2 ⟨p, hp, hpq.of_extends h⟩

/-- **What was accepted from the start state is accepted from it.** -/
theorem accepts_of_extends (h : A.Extends B) (hstart : B.start = A.start) {word : String}
    (hword : A.accepts word = .ok true) : B.accepts word = .ok true := by
  obtain ⟨q, hq, r, hr, hqr⟩ := accepts_eq_ok_true_iff.1 hword
  exact accepts_eq_ok_true_iff.2 ⟨q, hstart.trans hq, r, h.finals r hr, hqr.of_extends h⟩

/-! ## Histories -/

/-- The call adds a state, a transition or a final state, and chooses no start state. -/
def Call.Adds (c : Call) : Prop := ∀ q, ¬ c = .setStart q

theorem Call.adds_iff {c : Call} : c.Adds ↔ c.start? = none := by
  cases c <;> simp [Adds, start?]

instance (c : Call) : Decidable c.Adds := decidable_of_iff _ Call.adds_iff.symm

/-- A call that adds leaves the start state, whether it is accepted or refused. -/
theorem start_after {c : Call} (hc : c.Adds) : (A.after c).start = A.start := by
  rcases A.after_cases c with hA | hgains
  · rw [hA]
  · rw [hgains.start_eq, Call.adds_iff.1 hc, Option.none_or]

theorem start_afterAll (hcalls : ∀ c ∈ calls, c.Adds) : (A.afterAll calls).start = A.start := by
  induction calls generalizing A with
  | nil => rfl
  | cons c calls ih =>
    obtain ⟨hc, hcalls⟩ := List.forall_mem_cons.1 hcalls
    exact (ih hcalls).trans (start_after hc)

/-- **Languages only grow.**  After calls that add, accepted or refused, an automaton with a start
state can still tell about every word; the words that it accepted it accepts; and the closure of
every set of states contains what it was. -/
theorem accepts_afterAll (A : Automaton) (hcalls : ∀ c ∈ calls, c.Adds) :
    (∀ q, A.start = some q → ∀ word, ∃ b, (A.afterAll calls).accepts word = .ok b) ∧
    (∀ word, A.accepts word = .ok true → (A.afterAll calls).accepts word = .ok true) ∧
    ∀ S, ∀ q ∈ A.closure S, q ∈ (A.afterAll calls).closure S := by
  have hext := A.extends_afterAll calls
  have hstart : (A.afterAll calls).start = A.start := start_afterAll hcalls
  exact ⟨fun q hq => exists_accepts_eq_ok (hstart.trans hq),
    fun word => accepts_of_extends hext hstart, fun S q => mem_closure_of_extends hext⟩

/-- Calls that add, two of which are refused. -/
def additions : List Call :=
  [.addTransition 3 9 (.text "xy"), .markFinal 9, .addTransition 5 5 (.text "b"),
    .addTransition 3 9 .epsilon, .markFinal 9, .addState 1]

theorem accepts_afterAll_unregistered :
    (∀ c ∈ additions, c.Adds) ∧ unregistered.start = some 7 ∧
    unregistered.accepts "ab" = .ok true ∧ 3 ∈ unregistered.closure (.singleton 7) ∧
    (∃ b, (unregistered.afterAll additions).accepts "b" = .ok b) ∧
    (unregistered.afterAll additions).accepts "ab" = .ok true ∧
    3 ∈ (unregistered.afterAll additions).closure (.singleton 7) := by
  have hcalls : ∀ c ∈ additions, c.Adds := by decide
  have hpath : unregistered.Leads 7 ["a", "b"] (-2) :=
    .epsilon (q := 3) (by decide) (.symbol (q := 5) (by decide)
      (.symbol (q := 4) (by decide) (.epsilon (by decide) (.nil (-2)))))
  have hword : unregistered.accepts "ab" = .ok true :=
    accepts_eq_ok_true_iff.2 ⟨7, rfl, -2, by decide, hpath⟩
  have hmem : 3 ∈ unregistered.closure (.singleton 7) :=
    mem_closure_iff.2 ⟨7, StateSet.mem_singleton.2 rfl, .epsilon (by decide) (.nil 3)⟩
  obtain ⟨htell, hgrow, hclosure⟩ := accepts_afterAll unregistered hcalls
  exact ⟨hcalls, rfl, hword, hmem, htell 7 rfl "b", hgrow "ab" hword, hclosure _ 3 hmem⟩

end LexAutomata.Automaton
