/-
# The least closed set

The closure of a set consists of the states that epsilon edges lead to from its members
(`mem_closure_iff_reflTransGen`).  It is closed, no epsilon edge leading out of it, and it
is contained in every closed set that contains the set (`isLeast_closure`).  So closing
again adds nothing, a larger set has a larger closure, and the parts of a union can be
closed one by one.

A loop with a stack computes it.  What was met is never forgotten, everything met is in the
closure, and a state that was met is on the stack or has had its targets met
(`Closing.Sound`); an empty stack therefore means that what was met is closed.  Each state
goes on the stack once, when it is met, so that the turns that were taken and the states on
the stack are together as many as the states that were met.  A turn keeps all of this,
whatever the order of the targets (`Closing.Sound.turn`), and the loop ends after as many
turns as the closure has states (`closing_returns_least`).
-/
import Mathlib.Data.List.Nodup
import Mathlib.Data.List.Perm.Subperm
import Mathlib.Data.Set.Function
import Mathlib.Logic.Relation
import Mathlib.Order.Bounds.Basic
import LexAutomata.Automaton.Closing
import LexAutomata.Proofs.Automaton.Construction

namespace LexAutomata

namespace StateSet

variable {S T : StateSet} {q : Int}

/-- A new number makes the list longer by one. -/
theorem length_insertAscending {l : List Int} (h : ¬ q ∈ l) :
    (insertAscending q l).length = l.length + 1 := by
  induction l with
  | nil => rfl
  | cons p l ih =>
    rw [List.mem_cons, not_or] at h
    rw [insertAscending]
    split
    · rfl
    · rw [if_neg h.1, List.length_cons, ih h.2, List.length_cons]

/-- A new member makes a set larger by one. -/
theorem size_insert (h : ¬ q ∈ S) : (S.insert q).size = S.size + 1 := length_insertAscending h

/-- A set has no more members than one that it is mapped into without collisions. -/
theorem size_le_of_injOn {f : Int → Int} (hf : Set.InjOn f {q | q ∈ S}) (hmem : ∀ q ∈ S, f q ∈ T) :
    S.size ≤ T.size := by
  have hnodup : (S.toList.map f).Nodup := (nodup_toList S).map_on fun _ hp _ hq => hf hp hq
  have hsub : S.toList.map f ⊆ T.toList := by
    intro r hr
    obtain ⟨q, hq, rfl⟩ := List.mem_map.1 hr
    exact hmem q hq
  have hle := (hnodup.subperm hsub).length_le
  rwa [List.length_map] at hle

/-- A set has no more members than one that contains it. -/
theorem size_le_of_forall_mem (h : ∀ q ∈ S, q ∈ T) : S.size ≤ T.size :=
  size_le_of_injOn (Set.injOn_id _) h

end StateSet

namespace Automaton

variable {A : Automaton} {S T : StateSet} {p q r : Int}

/-! ## Epsilon edges -/

/-- Some transition leads from one state to the other and consumes nothing. -/
def EpsilonEdge (A : Automaton) (p q : Int) : Prop := (p, .epsilon, q) ∈ A.transitions

instance : Decidable (A.EpsilonEdge p q) := inferInstanceAs (Decidable (_ ∈ A.transitions))

/-- An epsilon edge leads to a target under epsilon. -/
theorem epsilonEdge_iff : A.EpsilonEdge p q ↔ q ∈ A.targets p .epsilon := mem_transitions_iff

/-- A path that reads nothing follows epsilon edges. -/
theorem leads_nil_iff : A.Leads p [] r ↔ Relation.ReflTransGen A.EpsilonEdge p r := by
  constructor
  · intro h
    generalize hw : ([] : List String) = w at h
    induction h with
    | nil => exact .refl
    | epsilon h _ ih => exact .head (epsilonEdge_iff.2 h) (ih hw)
    | symbol => cases hw
  · intro h
    induction h using Relation.ReflTransGen.head_induction_on with
    | refl => exact .nil r
    | head h _ ih => exact .epsilon (epsilonEdge_iff.1 h) ih

/-- **The closure of a set is what epsilon edges lead to from its members.** -/
theorem mem_closure_iff_reflTransGen :
    r ∈ A.closure S ↔ ∃ q ∈ S, Relation.ReflTransGen A.EpsilonEdge q r := by
  simp only [mem_closure_iff, leads_nil_iff]

/-! ## The least closed set -/

/-- No epsilon edge leads out of the set. -/
def EpsilonClosed (A : Automaton) (T : Set Int) : Prop := ∀ p ∈ T, ∀ q, A.EpsilonEdge p q → q ∈ T

/-- Whether a set of states is closed is seen from the transitions. -/
theorem epsilonClosed_iff : A.EpsilonClosed {q | q ∈ T} ↔
    ∀ t ∈ A.transitions, t.2.1 = .epsilon → t.1 ∈ T → t.2.2 ∈ T := by
  constructor
  · rintro h ⟨p, l, q⟩ hpq hl hp
    obtain rfl : l = .epsilon := hl
    exact h p hp q hpq
  · intro h p hp q hpq
    exact h (p, .epsilon, q) hpq rfl hp

instance : Decidable (A.EpsilonClosed {q | q ∈ T}) := decidable_of_iff _ epsilonClosed_iff.symm

/-- The closure holds the states that it starts from. -/
theorem mem_closure_of_mem (hq : q ∈ S) : q ∈ A.closure S :=
  mem_closure_iff_reflTransGen.2 ⟨q, hq, .refl⟩

/-- No epsilon edge leaves the closure. -/
theorem epsilonClosed_closure : A.EpsilonClosed {q | q ∈ A.closure S} := by
  intro p hp q hpq
  obtain ⟨s, hs, hsp⟩ := mem_closure_iff_reflTransGen.1 hp
  exact mem_closure_iff_reflTransGen.2 ⟨s, hs, hsp.tail hpq⟩

/-- A closed set that contains a set contains its closure. -/
theorem mem_of_mem_closure {T : Set Int} (hS : ∀ q ∈ S, q ∈ T) (hT : A.EpsilonClosed T)
    (hr : r ∈ A.closure S) : r ∈ T := by
  obtain ⟨q, hq, hqr⟩ := mem_closure_iff_reflTransGen.1 hr
  clear hr
  induction hqr with
  | refl => exact hS q hq
  | tail _ h ih => exact hT _ ih _ h

/-- **The closure of a set is the least closed set that contains it.** -/
theorem isLeast_closure (A : Automaton) (S : StateSet) :
    IsLeast {T : Set Int | (∀ q ∈ S, q ∈ T) ∧ A.EpsilonClosed T} {q | q ∈ A.closure S} :=
  ⟨⟨fun _ => mem_closure_of_mem, epsilonClosed_closure⟩, fun _ hT _ => mem_of_mem_closure hT.1 hT.2⟩

/-- A larger set has a larger closure. -/
theorem closure_mono (h : ∀ q ∈ S, q ∈ T) (hr : r ∈ A.closure S) : r ∈ A.closure T :=
  mem_of_mem_closure (T := {q | q ∈ A.closure T}) (fun q hq => mem_closure_of_mem (h q hq))
    epsilonClosed_closure hr

/-- Closing a closed set adds nothing. -/
theorem closure_eq_self (h : A.EpsilonClosed {q | q ∈ S}) : A.closure S = S := by
  apply StateSet.ext
  intro r
  constructor
  · exact mem_of_mem_closure (T := {q | q ∈ S}) (fun _ hq => hq) h
  · exact mem_closure_of_mem

/-- The closure of many sets together is the closures together. -/
theorem closure_unions (parts : List StateSet) :
    A.closure (.unions parts) = .unions (parts.map A.closure) := by
  apply StateSet.ext
  intro r
  rw [mem_closure_iff, StateSet.mem_unions]
  simp only [StateSet.mem_unions, List.mem_map, exists_exists_and_eq_and, mem_closure_iff]
  constructor
  · rintro ⟨q, ⟨S, hS, hq⟩, h⟩
    exact ⟨S, hS, q, hq, h⟩
  · rintro ⟨S, hS, q, hq, h⟩
    exact ⟨q, ⟨S, hS, hq⟩, h⟩

/-- The closure of a union is the union of the closures. -/
theorem closure_union : A.closure (S ∪ T) = A.closure S ∪ A.closure T := by
  apply StateSet.ext
  intro r
  simp only [mem_closure_iff, StateSet.mem_union, or_and_right, exists_or]

/-! ## Turns of the loop -/

namespace Closing

variable {c d : Closing} {qs : List Int} {n : Nat}

theorem meet_of_mem (h : q ∈ c.met) : c.meet q = c := if_pos h

theorem meet_of_not_mem (h : ¬ q ∈ c.met) : c.meet q = ⟨c.met.insert q, q :: c.stack⟩ := if_neg h

/-- Meeting a state adds it to those that were met. -/
theorem mem_met_meet : r ∈ (c.meet q).met ↔ r = q ∨ r ∈ c.met := by
  by_cases hq : q ∈ c.met
  · rw [meet_of_mem hq, or_iff_right_of_imp]
    rintro rfl
    exact hq
  · rw [meet_of_not_mem hq, StateSet.mem_insert]

/-- A state that is met for the first time goes onto the stack. -/
theorem mem_stack_meet : r ∈ (c.meet q).stack ↔ r ∈ c.stack ∨ r = q ∧ ¬ q ∈ c.met := by
  by_cases hq : q ∈ c.met
  · simp [meet_of_mem hq, hq]
  · simp [meet_of_not_mem hq, hq, or_comm]

/-- Meeting a state adds as many states to the stack as to those that were met. -/
theorem size_met_meet (c : Closing) (q : Int) :
    (c.meet q).met.size + c.stack.length = c.met.size + (c.meet q).stack.length := by
  by_cases hq : q ∈ c.met
  · rw [meet_of_mem hq]
  · rw [meet_of_not_mem hq, StateSet.size_insert hq, List.length_cons]
    omega

theorem meetAll_cons : c.meetAll (q :: qs) = (c.meet q).meetAll qs := rfl

/-- Meeting states adds all of them to those that were met. -/
theorem mem_met_meetAll : r ∈ (c.meetAll qs).met ↔ r ∈ c.met ∨ r ∈ qs := by
  induction qs generalizing c with
  | nil => simp [meetAll]
  | cons q qs ih => rw [meetAll_cons, ih, mem_met_meet, List.mem_cons, or_assoc, or_left_comm]

/-- What is on the stack after states were met was there before, or is new. -/
theorem mem_stack_meetAll :
    r ∈ (c.meetAll qs).stack ↔ r ∈ c.stack ∨ r ∈ qs ∧ ¬ r ∈ c.met := by
  induction qs generalizing c with
  | nil => simp [meetAll]
  | cons q qs ih =>
    rw [meetAll_cons, ih, mem_stack_meet, mem_met_meet, List.mem_cons]
    by_cases hr : r = q
    · subst hr
      simp
    · simp [hr]

/-- As many states go on the stack as are new. -/
theorem size_met_meetAll (c : Closing) (qs : List Int) :
    (c.meetAll qs).met.size + c.stack.length = c.met.size + (c.meetAll qs).stack.length := by
  induction qs generalizing c with
  | nil => rfl
  | cons q qs ih =>
    have hmeet := size_met_meet c q
    have hrest := ih (c.meet q)
    rw [meetAll_cons]
    omega

/-- What holds while a set is closed, when `n` turns are left. -/
structure Sound (A : Automaton) (S : StateSet) (n : Nat) (c : Closing) : Prop where
  /-- The set was met. -/
  mem_met : ∀ q ∈ S, q ∈ c.met
  /-- Nothing was met that is not in the closure. -/
  mem_closure : ∀ q ∈ c.met, q ∈ A.closure S
  /-- What is on the stack was met. -/
  stack : ∀ q ∈ c.stack, q ∈ c.met
  /-- The targets of a state were met, unless it is on the stack. -/
  explored : ∀ p ∈ c.met, ¬ p ∈ c.stack → ∀ q, A.EpsilonEdge p q → q ∈ c.met
  /-- A turn is left for each state on the stack and each that was not met. -/
  turns : n + c.met.size = (A.closure S).size + c.stack.length

/-- At the beginning all of the set is on the stack. -/
theorem sound_start {stack : List Int} (h : stack.Perm S.toList) :
    Sound A S (A.closure S).size ⟨S, stack⟩ where
  mem_met _ hq := hq
  mem_closure _ := mem_closure_of_mem
  stack _ hq := h.mem_iff.1 hq
  explored _ hp hstack := absurd (h.mem_iff.2 hp) hstack
  turns := congrArg ((A.closure S).size + ·) h.length_eq.symm

/-- **A turn leaves one turn less**, in whichever order it meets the targets. -/
theorem Sound.turn (h : Sound A S (n + 1) c) (hd : Turn A c d) : Sound A S n d := by
  cases hd with
  | @take met p rest qs hqs =>
    have hedge : ∀ q, q ∈ qs ↔ A.EpsilonEdge p q := fun q => hqs.mem_iff.trans epsilonEdge_iff.symm
    have hp : p ∈ met := h.stack p List.mem_cons_self
    constructor
    case mem_met =>
      intro q hq
      exact mem_met_meetAll.2 (Or.inl (h.mem_met q hq))
    case mem_closure =>
      intro q hq
      rcases mem_met_meetAll.1 hq with hq | hq
      · exact h.mem_closure q hq
      · exact epsilonClosed_closure p (h.mem_closure p hp) q ((hedge q).1 hq)
    case stack =>
      intro q hq
      rcases mem_stack_meetAll.1 hq with hq | ⟨hq, -⟩
      · exact mem_met_meetAll.2 (Or.inl (h.stack q (List.mem_cons_of_mem p hq)))
      · exact mem_met_meetAll.2 (Or.inr hq)
    case explored =>
      intro s hs hstack q hq
      rw [mem_stack_meetAll, not_or] at hstack
      -- a state that is not on the stack was met before, and is the one taken off or was explored
      have hmet : s ∈ met := by
        by_contra hmet
        exact hstack.2 ⟨(mem_met_meetAll.1 hs).resolve_left hmet, hmet⟩
      rw [mem_met_meetAll]
      by_cases hsp : s = p
      · subst hsp
        exact Or.inr ((hedge q).2 hq)
      · refine Or.inl (h.explored s hmet ?_ q hq)
        exact fun hmem => (List.mem_cons.1 hmem).elim hsp hstack.1
    case turns =>
      have hturns := h.turns
      have hsize := size_met_meetAll ⟨met, rest⟩ qs
      simp only [List.length_cons] at hturns hsize
      omega

/-- With an empty stack the closure was met. -/
theorem Sound.met_eq (h : Sound A S n c) (hstack : c.stack = []) : c.met = A.closure S := by
  apply StateSet.ext
  intro q
  constructor
  · exact h.mem_closure q
  · apply mem_of_mem_closure (T := {q | q ∈ c.met}) h.mem_met
    intro p hp q hpq
    exact h.explored p hp (by simp [hstack]) q hpq

/-- The stack is empty when no turn is left, and only then. -/
theorem Sound.stack_eq_nil_iff (h : Sound A S n c) : c.stack = [] ↔ n = 0 := by
  have hturns := h.turns
  constructor
  · intro hstack
    rw [h.met_eq hstack, hstack, List.length_nil] at hturns
    omega
  · intro hn
    have hle := StateSet.size_le_of_forall_mem h.mem_closure
    exact List.eq_nil_of_length_eq_zero (by omega)

/-- **The loop ends**, and has met the closure then. -/
theorem Sound.returns (h : Sound A S n c) : Returns A (A.closure S) n c := by
  induction n generalizing c with
  | zero =>
    have hstack := h.stack_eq_nil_iff.2 rfl
    have hc : c = ⟨A.closure S, []⟩ := by rw [← h.met_eq hstack, ← hstack]
    rw [hc]
    exact .done
  | succ n ih =>
    refine .turn ?_ fun d hd => ih (h.turn hd)
    obtain ⟨met, stack⟩ := c
    cases stack with
    | nil => exact absurd (h.stack_eq_nil_iff.1 rfl) (Nat.succ_ne_zero n)
    | cons p rest => exact ⟨_, .take (List.Perm.refl _)⟩

end Closing

/-! ## The closure -/

/-- **Closing returns the least closed set.**  In whatever order the states come, the loop over the
stack takes one turn for each state of the closure and returns the closure.  This consists of the
states that epsilon edges lead to from the set, and it is the least closed set that contains the
set; closing is idempotent and monotone, and distributes over unions. -/
theorem closing_returns_least (A : Automaton) (S : StateSet) :
    (∀ stack : List Int, stack.Perm S.toList →
      Closing.Returns A (A.closure S) (A.closure S).size ⟨S, stack⟩) ∧
    (∀ r, r ∈ A.closure S ↔ ∃ q ∈ S, Relation.ReflTransGen A.EpsilonEdge q r) ∧
    IsLeast {T : Set Int | (∀ q ∈ S, q ∈ T) ∧ A.EpsilonClosed T} {q | q ∈ A.closure S} ∧
    A.closure (A.closure S) = A.closure S ∧
    (∀ T : StateSet, (∀ q ∈ S, q ∈ T) → ∀ q ∈ A.closure S, q ∈ A.closure T) ∧
    (∀ T : StateSet, A.closure (S ∪ T) = A.closure S ∪ A.closure T) ∧
    ∀ parts : List StateSet, A.closure (.unions parts) = .unions (parts.map A.closure) :=
  ⟨fun _ hstack => (Closing.sound_start hstack).returns, fun _ => mem_closure_iff_reflTransGen,
    isLeast_closure A S, closure_eq_self epsilonClosed_closure,
    fun _ hT _ => closure_mono hT, fun _ => closure_union, closure_unions⟩

/-- An automaton with an epsilon cycle of two states, one of which has an edge to itself and the
other an edge to a state that it does not know and that has no row. -/
def whirl : Automaton :=
  ofParts "whirl" [1, 2, 4, 5] (some 1) [5]
    [(1, [(.epsilon, [1, 2])]), (2, [(.epsilon, [1, 9]), (.symbol "a", [4])]),
      (4, [(.epsilon, [5])])]

/-- A state of the cycle, and one that the automaton does not know. -/
def whirled : StateSet := .ofList [1, 50]

theorem closure_whirled : whirl.closure whirled = .ofList [1, 2, 9, 50] := by
  have h1 : 1 ∈ whirl.closure whirled := mem_closure_of_mem (by decide)
  have h2 : 2 ∈ whirl.closure whirled := epsilonClosed_closure 1 h1 2 (by decide)
  have h9 : 9 ∈ whirl.closure whirled := epsilonClosed_closure 2 h2 9 (by decide)
  have h50 : 50 ∈ whirl.closure whirled := mem_closure_of_mem (by decide)
  apply StateSet.ext
  intro q
  constructor
  · exact mem_of_mem_closure (T := {q | q ∈ StateSet.ofList [1, 2, 9, 50]}) (by decide) (by decide)
  · rw [StateSet.mem_ofList]
    simp only [List.mem_cons, List.not_mem_nil, or_false]
    rintro (rfl | rfl | rfl | rfl) <;> assumption

theorem closing_returns_least_whirl :
    ([50, 1].Perm whirled.toList ∧
      Closing.Returns whirl (.ofList [1, 2, 9, 50]) 4 ⟨whirled, [50, 1]⟩) ∧
    (∃ q ∈ whirled, Relation.ReflTransGen whirl.EpsilonEdge q 9) ∧
    IsLeast {T : Set Int | (∀ q ∈ whirled, q ∈ T) ∧ whirl.EpsilonClosed T}
      {q | q ∈ StateSet.ofList [1, 2, 9, 50]} ∧
    ((∀ q ∈ whirled, q ∈ whirled.insert 4) ∧ 9 ∈ whirl.closure (whirled.insert 4)) := by
  have hstack : [50, 1].Perm whirled.toList := by decide
  have hmono : ∀ q ∈ whirled, q ∈ whirled.insert 4 := by
    intro q hq
    exact StateSet.mem_insert.2 (Or.inr hq)
  obtain ⟨hreturns, hreach, hleast, -, hclosed, -⟩ := closing_returns_least whirl whirled
  have hmem : 9 ∈ whirl.closure whirled := by rw [closure_whirled]; decide
  rw [closure_whirled] at hleast hreturns
  exact ⟨⟨hstack, hreturns _ hstack⟩, (hreach 9).1 hmem, hleast, hmono, hclosed _ hmono 9 hmem⟩

end Automaton

end LexAutomata
