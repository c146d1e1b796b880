/-
# Chains of listed words

The fragment of listed words spells each word along states of its own, so that no two
sequences of symbols lead from its start state to one state, and every other state stands on
the way to the end of some word.  Each new state keeps this for the word that has come to it,
and completing the word closes it (`Branching.connect`, `Branching.accept`).  Hence the
sequences that lead somewhere are those that some word begins with (`begins_iff`).
-/
import LexAutomata.Proofs.Pattern.Language

namespace LexAutomata

/-- The characters are those that some listed word begins with, or none. -/
def Begins (list : List String) (p : List Char) : Prop := p = [] ∨ ∃ w ∈ list, p <+: w.toList

namespace Automaton

variable {A : Automaton} {first p q r : Int} {c : Counter} {v w : List String}

/-- What leads on in two parts comes to a state between them. -/
theorem Leads.exists_of_append (h : A.Leads p (v ++ w) r) :
    ∃ q, A.Leads p v q ∧ A.Leads q w r := by
  induction v generalizing p with
  | nil => exact ⟨p, .nil p, h⟩
  | cons s v ih =>
    obtain ⟨q, q', hq, hstep, hr⟩ := h.exists_of_cons
    obtain ⟨m, hm, hw⟩ := ih hr
    exact ⟨m, hq.append (.symbol hstep hm), hw⟩

/-- A target is a target of some entry. -/
theorem hasEntry_of_mem_targets {l : Label} (h : r ∈ A.targets p l) : A.HasEntry p l := by
  rw [targets_eq] at h
  rw [HasEntry]
  cases hentry : entryOf A.rows p l with
  | none => rw [hentry] at h; exact absurd h (StateSet.not_mem_empty r)
  | some S => rfl

/-- What a draft reads are characters. -/
theorem Draft.exists_symbols_eq (hA : A.Draft first c) (h : A.Leads p w r) :
    ∃ v, w = symbols v := by
  induction h with
  | nil => exact ⟨[], rfl⟩
  | epsilon h _ _ =>
    obtain ⟨x, hx⟩ := hA.hasEntry _ _ (hasEntry_of_mem_targets h)
    cases hx
  | symbol h _ ih =>
    obtain ⟨x, hx⟩ := hA.hasEntry _ _ (hasEntry_of_mem_targets h)
    obtain ⟨v, rfl⟩ := ih
    cases hx
    exact ⟨x :: v, rfl⟩

/-! ## Growing along words -/

/-- The states lie on chains that spell words from the state `first`, and the last of these has come
to the state `p`. -/
structure Branching (A : Automaton) (first p : Int) : Prop where
  /-- No two sequences lead to one state. -/
  unique : ∀ u v q, A.Leads first u q → A.Leads first v q → u = v
  /-- Every entry leads somewhere. -/
  entries : ∀ q l, A.HasEntry q l → ∃ r, r ∈ A.targets q l
  /-- Every state but the first is on the way to a final state, or to the end of the last chain. -/
  ahead : ∀ q ∈ A.states, q = first ∨ (∃ w, A.Reads q w) ∨ ∃ w, A.Leads q w p

namespace Branching

/-- A single state branches, with no chain begun. -/
theorem lone (name : String) (q : Int) : (Automaton.lone name q).Branching q q where
  unique u v r hu hv := by
    have hnil : ∀ w, (Automaton.lone name q).Leads q w r → w = [] := by
      intro w hw
      cases hw with
      | nil => rfl
      | epsilon h _ => exact absurd h (StateSet.not_mem_empty _)
      | symbol h _ => exact absurd h (StateSet.not_mem_empty _)
    rw [hnil u hu, hnil v hv]
  entries r l hl := absurd hl (by simp [HasEntry, entryOf, Automaton.lone])
  ahead r hr := Or.inl (StateSet.mem_singleton.1 hr)

/-- **One more character** goes on with the last chain. -/
theorem connect (h : A.Branching first p) (hA : A.Draft first c) (hp : p ∈ A.states) (x : Char) :
    (A.connect p c.next (.ofChar x)).Branching first c.next := by
  have hB := Pattern.sprouts_connect hp hA.not_mem_next x
  refine ⟨?unique, ?entries, ?ahead⟩
  case unique =>
    intro u v q hu hv
    by_cases hq : q = c.next
    · -- the new state is reached through the end of the chain only
      subst hq
      rw [Pattern.leads_connect_iff hA hp hA.mem_first] at hu hv
      obtain ⟨u, rfl, hu⟩ := hu
      obtain ⟨v, rfl, hv⟩ := hv
      rw [h.unique u v p hu hv]
    · rw [hB.leads_iff hA.connected hq] at hu hv
      exact h.unique u v q hu hv
  case entries =>
    intro q l hl
    rcases hasEntry_connect.1 hl with hl | ⟨rfl, rfl⟩
    · obtain ⟨r, hr⟩ := h.entries q l hl
      exact ⟨r, mem_targets_connect.2 (Or.inl hr)⟩
    · exact ⟨c.next, mem_targets_connect.2 (Or.inr ⟨rfl, rfl, rfl⟩)⟩
  case ahead =>
    intro q hq
    rcases (hB.mem_states q).1 hq with rfl | hq
    · exact Or.inr (Or.inr ⟨[], .nil _⟩)
    · rcases h.ahead q hq with rfl | ⟨w, hw⟩ | ⟨w, hw⟩
      · exact Or.inl rfl
      · exact Or.inr (Or.inl ⟨w, (hB.reads_iff hA.connected hA.finals).2 hw⟩)
      · exact Or.inr (Or.inr ⟨_, (Pattern.leads_connect_iff hA hp hq x).2 ⟨w, rfl, hw⟩⟩)

/-- **The end of a word** closes the last chain. -/
theorem accept (h : A.Branching first p) : (Pattern.accept A p).Branching first first where
  unique u v q hu hv := h.unique u v q (leads_accept_iff.1 hu) (leads_accept_iff.1 hv)
  entries := h.entries
  ahead q hq := by
    rcases h.ahead q hq with rfl | ⟨w, hw⟩ | ⟨w, hw⟩
    · exact Or.inl rfl
    · exact Or.inr (Or.inl ⟨w, reads_accept_iff.2 (Or.inr hw)⟩)
    · exact Or.inr (Or.inl ⟨w, reads_accept_iff.2 (Or.inl hw)⟩)

/-- An automaton stays branching when the chain of a word is completed. -/
theorem addWord (h : A.Branching first p) (hA : A.Draft first c) (hp : p ∈ A.states)
    (v : List Char) : (Pattern.addWord A p c v).1.Branching first first := by
  induction v generalizing A p c with
  | nil => exact h.accept
  | cons x v ih =>
    have hB := Pattern.sprouts_connect hp hA.not_mem_next x
    exact ih (h.connect hA hp x) (hA.sprout hB) ((hB.mem_states _).2 (Or.inl rfl))

theorem addWords (h : A.Branching first first) (hA : A.Draft first c) (list : List String) :
    (Pattern.addWords A first c list).1.Branching first first := by
  induction list generalizing A c with
  | nil => exact h
  | cons v list ih =>
    have hv := h.addWord hA hA.mem_first v.toList
    exact ih hv (Pattern.spells_addWord hA hA.mem_first v.toList).draft

end Branching

end Automaton

/-! ## Fragments of listed words -/

namespace Pattern

open Automaton

/-- The fragment of listed words consists of chains. -/
theorem exists_fragment_words_eq (list : List String) (name : String) (c : Counter) :
    ∃ A c', (words list).fragment name c = (.ok A, c') ∧ IsFragment (.words list) c (A, c') ∧
      A.Branching c.next c.next :=
  ⟨_, _, rfl, isFragment_words c name list,
    (Branching.lone name c.next).addWords (Draft.lone name c) list⟩

/-- **What leads somewhere begins a word.** -/
theorem begins_iff {list : List String} {c c' : Counter} {A : Automaton}
    (hA : IsFragment (.words list) c (A, c')) (hbranching : A.Branching c.next c.next)
    {p : List Char} : Begins list p ↔ ∃ r, A.Leads c.next (symbols p) r := by
  constructor
  · rintro (rfl | ⟨w, hw, v, hv⟩)
    · exact ⟨c.next, .nil c.next⟩
    · obtain ⟨r, -, hr⟩ := (hA.reads_iff w.toList).2 (.word hw)
      rw [← hv, symbols_append] at hr
      obtain ⟨q, hq, -⟩ := hr.exists_of_append
      exact ⟨q, hq⟩
  · rintro ⟨q, hq⟩
    rcases hbranching.ahead q (hA.draft.valid.mem_of_leads hA.draft.mem_first hq) with
      rfl | ⟨w, r, hr, hw⟩ | ⟨w, hw⟩
    · -- only the empty sequence leads to the start state
      exact Or.inl (symbols_injective (hA.draft.leads_first_iff.1 hq))
    · obtain ⟨v, rfl⟩ := hA.draft.exists_symbols_eq hw
      have hword : (words list).Describes (p ++ v) := by
        rw [← hA.reads_iff, symbols_append]
        exact ⟨r, hr, hq.append hw⟩
      refine Or.inr ⟨_, describes_words_iff.1 hword, v, ?_⟩
      rw [String.toList_ofList]
    · have hnil := hA.draft.leads_first_iff.1 (hq.append hw)
      exact Or.inl (symbols_injective (List.append_eq_nil_iff.1 hnil).1)

end Pattern

end LexAutomata
