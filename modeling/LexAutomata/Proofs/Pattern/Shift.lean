/-
# Shifted fragments

Fragments that are built from a counter further on are the same fragments with their
states shifted as far.  Adding a constant is injective, so it commutes with every piece of a
fragment (`shift_addRun`, `shift_addWords`), and the counter is shifted along with the
automaton (`fragment_shift`).  So it is for all fragments that a catalogue builds one after
the other (`buildAll_shift`).
-/
import LexAutomata.Pattern.Catalogue
import LexAutomata.Proofs.Automaton.Renaming

namespace LexAutomata

/-- The counter with another number of states handed out before. -/
def Counter.shift (d : Int) (c : Counter) : Counter := ⟨c.next + d⟩

/-- The next state of a shifted counter is the shifted next state. -/
theorem Counter.next_shift (d : Int) (c : Counter) : (c.shift d).next = c.next + d := rfl

/-- A counter may be shifted before or after a state is handed out. -/
theorem Counter.advance_shift (d : Int) (c : Counter) :
    (c.shift d).advance = c.advance.shift d := by
  rw [advance, shift, shift, advance, Int.add_right_comm]

/-- The automaton with a constant added to its states. -/
def Automaton.shift (d : Int) (A : Automaton) : Automaton := A.rename (· + d)

namespace Pattern

open Automaton

variable (d : Int)

/-- Adding a constant keeps different states different. -/
theorem add_injective : Function.Injective fun q : Int => q + d := by
  intro p q h
  simp only at h
  omega

/-- A connection in a shifted automaton is the shifted connection. -/
theorem shift_connect (A : Automaton) (p q : Int) (l : Label) :
    (A.shift d).connect (p + d) (q + d) l = (A.connect p q l).shift d :=
  (rename_connect (add_injective d) A p q l).symm

/-- A transition is refused in a shifted automaton when it was before, and shifted with it
otherwise. -/
theorem shift_addTransition (A : Automaton) (p q : Int) (label : LabelInput) :
    (A.shift d).addTransition (p + d) (q + d) label
      = (A.addTransition p q label).map (Automaton.shift d) := by
  rw [addTransition_eq, addTransition_eq]
  cases label.toLabel with
  | error v => rfl
  | ok l => exact congrArg Except.ok (shift_connect d A p q l)

/-- A state that is accepted in a shifted automaton is the shifted one. -/
theorem shift_accept (A : Automaton) (q : Int) :
    accept (A.shift d) (q + d) = (accept A q).shift d :=
  (rename_accept A q).symm

/-- A state that is added to a shifted automaton is the shifted one. -/
theorem shift_addState (A : Automaton) (q : Int) :
    (A.shift d).addState (q + d) = (A.addState q).shift d :=
  (rename_addState A q).symm

/-! ## Pieces -/

/-- Loops over a character set are shifted with the states that they join. -/
theorem shift_addLoops (A : Automaton) (p q : Int) (charset : List Char) :
    addLoops (A.shift d) (p + d) (q + d) charset = (addLoops A p q charset).shift d :=
  List.foldl_hom (shift d) fun A c => by rw [shift_connect, shift_connect]

/-- A run over a character set is shifted with the state at which it begins. -/
theorem shift_addRun (A : Automaton) (p : Int) (charset : List Char) (c : Counter) :
    addRun (A.shift d) (p + d) charset (c.shift d) = (addRun A p charset c).shift d := by
  rw [addRun, addRun, ← shift_accept, ← shift_addLoops, ← shift_addState]
  rfl

/-- The path of a word is shifted with the counter from which its states are drawn. -/
theorem shift_addWord (A : Automaton) (p : Int) (c : Counter) (w : List Char) :
    addWord (A.shift d) (p + d) (c.shift d) w
      = (addWord A p c w).map (Automaton.shift d) (Counter.shift d) := by
  induction w generalizing A p c with
  | nil => exact congrArg (·, c.shift d) (shift_accept d A p)
  | cons x w ih =>
    rw [addWord, addWord, ← ih, ← shift_connect, ← Counter.advance_shift]
    rfl

/-- The paths of several words are shifted with the counter, which each of them moves on. -/
theorem shift_addWords (A : Automaton) (p : Int) (c : Counter) (ws : List String) :
    addWords (A.shift d) (p + d) (c.shift d) ws
      = (addWords A p c ws).map (Automaton.shift d) (Counter.shift d) := by
  induction ws generalizing A c with
  | nil => rfl
  | cons w ws ih =>
    rw [addWords, addWords, ← ih, shift_addWord]
    rfl

/-! ## Fragments -/

/-- A pattern completes a shifted automaton to the shifted result. -/
theorem extend_shift (A : Automaton) (p : Int) (c : Counter) (pattern : Pattern) :
    extend (A.shift d) (p + d) (c.shift d) pattern
      = (extend A p c pattern).map (Except.map (Automaton.shift d)) (Counter.shift d) := by
  cases pattern with
  | run charset separator =>
    cases separator with
    | none =>
      rw [extend, extend, shift_addRun, Counter.advance_shift]
      rfl
    | some separator =>
      have hpoint : ((addRun (A.shift d) (p + d) charset.toList (c.shift d)).addState
            (c.advance.next + d)).addTransition (c.next + d) (c.advance.next + d) (.text separator)
          = (((addRun A p charset.toList c).addState c.advance.next).addTransition
            c.next c.advance.next (.text separator)).map (Automaton.shift d) := by
        rw [shift_addRun, shift_addState, shift_addTransition]
      simp only [extend, Counter.advance_shift, Counter.next_shift, hpoint]
      cases ((addRun A p charset.toList c).addState c.advance.next).addTransition c.next
          c.advance.next (.text separator) with
      | error v => rfl
      | ok B =>
        simp only [Except.map, Prod.map, ← shift_addRun]
  | words list =>
    rw [extend, extend, shift_addWords]
    rfl
  | single charset =>
    have hfold : charset.toList.foldl (fun B x => B.connect (p + d) (c.next + d) (.ofChar x))
          ((A.shift d).addState (c.next + d))
        = (charset.toList.foldl (fun B x => B.connect p c.next (.ofChar x))
          (A.addState c.next)).shift d := by
      rw [shift_addState]
      exact List.foldl_hom (shift d) fun B x => shift_connect d B p c.next (.ofChar x)
    simp only [extend, Counter.advance_shift, Counter.next_shift, hfold, shift_accept]
    rfl

/-- The fragment from a shifted counter is the shifted fragment, and a failure stays the same. -/
theorem fragment_shift (pattern : Pattern) (name : String) (c : Counter) :
    pattern.fragment name (c.shift d)
      = (pattern.fragment name c).map (Except.map (Automaton.shift d)) (Counter.shift d) := by
  rw [fragment, fragment, ← extend_shift, Counter.advance_shift]
  rfl

end Pattern

/-! ## Catalogues -/

/-- The fragments with a constant added to their states. -/
def Fragments.shift (d : Int) (fs : Fragments) : Fragments := fs.mapValues fun _ A => A.shift d

namespace Catalogue

variable (k : Catalogue) (d : Int)

/-- A category is built from a shifted counter as from the counter itself, up to the shift. -/
theorem build_shift (name : String) (c : Counter) :
    k.build name (c.shift d)
      = (k.build name c).map (Except.map (Automaton.shift d)) (Counter.shift d) := by
  rw [build, build]
  cases k name with
  | none => rfl
  | some pattern =>
    simp only [pattern.fragment_shift]
    cases pattern.fragment name c with
    | mk r c' => cases r <;> rfl

/-- Categories that are built onto shifted fragments give the shifted result of those built onto the
fragments. -/
theorem buildOnto_shift (fs : Fragments) (c : Counter) (names : List String) :
    k.buildOnto (Fragments.shift d fs) (c.shift d) names
      = (k.buildOnto fs c names).map (Except.map (Fragments.shift d)) (Counter.shift d) := by
  induction names generalizing fs c with
  | nil => rfl
  | cons name names ih =>
    rw [buildOnto, buildOnto, build_shift]
    cases k.build name c with
    | mk r c' =>
      cases r with
      | error e => rfl
      | ok A =>
        have hinsert : (Fragments.shift d fs).insert name (A.shift d)
            = Fragments.shift d (fs.insert name A) :=
          (OrderedMap.mapValues_insert (Automaton.shift d) fs name A).symm
        simp only [Prod.map, Except.map, hinsert]
        exact ih (fs.insert name A) c'

/-- **Fragments from a shifted counter are shifted fragments.** -/
theorem buildAll_shift (c : Counter) (names : List String) :
    k.buildAll names (c.shift d)
      = (k.buildAll names c).map (Except.map (Fragments.shift d)) (Counter.shift d) :=
  k.buildOnto_shift d ∅ c names

end Catalogue

end LexAutomata
