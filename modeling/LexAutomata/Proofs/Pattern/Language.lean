/-
# The languages of patterns

What a pattern describes is said by `Describes`: runs over a set of characters, listed
words, single characters.  Every piece of a fragment grows out of an older state, so that
its words are those read up to that state followed by those of the piece (`reads_addRun`,
`spells_addWord`, `spells_addWords`).  The fragment of a well-formed pattern takes states
without a gap and accepts what the pattern describes (`exists_fragment_eq`).
-/
import LexAutomata.Proofs.Pattern.Sprout

namespace LexAutomata

open Automaton

/-- A nonempty word over a set of characters. -/
def IsRun (charset w : List Char) : Prop := w ≠ [] ∧ ∀ c ∈ w, c ∈ charset

namespace Pattern

/-- The words that a pattern describes. -/
inductive Describes : Pattern → List Char → Prop
  /-- A run of characters, whether or not a separator is given. -/
  | run {charset : String} {separator : Option String} {w : List Char}
      (h : IsRun charset.toList w) : Describes (.run charset separator) w
  /-- Two runs with the separator between them. -/
  | runs {charset separator : String} {u v : List Char} (hu : IsRun charset.toList u)
      (hv : IsRun charset.toList v) :
      Describes (.run charset (some separator)) (u ++ separator.toList ++ v)
  /-- A listed word. -/
  | word {list : List String} {w : String} (h : w ∈ list) : Describes (.words list) w.toList
  /-- A single character. -/
  | single {charset : String} {c : Char} (h : c ∈ charset.toList) : Describes (.single charset) [c]

/-- A separator is one character. -/
def WellFormed : Pattern → Prop
  | run _ (some separator) => separator.length = 1
  | _ => True

/-- A pattern of words describes these words. -/
theorem describes_words_iff {list : List String} {v : List Char} :
    (words list).Describes v ↔ String.ofList v ∈ list := by
  constructor
  · intro h
    cases h with
    | word h => rwa [String.ofList_toList]
  · intro h
    have hword : (words list).Describes (String.ofList v).toList := .word h
    rwa [String.toList_ofList] at hword

/-- A pattern of single characters describes each of them. -/
theorem describes_single_iff {charset : String} {w : List Char} :
    Describes (.single charset) w ↔ ∃ c ∈ charset.toList, w = [c] := by
  constructor
  · intro h
    cases h with
    | single h => exact ⟨_, h, rfl⟩
  · rintro ⟨c, h, rfl⟩
    exact .single h

variable {A B : Automaton} {p q n first : Int} {c : Counter} {w : List String}
  {enter stay : List Char}

/-! ## Pieces that sprout -/

/-- A connection adds the states that it joins by itself. -/
theorem connect_addState (p q : Int) (l : Label) :
    (A.addState q).connect p q l = A.connect p q l := by
  have hstates : (((A.states.insert q).insert p).insert q) = (A.states.insert p).insert q := by
    apply StateSet.ext
    intro r
    simp only [StateSet.mem_insert]
    grind
  rw [connect, connect, addState, hstates]

/-- A state that a character leads to. -/
theorem sprouts_connect (hp : p ∈ A.states) (hn : ¬ n ∈ A.states) (x : Char) :
    A.Sprouts p n [x] [] (A.connect p n (.ofChar x)) := by
  rw [← connect_addState]
  exact (Sprouts.addState hp hn).enterBy x

/-- More connections to a new state let more characters enter it. -/
theorem sprouts_foldl_connect (h : A.Sprouts p n enter stay B) (charset : List Char) :
    A.Sprouts p n (enter ++ charset) stay
      (charset.foldl (fun B x => B.connect p n (.ofChar x)) B) := by
  induction charset generalizing B enter with
  | nil => rwa [List.append_nil]
  | cons x charset ih =>
    have := ih (h.enterBy x)
    rwa [List.append_assoc, List.singleton_append] at this

/-- Loops at a new state let their characters stay there. -/
theorem sprouts_addLoops (h : A.Sprouts p n enter stay B) (charset : List Char) :
    A.Sprouts p n (enter ++ charset) (stay ++ charset) (addLoops B p n charset) := by
  induction charset generalizing B enter stay with
  | nil => rwa [List.append_nil, List.append_nil]
  | cons x charset ih =>
    have := ih ((h.enterBy x).stayBy x)
    rwa [List.append_assoc, List.singleton_append, List.append_assoc,
      List.singleton_append] at this

/-! ## Runs -/

/-- A final state that runs over the characters lead to. -/
theorem exists_sprouts_addRun (hp : p ∈ A.states) (hn : ¬ c.next ∈ A.states)
    (charset : List Char) :
    ∃ B, A.Sprouts p c.next charset charset B ∧ addRun A p charset c = accept B c.next :=
  ⟨_, sprouts_addLoops (Sprouts.addState hp hn) charset, rfl⟩

/-- What leads to the state that a run ends in. -/
theorem leads_addRun_iff (hA : A.Draft first c) (hp : p ∈ A.states) (hq : q ∈ A.states)
    (charset : List Char) :
    (addRun A p charset c).Leads q w c.next
      ↔ ∃ u v, w = u ++ symbols v ∧ A.Leads q u p ∧ IsRun charset v := by
  obtain ⟨B, hB, heq⟩ := exists_sprouts_addRun hp hA.not_mem_next charset
  rw [heq, leads_accept_iff, hB.leads_new_iff hA.connected hq]
  constructor
  · rintro ⟨u, x, v, rfl, hu, hx, hv⟩
    exact ⟨u, x :: v, rfl, hu, List.cons_ne_nil x v, List.forall_mem_cons.2 ⟨hx, hv⟩⟩
  · rintro ⟨u, v, rfl, hu, hne, hv⟩
    obtain ⟨x, v, rfl⟩ := List.exists_cons_of_ne_nil hne
    rw [List.forall_mem_cons] at hv
    exact ⟨u, x, v, rfl, hu, hv.1, hv.2⟩

/-- A run is read after what leads to the state that it begins in. -/
theorem reads_addRun (hA : A.Draft first c) (hp : p ∈ A.states) (hq : q ∈ A.states)
    (charset : List Char) :
    (addRun A p charset c).Reads q w
      ↔ (∃ u v, w = u ++ symbols v ∧ A.Leads q u p ∧ IsRun charset v) ∨ A.Reads q w := by
  rw [← leads_addRun_iff hA hp hq]
  obtain ⟨B, hB, heq⟩ := exists_sprouts_addRun hp hA.not_mem_next charset
  rw [heq, reads_accept_iff, leads_accept_iff, hB.reads_iff hA.connected hA.finals]

/-- A draft stays one when a run is added. -/
theorem draft_addRun (hA : A.Draft first c) (hp : p ∈ A.states) (charset : List Char) :
    (addRun A p charset c).Draft first c.advance := by
  obtain ⟨B, hB, heq⟩ := exists_sprouts_addRun hp hA.not_mem_next charset
  rw [heq]
  exact (hA.sprout hB).accept ((hB.mem_states c.next).2 (Or.inl rfl))

/-! ## Words -/

/-- What leads to a state that one character leads to. -/
theorem leads_connect_iff (hA : A.Draft first c) (hp : p ∈ A.states) (hq : q ∈ A.states)
    (x : Char) :
    (A.connect p c.next (.ofChar x)).Leads q w c.next
      ↔ ∃ u, w = u ++ symbols [x] ∧ A.Leads q u p := by
  rw [(sprouts_connect hp hA.not_mem_next x).leads_new_iff hA.connected hq]
  constructor
  · rintro ⟨u, y, v, rfl, hu, hy, hv⟩
    obtain rfl := List.mem_singleton.1 hy
    obtain rfl : v = [] := List.eq_nil_iff_forall_not_mem.2 fun z hz => absurd (hv z hz) (by simp)
    exact ⟨u, rfl, hu⟩
  · rintro ⟨u, rfl, hu⟩
    exact ⟨u, x, [], rfl, hu, List.mem_singleton.2 rfl, by simp⟩

/-- What a chain for a word adds to an automaton. -/
structure Spells (A : Automaton) (p : Int) (words : List (List Char)) (first : Int)
    (r : Automaton × Counter) : Prop where
  /-- The result is a draft up to the counter that is left. -/
  draft : r.1.Draft first r.2
  /-- Older states are states. -/
  mem_states : ∀ q ∈ A.states, q ∈ r.1.states
  /-- Paths between older states are older paths. -/
  leads_iff : ∀ q ∈ A.states, ∀ q' ∈ A.states, ∀ w, r.1.Leads q w q' ↔ A.Leads q w q'
  /-- The words are read after what leads to the state that they begin in. -/
  reads_iff : ∀ q ∈ A.states, ∀ w, r.1.Reads q w
    ↔ (∃ u, ∃ v ∈ words, w = u ++ symbols v ∧ A.Leads q u p) ∨ A.Reads q w

/-- The chain for a word adds this word. -/
theorem spells_addWord (hA : A.Draft first c) (hp : p ∈ A.states) (v : List Char) :
    Spells A p [v] first (addWord A p c v) := by
  induction v generalizing A p c with
  | nil =>
    -- the word ends in the state that it has come to
    refine ⟨hA.accept hp, fun q hq => hq, fun q _ q' _ w => leads_accept_iff, fun q _ w => ?_⟩
    rw [addWord, reads_accept_iff]
    simp
  | cons x v ih =>
    -- the rest of the word is spelled from the state that its first character leads to
    have hB := sprouts_connect hp hA.not_mem_next x
    have hold : ∀ {q}, q ∈ A.states → q ∈ (A.connect p c.next (.ofChar x)).states := fun hq =>
      (hB.mem_states _).2 (Or.inr hq)
    have hnew : c.next ∈ (A.connect p c.next (.ofChar x)).states :=
      (hB.mem_states _).2 (Or.inl rfl)
    have h := ih (hA.sprout hB) hnew
    refine ⟨h.draft, fun q hq => h.mem_states q (hold hq), fun q hq q' hq' w => ?_,
      fun q hq w => ?_⟩
    · rw [addWord, h.leads_iff q (hold hq) q' (hold hq')]
      exact hB.leads_iff hA.connected fun hn => hA.not_mem_next (hn ▸ hq')
    · rw [addWord, h.reads_iff q (hold hq), hB.reads_iff hA.connected hA.finals]
      simp only [leads_connect_iff hA hp hq, List.mem_singleton, exists_eq_left]
      constructor
      · rintro (⟨_, rfl, u, rfl, hu⟩ | hw)
        · exact Or.inl ⟨u, List.append_assoc _ _ _, hu⟩
        · exact Or.inr hw
      · rintro (⟨u, rfl, hu⟩ | hw)
        · exact Or.inl ⟨_, (List.append_assoc u (symbols [x]) (symbols v)).symm, u, rfl, hu⟩
        · exact Or.inr hw

/-- Words that begin in a state to which no path leads back are read side by side. -/
theorem spells_addWords (hA : A.Draft first c) (hp : p ∈ A.states) (list : List String) :
    Spells A p (list.map String.toList) first (addWords A p c list) := by
  induction list generalizing A c with
  | nil =>
    refine ⟨hA, fun q hq => hq, fun _ _ _ _ _ => Iff.rfl, fun q _ w => ?_⟩
    simp [addWords]
  | cons v list ih =>
    have hv := spells_addWord hA hp v.toList
    have h := ih hv.draft (hv.mem_states p hp)
    refine ⟨h.draft, fun q hq => h.mem_states q (hv.mem_states q hq), fun q hq q' hq' w => ?_,
      fun q hq w => ?_⟩
    · rw [addWords, h.leads_iff q (hv.mem_states q hq) q' (hv.mem_states q' hq'),
        hv.leads_iff q hq q' hq']
    · rw [addWords, h.reads_iff q (hv.mem_states q hq), hv.reads_iff q hq]
      simp only [hv.leads_iff q hq p hp, List.map_cons, List.mem_cons, List.not_mem_nil, or_false]
      constructor
      · rintro (⟨u, t, ht, hw⟩ | ⟨u, t, ht, hw⟩ | hw)
        · exact Or.inl ⟨u, t, Or.inr ht, hw⟩
        · exact Or.inl ⟨u, t, Or.inl ht, hw⟩
        · exact Or.inr hw
      · rintro (⟨u, t, ht | ht, hw⟩ | hw)
        · exact Or.inr (Or.inl ⟨u, t, ht, hw⟩)
        · exact Or.inl ⟨u, t, ht, hw⟩
        · exact Or.inr (Or.inr hw)

/-! ## Fragments -/

/-- A single state that is not final reads nothing. -/
theorem not_reads_lone (name : String) (q : Int) (w : List String) :
    ¬ (lone name q).Reads q w := by
  rintro ⟨r, hr, -⟩
  exact StateSet.not_mem_empty r hr

/-- What is read from a lone state followed by characters are the characters. -/
theorem eq_of_symbols_eq_append {name : String} {c : Counter} {u : List String}
    {v w : List Char} (hu : (lone name c.next).Leads c.next u c.next)
    (h : symbols w = u ++ symbols v) : w = v := by
  rw [(Draft.lone name c).leads_first_iff.1 hu] at h
  exact symbols_injective h

/-- What makes a result the fragment of a pattern. -/
structure IsFragment (pattern : Pattern) (c : Counter) (r : Automaton × Counter) : Prop where
  /-- The fragment is a draft up to the counter that is left. -/
  draft : r.1.Draft c.next r.2
  /-- The fragment reads the words of the pattern. -/
  reads_iff : ∀ w, r.1.Reads c.next (symbols w) ↔ pattern.Describes w

section

variable (name charset : String) (c)

/-- The fragment of a run describes its pattern. -/
theorem isFragment_run :
    IsFragment (.run charset none) c
      (addRun (lone name c.next) c.next charset.toList c.advance, c.advance.advance) where
  draft := draft_addRun (Draft.lone name c) (Draft.lone name c).mem_first _
  reads_iff w := by
    have hlone := Draft.lone name c
    rw [reads_addRun hlone hlone.mem_first hlone.mem_first]
    constructor
    · rintro (⟨u, v, heq, hu, hv⟩ | hw)
      · exact .run (eq_of_symbols_eq_append hu heq ▸ hv)
      · exact absurd hw (not_reads_lone name c.next _)
    · intro hw
      cases hw with
      | run hw => exact Or.inl ⟨[], w, rfl, .nil _, hw⟩

/-- The separator leads from the end of the first run to the state where the second begins. -/
theorem isFragment_runs (x : Char) :
    IsFragment (.run charset (some (String.ofList [x]))) c
      (addRun ((addRun (lone name c.next) c.next charset.toList c.advance).connect c.advance.next
          c.advance.advance.next (.ofChar x))
        c.advance.advance.next charset.toList c.advance.advance.advance,
        c.advance.advance.advance.advance) := by
  have hlone := Draft.lone name c
  have hrun := draft_addRun hlone hlone.mem_first charset.toList
  have hend : c.advance.next ∈ (addRun (lone name c.next) c.next charset.toList c.advance).states :=
    (hrun.mem_states _).2 ⟨Int.le_of_lt (Int.lt_succ c.next), Int.lt_succ c.advance.next⟩
  have hsprout := sprouts_connect hend hrun.not_mem_next x
  have hpoint := hrun.sprout hsprout
  have hmem := (hsprout.mem_states _).2 (Or.inl rfl)
  refine ⟨draft_addRun hpoint hmem _, fun w => ?_⟩
  rw [reads_addRun hpoint hmem hpoint.mem_first, hsprout.reads_iff hrun.connected hrun.finals,
    reads_addRun hlone hlone.mem_first hlone.mem_first]
  simp only [leads_connect_iff hrun hend hrun.mem_first,
    leads_addRun_iff hlone hlone.mem_first hlone.mem_first]
  constructor
  · rintro (⟨_, v, heq, ⟨_, rfl, u', u, rfl, hu', hu⟩, hv⟩ | ⟨u, v, heq, hu, hv⟩ | hw)
    · rw [List.append_assoc, List.append_assoc, ← symbols_append, ← symbols_append] at heq
      rw [eq_of_symbols_eq_append hu' heq, ← List.append_assoc]
      have h : Describes (.run charset (some (String.ofList [x])))
          (u ++ (String.ofList [x]).toList ++ v) := .runs hu hv
      rwa [String.toList_ofList] at h
    · exact .run (eq_of_symbols_eq_append hu heq ▸ hv)
    · exact absurd hw (not_reads_lone name c.next _)
  · intro hw
    cases hw with
    | run hw => exact Or.inr (Or.inl ⟨[], w, rfl, .nil _, hw⟩)
    | runs hu hv =>
      refine Or.inl ⟨_, _, ?_, ⟨_, rfl, [], _, rfl, .nil _, hu⟩, hv⟩
      simp

/-- The fragment of a list of words describes its pattern. -/
theorem isFragment_words (list : List String) :
    IsFragment (.words list) c (addWords (lone name c.next) c.next c.advance list) where
  draft := (spells_addWords (Draft.lone name c) (Draft.lone name c).mem_first list).draft
  reads_iff w := by
    have hlone := Draft.lone name c
    rw [(spells_addWords hlone hlone.mem_first list).reads_iff _ hlone.mem_first]
    constructor
    · rintro (⟨u, v, hv, heq, hu⟩ | hw)
      · obtain ⟨t, ht, rfl⟩ := List.mem_map.1 hv
        exact eq_of_symbols_eq_append hu heq ▸ .word ht
      · exact absurd hw (not_reads_lone name c.next _)
    · intro hw
      cases hw with
      | word hw => exact Or.inl ⟨[], _, List.mem_map.2 ⟨_, hw, rfl⟩, rfl, .nil _⟩

/-- The fragment of single characters describes its pattern. -/
theorem isFragment_single :
    IsFragment (.single charset) c
      (accept (charset.toList.foldl (fun B x => B.connect c.next c.advance.next (.ofChar x))
        ((lone name c.next).addState c.advance.next)) c.advance.next, c.advance.advance) := by
  have hlone := Draft.lone name c
  have hsprout := sprouts_foldl_connect
    (Sprouts.addState hlone.mem_first hlone.not_mem_next) charset.toList
  refine ⟨(hlone.sprout hsprout).accept ((hsprout.mem_states _).2 (Or.inl rfl)), fun w => ?_⟩
  rw [reads_accept_iff, hsprout.reads_iff hlone.connected hlone.finals,
    hsprout.leads_new_iff hlone.connected hlone.mem_first]
  constructor
  · rintro (⟨u, x, v, heq, hu, hx, hv⟩ | hw)
    · obtain rfl : v = [] :=
        List.eq_nil_iff_forall_not_mem.2 fun y hy => List.not_mem_nil (hv y hy)
      exact eq_of_symbols_eq_append hu heq ▸ .single hx
    · exact absurd hw (not_reads_lone name c.next _)
  · intro hw
    cases hw with
    | single hx => exact Or.inl ⟨[], _, [], rfl, .nil _, hx, by simp⟩

end

/-- **The fragment of a well-formed pattern** can be built, and reads the words of the pattern. -/
theorem exists_fragment_eq {pattern : Pattern} (hpattern : pattern.WellFormed) (name : String)
    (c : Counter) :
    ∃ A c', pattern.fragment name c = (.ok A, c') ∧ IsFragment pattern c (A, c') := by
  cases pattern with
  | run charset separator =>
    cases separator with
    | none => exact ⟨_, _, rfl, isFragment_run c name charset⟩
    | some separator =>
      have hlength : separator.length = 1 := hpattern
      obtain ⟨x, hx⟩ := List.length_eq_one_iff.1 (String.length_toList ▸ hlength)
      obtain rfl : separator = String.ofList [x] := by rw [← hx, String.ofList_toList]
      refine ⟨_, _, ?_, isFragment_runs c name charset x⟩
      simp only [fragment, extend, addTransition_eq, LabelInput.toLabel, hlength, if_true,
        Except.map, connect_addState]
      rfl
  | words list => exact ⟨_, _, rfl, isFragment_words c name list⟩
  | single charset => exact ⟨_, _, rfl, isFragment_single c name charset⟩

/-- **The fragment of a malformed pattern** cannot be built: the separator is refused when three
states are taken. -/
theorem exists_fragment_eq_error {pattern : Pattern} (hpattern : ¬ pattern.WellFormed)
    (name : String) (c : Counter) :
    ∃ v, pattern.fragment name c = (.error v, c.advance.advance.advance) := by
  cases pattern with
  | run charset separator =>
    cases separator with
    | none => exact absurd trivial hpattern
    | some separator =>
      have hlength : ¬ separator.length = 1 := hpattern
      refine ⟨.badLabel (.text separator), ?_⟩
      simp only [fragment, extend, addTransition_eq, LabelInput.toLabel, if_neg hlength, Except.map]
  | words list => exact absurd trivial hpattern
  | single charset => exact absurd trivial hpattern

/-- A fragment accepts the words of its pattern. -/
theorem IsFragment.accepts_iff {pattern : Pattern} {r : Automaton × Counter}
    (h : IsFragment pattern c r) (word : String) :
    r.1.accepts word = .ok true ↔ pattern.Describes word.toList := by
  rw [accepts_eq_ok_true_iff, ← h.reads_iff, ← spell_eq_symbols]
  simp only [h.draft.start_eq, Option.some.injEq, exists_eq_left']

end Pattern

end LexAutomata
