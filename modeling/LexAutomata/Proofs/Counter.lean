/-
# Automata from one counter

Fragments are built and automata are merged in any order, with states from one counter.  A
build that succeeds takes the next states of the counter without a gap, and one that fails
never moves the counter back (`Build.cases`).  So the builds of a history follow one another
along the counter (`Spans`), and every call keeps this (`Sound.after`): whatever the calls
are, their fragments share no state and can be merged (`collisionFree_recorded`).
-/
import LexAutomata.Pattern.Catalogue
import LexAutomata.Proofs.Automaton.Merge
import LexAutomata.Proofs.Pattern.Language

namespace LexAutomata

open Automaton

/-- The counter moves on when a state is handed out. -/
theorem Counter.lt_advance (c : Counter) : c.next < c.advance.next := Int.lt_succ c.next

theorem Counter.le_advance (c : Counter) : c.next ≤ c.advance.next := Int.le_of_lt c.lt_advance

/-! ## Builds -/

/-- A build of one fragment, by what is asked for and the counter before it. -/
structure Build where
  /-- The known patterns. -/
  catalogue : Catalogue
  /-- The category. -/
  name : String
  /-- The counter before the build. -/
  before : Counter

namespace Build

variable {b b' : Build} {A : Automaton}

/-- The fragment, or the reason why there is none. -/
def result (b : Build) : Except BuildError Automaton := (b.catalogue.build b.name b.before).1

/-- The counter after the build. -/
def after (b : Build) : Counter := (b.catalogue.build b.name b.before).2

/-- **How a build ends**: the category is unknown, the pattern is malformed, or there is a draft
with the states that the counter has handed out. -/
theorem cases (b : Build) :
    (b.catalogue b.name = none ∧ b.result = .error (.unknownCategory b.name) ∧
      b.after = b.before) ∨
    (∃ v, b.result = .error (.malformed v) ∧ b.after = b.before.advance.advance.advance) ∨
    (∃ A, b.result = .ok A ∧ A.Draft b.before.next b.after) := by
  rw [result, after, Catalogue.build]
  cases hname : b.catalogue b.name with
  | none => exact Or.inl ⟨rfl, rfl, rfl⟩
  | some pattern =>
    by_cases hpattern : pattern.WellFormed
    · obtain ⟨A, c', hA, hfrag⟩ := Pattern.exists_fragment_eq hpattern b.name b.before
      simp only [hA]
      exact Or.inr (Or.inr ⟨A, rfl, hfrag.draft⟩)
    · obtain ⟨v, hv⟩ := Pattern.exists_fragment_eq_error hpattern b.name b.before
      refine Or.inr (Or.inl ⟨v, ?_, congrArg Prod.snd hv⟩)
      exact congrArg (fun r : Except Violation Automaton × Counter =>
        r.1.mapError BuildError.malformed) hv

/-- A name without a pattern is refused, and takes no state. -/
theorem eq_of_unknown (h : b.catalogue b.name = none) :
    b.result = .error (.unknownCategory b.name) ∧ b.after = b.before := by
  rw [result, after, Catalogue.build, h]
  exact ⟨rfl, rfl⟩

/-- The automaton that a build results in is a draft. -/
theorem draft (h : b.result = .ok A) : A.Draft b.before.next b.after := by
  obtain ⟨-, h', -⟩ | ⟨v, h', -⟩ | ⟨B, h', hB⟩ := b.cases
  · rw [h'] at h
    cases h
  · rw [h'] at h
    cases h
  · rw [h'] at h
    cases h
    exact hB

/-- No build moves the counter back. -/
theorem next_le_after (b : Build) : b.before.next ≤ b.after.next := by
  obtain ⟨-, -, h⟩ | ⟨v, -, h⟩ | ⟨A, -, hA⟩ := b.cases
  · exact Int.le_of_eq (congrArg Counter.next h.symm)
  · rw [h]
    simp only [Counter.advance]
    omega
  · exact Int.le_of_lt hA.first_lt

/-- The states of a build were handed out before it ended. -/
theorem lt_of_mem_states (h : b.result = .ok A) {q : Int} (hq : q ∈ A.states) :
    q < b.after.next :=
  (((draft h).mem_states q).1 hq).2

/-- The states are consecutive, and the start state is the first. -/
theorem exists_states (h : b.result = .ok A) :
    ∃ k : Nat, b.after.next = b.before.next + k ∧ A.start = some b.before.next ∧
      ∀ q, q ∈ A.states ↔ b.before.next ≤ q ∧ q < b.before.next + k := by
  have hk : b.after.next = b.before.next + (b.after.next - b.before.next).toNat := by
    have := b.next_le_after
    omega
  exact ⟨_, hk, (draft h).start_eq, hk ▸ (draft h).mem_states⟩

/-- Fragments of builds that follow one another share no state. -/
theorem apart (hb : b.after.next ≤ b'.before.next) {B : Automaton} (hA : b.result = .ok A)
    (hB : b'.result = .ok B) : A.Apart B := by
  intro q hqA hqB
  have hlt := lt_of_mem_states hA hqA
  have hle := (((draft hB).mem_states q).1 hqB).1
  omega

end Build

/-! ## Builds along a counter -/

/-- The builds follow one another while the counter moves from `c` to `c'`. -/
structure Spans (c : Counter) (bs : List Build) (c' : Counter) : Prop where
  /-- The counter does not move back. -/
  le : c.next ≤ c'.next
  /-- The builds take place in between. -/
  between : ∀ b ∈ bs, c.next ≤ b.before.next ∧ b.after.next ≤ c'.next
  /-- Every build begins where the counter was left, or later. -/
  ordered : bs.Pairwise fun b b' => b.after.next ≤ b'.before.next

namespace Spans

variable {c c' c'' : Counter} {bs bs' : List Build}

theorem nil (c : Counter) : Spans c [] c where
  le := Int.le_refl _
  between _ hb := absurd hb List.not_mem_nil
  ordered := .nil

/-- The counter may move on without a build. -/
theorem mono (h : Spans c bs c') (hc : c'.next ≤ c''.next) : Spans c bs c'' where
  le := Int.le_trans h.le hc
  between b hb := ⟨(h.between b hb).1, Int.le_trans (h.between b hb).2 hc⟩
  ordered := h.ordered

theorem single (b : Build) : Spans b.before [b] b.after where
  le := b.next_le_after
  between b' hb := by
    obtain rfl := List.mem_singleton.1 hb
    exact ⟨Int.le_refl _, Int.le_refl _⟩
  ordered := List.pairwise_singleton _ b

/-- Builds that follow one another move the counter on together. -/
theorem append (h : Spans c bs c') (h' : Spans c' bs' c'') : Spans c (bs ++ bs') c'' where
  le := Int.le_trans h.le h'.le
  between b hb := by
    rcases List.mem_append.1 hb with hb | hb
    · exact ⟨(h.between b hb).1, Int.le_trans (h.between b hb).2 h'.le⟩
    · exact ⟨Int.le_trans h.le (h'.between b hb).1, (h'.between b hb).2⟩
  ordered := List.pairwise_append.2 ⟨h.ordered, h'.ordered, fun b hb b' hb' =>
    Int.le_trans (h.between b hb).2 (h'.between b' hb').1⟩

/-- Different fragments share no state. -/
theorem apart (h : Spans c bs c') {A B : Automaton} (hA : ∃ b ∈ bs, b.result = .ok A)
    (hB : ∃ b ∈ bs, b.result = .ok B) (hne : A ≠ B) : A.Apart B := by
  obtain ⟨b, hb, hA⟩ := hA
  obtain ⟨b', hb', hB⟩ := hB
  have hbb : ¬ b = b' := by
    rintro rfl
    rw [hA, Except.ok.injEq] at hB
    exact hne hB
  -- one of two builds comes first
  have hboth : bs.Pairwise fun b b' =>
      b.after.next ≤ b'.before.next ∨ b'.after.next ≤ b.before.next := h.ordered.imp Or.inl
  have hsymm : Std.Symm fun b b' : Build =>
      b.after.next ≤ b'.before.next ∨ b'.after.next ≤ b.before.next := ⟨fun _ _ => Or.symm⟩
  rcases hboth.forall hb hb' hbb with h | h
  · exact Build.apart h hA hB
  · exact (Build.apart h hB hA).symm

end Spans

namespace Catalogue

variable {k : Catalogue} {c : Counter} {fs fs' : Fragments}

theorem build_eq (k : Catalogue) (name : String) (c : Counter) :
    k.build name c = (Build.result ⟨k, name, c⟩, Build.after ⟨k, name, c⟩) := rfl

/-- The builds of several categories one after the other, up to the first failure. -/
def buildsOf (k : Catalogue) (c : Counter) : List String → List Build
  | [] => []
  | name :: names =>
    let b : Build := ⟨k, name, c⟩
    match b.result with
    | .error _ => [b]
    | .ok _ => b :: k.buildsOf b.after names

/-- More categories are built onto what was built before, unless that failed. -/
theorem buildOnto_append (k : Catalogue) (fs : Fragments) (c : Counter)
    (names names' : List String) :
    k.buildOnto fs c (names ++ names') = match k.buildOnto fs c names with
      | (.ok fs', c') => k.buildOnto fs' c' names'
      | (.error e, c') => (.error e, c') := by
  induction names generalizing fs c with
  | nil => rfl
  | cons name names ih =>
    rw [List.cons_append, buildOnto, buildOnto]
    cases k.build name c with
    | mk r c' =>
      cases r with
      | error e => rfl
      | ok A => exact ih (fs.insert name A) c'

/-- An unknown category is refused, and takes no state after those of the categories before it. -/
theorem buildAll_eq_of_unknown {names : List String} {c' : Counter}
    (h : k.buildAll names c = (.ok fs, c')) {name : String} (hname : k name = none)
    (rest : List String) :
    k.buildAll (names ++ name :: rest) c = (.error (.unknownCategory name), c') := by
  rw [buildAll] at h
  rw [buildAll, buildOnto_append, h]
  simp only [buildOnto, build, hname]

/-- Building several categories builds one after the other. -/
theorem spans_buildsOf (k : Catalogue) (fs : Fragments) (c : Counter) (names : List String) :
    Spans c (k.buildsOf c names) (k.buildOnto fs c names).2 := by
  induction names generalizing fs c with
  | nil => exact .nil c
  | cons name names ih =>
    have hb := Spans.single ⟨k, name, c⟩
    rw [buildOnto, buildsOf, build_eq]
    cases Build.result ⟨k, name, c⟩ with
    | error e => exact hb
    | ok A => exact hb.append (ih (fs.insert name A) _)

/-- The fragments that are given are those that were there and those that were built. -/
theorem exists_of_buildOnto {names : List String} (h : (k.buildOnto fs c names).1 = .ok fs')
    {A : Automaton} (hA : A ∈ fs'.values) :
    A ∈ fs.values ∨ ∃ b ∈ k.buildsOf c names, b.result = .ok A := by
  induction names generalizing fs c with
  | nil =>
    cases h
    exact Or.inl hA
  | cons name names ih =>
    rw [buildOnto, build_eq] at h
    rw [buildsOf]
    cases hb : Build.result ⟨k, name, c⟩ with
    | error e =>
      rw [hb] at h
      cases h
    | ok B =>
      rw [hb] at h
      simp only [List.exists_mem_cons_iff, hb, Except.ok.injEq]
      -- what stands under the name is what was built last for it
      rcases ih h with h | h
      · obtain ⟨name', h⟩ := OrderedMap.mem_values_iff.1 h
        rw [OrderedMap.get?_insert] at h
        split at h
        · exact Or.inr (Or.inl (Option.some.inj h))
        · exact Or.inl (OrderedMap.mem_values_iff.2 ⟨name', h⟩)
      · exact Or.inr (Or.inr h)

/-- The fragments that are built from a counter have the states that it has handed out. -/
theorem of_mem_states_buildAll {names : List String} (h : (k.buildAll names c).1 = .ok fs)
    {A : Automaton} (hA : A ∈ fs.values) {q : Int} (hq : q ∈ A.states) :
    c.next ≤ q ∧ q < (k.buildAll names c).2.next := by
  obtain hA | ⟨b, hb, hA⟩ := exists_of_buildOnto h hA
  · exact absurd hA List.not_mem_nil
  · have hb := (spans_buildsOf k ∅ c names).between b hb
    exact ⟨Int.le_trans hb.1 (((Build.draft hA).mem_states q).1 hq).1,
      Int.lt_of_lt_of_le (Build.lt_of_mem_states hA hq) hb.2⟩

end Catalogue

/-! ## Histories -/

/-- What was done with a counter so far. -/
structure Ledger where
  /-- The counter as it stands now. -/
  counter : Counter
  /-- The builds of single fragments, those among them that failed or belong to a call that
  failed later. -/
  builds : List Build := []
  /-- The fragments that calls have given. -/
  fragments : List Automaton := []
  /-- The merges of what calls have given. -/
  unions : List Automaton := []

namespace Ledger

variable {c : Counter} {s : Ledger}

/-- A call that takes states from the counter. -/
inductive Call where
  /-- Builds the fragment of a category. -/
  | build (k : Catalogue) (name : String)
  /-- Builds the fragments of several categories. -/
  | buildAll (k : Catalogue) (names : List String)
  /-- Merges automata. -/
  | merge (parts : List Automaton) (name : String)

/-- The ledger after a call.  A merge counts when all parts were given by earlier calls; any other
one moves the counter just as well. -/
def after (s : Ledger) : Call → Ledger
  | .build k name =>
    let r := k.build name s.counter
    { s with
      counter := r.2
      builds := s.builds ++ [⟨k, name, s.counter⟩]
      fragments := s.fragments ++ r.1.toOption.toList }
  | .buildAll k names =>
    let r := k.buildAll names s.counter
    { s with
      counter := r.2
      builds := s.builds ++ k.buildsOf s.counter names
      fragments := s.fragments ++ (r.1.toOption.getD ∅).values }
  | .merge parts name =>
    let r := Automaton.merge parts (some s.counter) name
    let own : Bool := decide (∀ A ∈ parts, A ∈ s.fragments ++ s.unions)
    { s with
      counter := r.2.getD s.counter
      unions := s.unions ++ if own then r.1.toOption.toList else [] }

/-- The ledger of calls one after the other, with a counter that stood at `c` at first. -/
def recorded (c : Counter) (calls : List Call) : Ledger :=
  calls.foldl after { counter := c }

/-- The builds follow one another up to the counter, they have made all fragments, and all states
of unions are below the counter. -/
structure Sound (c : Counter) (s : Ledger) : Prop where
  /-- The builds follow one another. -/
  spans : Spans c s.builds s.counter
  /-- The fragments are those of builds. -/
  fragments : ∀ A ∈ s.fragments, ∃ b ∈ s.builds, b.result = .ok A
  /-- The unions are below the counter. -/
  unions : ∀ A ∈ s.unions, ∀ q ∈ A.states, q < s.counter.next

/-- The states of whatever was made were handed out. -/
theorem Sound.lt_of_mem (h : s.Sound c) {A : Automaton} (hA : A ∈ s.fragments ++ s.unions) {q : Int}
    (hq : q ∈ A.states) : q < s.counter.next := by
  rcases List.mem_append.1 hA with hA | hA
  · obtain ⟨b, hb, hA⟩ := h.fragments A hA
    exact Int.lt_of_lt_of_le (Build.lt_of_mem_states hA hq) (h.spans.between b hb).2
  · exact h.unions A hA q hq

/-! ### What a call keeps -/

/-- What is listed where something was added was listed before or is what was added. -/
theorem forall_mem_append_toList {ε : Type} {P : Automaton → Prop} {l : List Automaton}
    {r : Except ε Automaton} (hl : ∀ A ∈ l, P A) (hr : ∀ A, r = .ok A → P A) :
    ∀ A ∈ l ++ r.toOption.toList, P A := by
  intro A hA
  rcases List.mem_append.1 hA with hA | hA
  · exact hl A hA
  · cases r with
    | error e => exact absurd hA List.not_mem_nil
    | ok B => exact List.mem_singleton.1 hA ▸ hr B rfl

/-- The ledger stays sound when a category is built, also when this fails. -/
theorem Sound.build (h : s.Sound c) (k : Catalogue) (name : String) :
    (s.after (.build k name)).Sound c where
  spans := h.spans.append (.single ⟨k, name, s.counter⟩)
  fragments := by
    refine forall_mem_append_toList (fun A hA => ?_) (fun A hA => ?_)
    · obtain ⟨b, hb, hA⟩ := h.fragments A hA
      exact ⟨b, List.mem_append_left _ hb, hA⟩
    · exact ⟨⟨k, name, s.counter⟩, List.mem_append_right _ List.mem_cons_self, hA⟩
  unions A hA q hq :=
    Int.lt_of_lt_of_le (h.unions A hA q hq) (Build.next_le_after ⟨k, name, s.counter⟩)

theorem Sound.buildAll (h : s.Sound c) (k : Catalogue) (names : List String) :
    (s.after (.buildAll k names)).Sound c where
  spans := h.spans.append (k.spans_buildsOf ∅ s.counter names)
  fragments A hA := by
    rcases List.mem_append.1 hA with hA | hA
    · obtain ⟨b, hb, hA⟩ := h.fragments A hA
      exact ⟨b, List.mem_append_left _ hb, hA⟩
    · cases hr : (k.buildAll names s.counter).1 with
      | error e =>
        rw [hr] at hA
        exact absurd hA List.not_mem_nil
      | ok fs =>
        rw [hr] at hA
        obtain hA | ⟨b, hb, hA⟩ := Catalogue.exists_of_buildOnto hr hA
        · exact absurd hA List.not_mem_nil
        · exact ⟨b, List.mem_append_right _ hb, hA⟩
  unions A hA q hq :=
    Int.lt_of_lt_of_le (h.unions A hA q hq) (k.spans_buildsOf ∅ s.counter names).le

/-- A merge moves the counter by one or leaves it, and the union of what is below the counter and
the state that was next is below the counter afterwards. -/
theorem Sound.merge (h : s.Sound c) (parts : List Automaton) (name : String) :
    (s.after (.merge parts name)).Sound c := by
  have hadvance := s.counter.le_advance
  have hmoved : ∀ A ∈ s.unions, ∀ q ∈ A.states, q < s.counter.advance.next := fun A hA q hq =>
    Int.lt_of_lt_of_le (h.unions A hA q hq) hadvance
  obtain ⟨v, hr⟩ | ⟨v, hr⟩ | ⟨B, hr, -, hB⟩ := merge_some_cases parts s.counter name
  · have hafter : s.after (.merge parts name) = s := by
      simp [Ledger.after, hr, Except.toOption]
    rwa [hafter]
  · have hafter : s.after (.merge parts name) = { s with counter := s.counter.advance } := by
      simp [Ledger.after, hr, Except.toOption]
    rw [hafter]
    exact ⟨h.spans.mono hadvance, h.fragments, hmoved⟩
  · refine ⟨h.spans.mono (by rw [Ledger.after, hr]; exact hadvance), h.fragments, ?_⟩
    simp only [Ledger.after, hr, Option.getD_some, decide_eq_true_eq]
    split
    · -- the parts are below the counter, and the new start state is the one that was next
      rename_i hown
      refine forall_mem_append_toList hmoved fun A hA q hq => ?_
      cases hA
      rcases (hB.mem_states q).1 hq with rfl | ⟨C, hC, hq⟩
      · exact s.counter.lt_advance
      · exact Int.lt_of_lt_of_le (h.lt_of_mem (hown C hC) hq) hadvance
    · rwa [List.append_nil]

/-- **Every call keeps the ledger in order.** -/
theorem Sound.after (h : s.Sound c) (call : Call) : (s.after call).Sound c := by
  cases call with
  | build k name => exact h.build k name
  | buildAll k names => exact h.buildAll k names
  | merge parts name => exact h.merge parts name

/-- No call moves the counter back. -/
theorem next_le_after (s : Ledger) (call : Call) :
    s.counter.next ≤ (s.after call).counter.next := by
  cases call with
  | build k name => exact Build.next_le_after ⟨k, name, s.counter⟩
  | buildAll k names => exact (k.spans_buildsOf ∅ s.counter names).le
  | merge parts name =>
    obtain ⟨v, hr⟩ | ⟨v, hr⟩ | ⟨B, hr, -, -⟩ := merge_some_cases parts s.counter name
    · have hafter : (s.after (.merge parts name)).counter = s.counter := by simp [Ledger.after, hr]
      exact Int.le_of_eq (congrArg Counter.next hafter.symm)
    · rw [Ledger.after, hr]
      exact s.counter.le_advance
    · rw [Ledger.after, hr]
      exact s.counter.le_advance

/-- The ledger of any calls is sound. -/
theorem sound_recorded (c : Counter) (calls : List Call) : (recorded c calls).Sound c := by
  have hstart : Sound c { counter := c } :=
    ⟨.nil c, fun A hA => absurd hA List.not_mem_nil, fun A hA => absurd hA List.not_mem_nil⟩
  rw [recorded]
  -- the calls go on from any ledger in order, wherever its counter has come to
  generalize ({ counter := c } : Ledger) = s at hstart ⊢
  induction calls generalizing s with
  | nil => exact hstart
  | cons call calls ih => exact ih (s.after call) (hstart.after call)

/-- Fragments that were built can be merged. -/
theorem Sound.merge_eq (h : s.Sound c) {parts : List Automaton} (hnodup : parts.Nodup)
    (hparts : ∀ A ∈ parts, ∃ b ∈ s.builds, b.result = .ok A) (name : String) :
    ∃ A, Automaton.merge parts (some s.counter) name = (.ok A, some s.counter.advance) ∧
      A.IsUnion s.counter.next parts := by
  have hvalid : ∀ B ∈ parts, B.Valid := by
    intro B hB
    obtain ⟨b, -, hb⟩ := hparts B hB
    exact (Build.draft hb).valid
  have hlt : ∀ B ∈ parts, ∀ q ∈ B.states, q < s.counter.next := by
    intro B hB q hq
    obtain ⟨b, hmem, hb⟩ := hparts B hB
    exact Int.lt_of_lt_of_le (Build.lt_of_mem_states hb hq) (h.spans.between b hmem).2
  have hapart : parts.Pairwise Apart := hnodup.imp_of_mem fun hA hB hne =>
    h.spans.apart (hparts _ hA) (hparts _ hB) hne
  exact ⟨_, merge_eq_of_lt hvalid hapart hlt name, isUnion_unionFrom name hvalid hapart
    fun B hB hq => Int.lt_irrefl _ (hlt B hB _ hq)⟩

/-- **Automata from one counter never collide.**  Whatever is built and merged with a counter, and
wherever it stood at first: every fragment has the states that the counter hands out during its
build, all of them consecutive and beginning with the start state; an unknown category is refused
and takes no state; the counter never moves back; everything stays below it; fragments of different
builds share no state; and different fragments can be merged, under a start state above all
others. -/
theorem collisionFree_recorded (c : Counter) (calls : List Call) :
    (∀ b ∈ (recorded c calls).builds, ∀ A, b.result = .ok A →
      ∃ k : Nat, b.after.next = b.before.next + k ∧ A.start = some b.before.next ∧
        ∀ q, q ∈ A.states ↔ b.before.next ≤ q ∧ q < b.before.next + k) ∧
    (∀ b ∈ (recorded c calls).builds, b.catalogue b.name = none →
      b.result = .error (.unknownCategory b.name) ∧ b.after = b.before) ∧
    (∀ (k : Catalogue) names fs c', k.buildAll names (recorded c calls).counter = (.ok fs, c') →
      ∀ name rest, k name = none → k.buildAll (names ++ name :: rest) (recorded c calls).counter
        = (.error (.unknownCategory name), c')) ∧
    (∀ call, (recorded c calls).counter.next ≤ (recorded c (calls ++ [call])).counter.next) ∧
    (∀ A ∈ (recorded c calls).fragments ++ (recorded c calls).unions, ∀ q ∈ A.states,
      q < (recorded c calls).counter.next) ∧
    (∀ A ∈ (recorded c calls).fragments, ∃ b ∈ (recorded c calls).builds, b.result = .ok A) ∧
    (recorded c calls).builds.Pairwise (fun b b' => ∀ A B, b.result = .ok A → b'.result = .ok B →
      A.Apart B) ∧
    ∀ parts : List Automaton, parts.Nodup →
      (∀ A ∈ parts, ∃ b ∈ (recorded c calls).builds, b.result = .ok A) → ∀ name,
      ∃ A, Automaton.merge parts (some (recorded c calls).counter) name
          = (.ok A, some (recorded c calls).counter.advance) ∧
        A.start = some (recorded c calls).counter.next ∧
        (recorded c calls).counter.next ∈ A.states ∧
        ∀ q ∈ A.states, ¬ q = (recorded c calls).counter.next →
          q < (recorded c calls).counter.next := by
  have h := sound_recorded c calls
  refine ⟨fun b _ A => Build.exists_states, fun b _ => Build.eq_of_unknown,
    fun k names fs c' hfs name rest hname => Catalogue.buildAll_eq_of_unknown hfs hname rest,
    fun call => ?_, fun A => h.lt_of_mem, h.fragments,
    h.spans.ordered.imp fun hbb A B => Build.apart hbb, fun parts hnodup hparts name => ?_⟩
  · rw [recorded, recorded, List.foldl_append]
    exact next_le_after _ call
  · obtain ⟨A, hA, hunion⟩ := h.merge_eq hnodup hparts name
    refine ⟨A, hA, hunion.start_eq, (hunion.mem_states _).2 (Or.inl rfl), fun q hq hne => ?_⟩
    obtain ⟨B, hB, hq⟩ := ((hunion.mem_states q).1 hq).resolve_left hne
    obtain ⟨b, hb, hB⟩ := hparts B hB
    exact Int.lt_of_lt_of_le (Build.lt_of_mem_states hB hq) (h.spans.between b hb).2

/-- Two states for operators, none for a name of no category, three before a separator is refused,
and one for a merge of nothing. -/
example : (recorded ⟨-3⟩ [.build Catalogue.standard "Operator", .build Catalogue.standard "Foo",
    .build (fun _ => some (.run "ab" (some ".."))) "Bar", .merge [] "none"]).counter = ⟨3⟩ := by
  decide

end Ledger

end LexAutomata
