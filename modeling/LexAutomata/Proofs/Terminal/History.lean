/-
# Histories of a terminal

A history of inputs leads from the empty session to others (`After`); files may change
from one input to the next.  Every command leaves a sound session behind, and none fails
but building a name of no category and loading an unreadable file (`Sound.execute`,
`Sound.fails_iff`).  So every session that is reached is sound, and a failure
changes what building the names before would have changed, or nothing (`After.orderly`).
-/
import LexAutomata.Proofs.Source.Reading
import LexAutomata.Proofs.Terminal.Soundness

namespace LexAutomata.Terminal

open Catalogue

variable {s : Session}

/-! ## Commands that do not fail -/

/-- The command does not fail, and leaves a sound session behind. -/
structure Reaction.Sound (r : Reaction) : Prop where
  /-- The session is sound. -/
  session : r.session.Sound
  /-- Nothing failed. -/
  failure : r.failure = none

namespace Session.Sound

variable {name : String}

/-- A session stays sound when its fragments are merged. -/
theorem merge (hs : s.Sound) (result : String) : (s.merge result).Sound := by
  by_cases hbuilt : s.fragments.size = 0
  · rw [Session.merge, if_pos hbuilt]
    exact ⟨hs, rfl⟩
  · rw [hs.merge_eq hbuilt]
    have hmoved := hs.counter (Int.le_of_lt (Int.lt_succ s.counter.next))
    exact ⟨hmoved.keep (sound_unionFrom hs.drawn result) result, rfl⟩

theorem determinize (hs : s.Sound) (name result : String) : (s.determinize name result).Sound := by
  cases hx : s.store.get? name with
  | none =>
    rw [Session.determinize, hx]
    exact ⟨hs, rfl⟩
  | some x =>
    cases x with
    | table T =>
      rw [Session.determinize, hx]
      exact ⟨hs, rfl⟩
    | automaton A =>
      obtain ⟨q, -, h⟩ := hs.determinize_eq hx result
      obtain ⟨-, hchars, -⟩ := hs.sound name _ hx
      have htable : (Stored.table (A.subsetTable q)).Sound s.counter :=
        ⟨Table.intact_subsetTable A q, Automaton.oneCharacter_subsetTable hchars q⟩
      rw [h]
      exact ⟨hs.keep htable result, rfl⟩

theorem minimize (hs : s.Sound) (name : String) (criterion : Criterion) (result : String) :
    (s.minimize name criterion result).Sound := by
  cases hx : s.store.get? name with
  | none =>
    rw [Session.minimize, hx]
    exact ⟨hs, rfl⟩
  | some x =>
    cases x with
    | automaton A =>
      rw [Session.minimize, hx]
      exact ⟨hs, rfl⟩
    | table T =>
      obtain ⟨M, hM, -, lines, h⟩ := hs.minimize_eq hx criterion result
      rw [h]
      exact ⟨hs.keep hM result, rfl⟩

theorem delete (hs : s.Sound) (name : String) : (s.delete name).Sound := by
  rw [Session.delete]
  split
  · refine ⟨⟨fun a ha => ?_, hs.drawn.erase name, fun a x hx => ?_⟩, rfl⟩
    · rw [OrderedMap.mem_keys_erase] at ha ⊢
      exact ha.imp_right (hs.stored a)
    · rw [OrderedMap.get?_erase] at hx
      split at hx
      · cases hx
      · exact hs.sound a x hx
  · exact ⟨hs, rfl⟩

theorem draw (hs : s.Sound) (name : String) : (s.draw name).Sound := by
  rw [Session.draw]
  cases hx : s.store.get? name with
  | none => exact ⟨hs, rfl⟩
  | some x =>
    cases x with
    | automaton A => exact ⟨hs, rfl⟩
    | table T =>
      obtain ⟨hintact, hchars⟩ := hs.sound name _ hx
      obtain ⟨A, hA⟩ := Table.exists_toAutomaton_eq hintact hchars name
      simp only [hA]
      exact ⟨hs, rfl⟩

/-- What is stored can tell about every word. -/
theorem exists_accepts_eq (hs : s.Sound) {x : Stored} (hx : s.store.get? name = some x)
    (word : String) : ∃ b, Session.accepts x word = .ok b := by
  cases x with
  | automaton A =>
    obtain ⟨q, -, hq⟩ := (hs.sound name _ hx).1.start
    exact Automaton.exists_accepts_eq_ok hq word
  | table T => exact ⟨T.accepts word, rfl⟩

theorem test (hs : s.Sound) (name word : String) : (s.test name word).Sound := by
  rw [Session.test]
  cases hx : s.store.get? name with
  | none => exact ⟨hs, rfl⟩
  | some x =>
    obtain ⟨b, hb⟩ := hs.exists_accepts_eq hx word
    simp only [hb]
    cases b <;> exact ⟨hs, rfl⟩

theorem classify (hs : s.Sound) (token : String) : (s.classify token).Sound := by
  rw [Session.classify, hs.drawn.classify_eq]
  split <;> exact ⟨hs, rfl⟩

/-- A report can be made of any source text once all categories are built. -/
theorem exists_reportLines_eq (hs : s.Sound) (hall : ∀ a ∈ Category.all, a ∈ s.fragments.keys)
    (code : String) (kind : SourceReport) :
    ∃ lines, reportLines s.fragments code kind = .ok lines := by
  cases kind with
  | tokens =>
    obtain ⟨tokens, h⟩ := hs.drawn.exists_tokenize_eq code
    rw [reportLines, h]
    exact ⟨_, rfl⟩
  | errors =>
    obtain ⟨errors, h⟩ := hs.drawn.exists_lexemeErrors_eq code
    rw [reportLines, h]
    exact ⟨_, rfl⟩
  | symbols =>
    have hid : s.fragments.contains Category.identifier = true :=
      OrderedMap.contains_iff.2 (hall _ (by decide))
    obtain ⟨entries, h⟩ := hs.drawn.exists_symbolTable_eq hid code
    rw [reportLines, h]
    exact ⟨_, rfl⟩

theorem report (hs : s.Sound) (kind : SourceReport) : (s.report kind).Sound := by
  rw [Session.report]
  cases s.source with
  | none => exact ⟨hs, rfl⟩
  | some code =>
    by_cases hall : Category.all.all s.fragments.contains = true
    · have hbuilt : ∀ a ∈ Category.all, a ∈ s.fragments.keys := fun a ha =>
        OrderedMap.contains_iff.1 (List.all_eq_true.1 hall a ha)
      obtain ⟨lines, h⟩ := hs.exists_reportLines_eq hbuilt code kind
      simp only [if_pos hall, h]
      exact ⟨hs, rfl⟩
    · simp only [if_neg hall]
      exact ⟨hs, rfl⟩

/-! ## Building and loading -/

/-- Building goes on after a category in a sound session, and ends at a name of no category. -/
theorem build_cons (hs : s.Sound) (name : String) :
    (name ∈ Category.all ∧ ∃ (t : Session) (line : String), t.Sound ∧
      ∀ names, s.build (name :: names)
        = { t.build names with lines := line :: (t.build names).lines }) ∨
    (¬ name ∈ Category.all ∧ ∀ names, s.build (name :: names)
      = { session := s, failure := some (.build (.unknownCategory name)) }) := by
  rcases s.build_cons name with ⟨hbuilt, h⟩ | ⟨-, hunknown, h⟩ | ⟨-, A, c, hA, h⟩
  · obtain ⟨A, hA⟩ := OrderedMap.mem_keys_iff.1 hbuilt
    exact Or.inl ⟨hs.drawn.known hA, s, _, hs, h⟩
  · exact Or.inr ⟨hunknown, h⟩
  · exact Or.inl ⟨hA.known, _, _, hs.enroll hA, h⟩

/-- A session stays sound when categories are built, also when one of them fails. -/
theorem build (hs : s.Sound) (names : List String) : (s.build names).session.Sound := by
  induction names generalizing s with
  | nil => exact hs
  | cons name names ih =>
    rcases hs.build_cons name with ⟨-, t, line, ht, h⟩ | ⟨-, h⟩
    · rw [h]
      exact ih ht
    · rw [h]
      exact hs

/-- Building ends at a name of no category as if it and the names after it had not been there. -/
theorem build_append (hs : s.Sound) {before : List String}
    (hbefore : ∀ a ∈ before, a ∈ Category.all) {name : String} (hname : ¬ name ∈ Category.all)
    (after : List String) :
    s.build (before ++ name :: after)
      = { s.build before with failure := some (.build (.unknownCategory name)) } := by
  induction before generalizing s with
  | nil =>
    rcases hs.build_cons name with ⟨h, -⟩ | ⟨-, h⟩
    · exact absurd h hname
    · exact h after
  | cons a before ih =>
    rw [List.forall_mem_cons] at hbefore
    rcases hs.build_cons a with ⟨-, t, line, ht, h⟩ | ⟨h, -⟩
    · rw [List.cons_append, h, h, ih ht hbefore.2]
    · exact absurd hbefore.1 h

/-- Nothing fails when only categories are built. -/
theorem failure_build (hs : s.Sound) {names : List String}
    (hnames : ∀ a ∈ names, a ∈ Category.all) : (s.build names).failure = none := by
  induction names generalizing s with
  | nil => rfl
  | cons name names ih =>
    rw [List.forall_mem_cons] at hnames
    rcases hs.build_cons name with ⟨-, t, line, ht, h⟩ | ⟨h, -⟩
    · rw [h]
      exact ih ht hnames.2
    · exact absurd hnames.1 h

/-- If building fails, some name is the first of no category. -/
theorem exists_of_failure_build (hs : s.Sound) {names : List String}
    (hfail : ¬ (s.build names).failure = none) :
    ∃ before name after, names = before ++ name :: after ∧ (∀ a ∈ before, a ∈ Category.all) ∧
      ¬ name ∈ Category.all := by
  cases hfind : names.find? fun a => ¬ a ∈ Category.all with
  | none =>
    have hnames : ∀ a ∈ names, a ∈ Category.all := by simpa using List.find?_eq_none.1 hfind
    exact absurd (hs.failure_build hnames) hfail
  | some name =>
    obtain ⟨hname, before, after, rfl, hbefore⟩ := List.find?_eq_some_iff_append.1 hfind
    exact ⟨before, name, after, rfl, by simpa using hbefore, by simpa using hname⟩

/-- A session stays sound when a source is loaded, and also when it cannot be. -/
theorem load (hs : s.Sound) (files : Files) (file : String) :
    (s.load files file).session.Sound := by
  rw [Session.load]
  split
  · exact hs
  · exact ⟨hs.stored, hs.drawn, hs.sound⟩

end Session.Sound

/-- The ways in which a command fails, with the reaction to it. -/
inductive Session.Fails (files : Files) (s : Session) : Command → Reaction → Prop
  /-- Building comes to a name of no category, after all names before it are built. -/
  | build {before after : List String} {name : String} (hbefore : ∀ a ∈ before, a ∈ Category.all)
      (hbuilt : (s.build before).failure = none) (hname : ¬ name ∈ Category.all) :
      Fails files s (.build (before ++ name :: after))
        { s.build before with failure := some (.build (.unknownCategory name)) }
  /-- Loading finds no source text, and changes nothing. -/
  | load {file : String} {e : Source.ReadError} (hfile : Source.Unreadable files file)
      (hread : Source.read files file = .error e) :
      Fails files s (.load file) { session := s, failure := some (.read e) }

/-! ## Steps -/

namespace Session.Sound

/-- **Every command leaves a sound session behind.** -/
theorem execute (hs : s.Sound) (files : Files) (command : Command) :
    (s.execute files command).session.Sound := by
  cases command with
  | build names => exact hs.build names
  | merge result => exact (hs.merge result).session
  | draw name => exact (hs.draw name).session
  | test name word => exact (hs.test name word).session
  | classify token => exact (hs.classify token).session
  | determinize name result => exact (hs.determinize name result).session
  | minimize name criterion result => exact (hs.minimize name criterion result).session
  | load file => exact hs.load files file
  | report kind => exact (hs.report kind).session
  | delete name => exact (hs.delete name).session
  | clear =>
    exact ⟨fun _ ha => absurd ha List.not_mem_nil, Drawn.empty s.counter, fun _ _ hx => by cases hx⟩
  | nothing | leave | help | list | present | incomplete | unknown => exact hs

/-- No command fails in another way. -/
theorem fails_of_failure (hs : s.Sound) {files : Files} {command : Command}
    (hfail : ¬ (s.execute files command).failure = none) :
    s.Fails files command (s.execute files command) := by
  cases command with
  | build names =>
    obtain ⟨before, name, after, rfl, hbefore, hname⟩ := hs.exists_of_failure_build hfail
    rw [Session.execute, hs.build_append hbefore hname]
    exact .build hbefore (hs.failure_build hbefore) hname
  | load file =>
    rw [Session.execute, Session.load] at hfail ⊢
    cases hread : Source.read files file with
    | ok code =>
      rw [hread] at hfail
      exact absurd rfl hfail
    | error e => exact .load (Source.exists_read_eq_error_iff.1 ⟨e, hread⟩) hread
  | merge result => exact absurd (hs.merge result).failure hfail
  | draw name => exact absurd (hs.draw name).failure hfail
  | test name word => exact absurd (hs.test name word).failure hfail
  | classify token => exact absurd (hs.classify token).failure hfail
  | determinize name result => exact absurd (hs.determinize name result).failure hfail
  | minimize name criterion result =>
    exact absurd (hs.minimize name criterion result).failure hfail
  | report kind => exact absurd (hs.report kind).failure hfail
  | delete name => exact absurd (hs.delete name).failure hfail
  | nothing | leave | help | list | present | clear | incomplete | unknown =>
    exact absurd rfl hfail

/-- **Commands fail in these ways.** -/
theorem fails_iff (hs : s.Sound) {files : Files} {command : Command} {r : Reaction} :
    s.Fails files command r ↔ s.execute files command = r ∧ ¬ r.failure = none := by
  constructor
  · rintro (⟨hbefore, -, hname⟩ | ⟨-, hread⟩)
    · exact ⟨hs.build_append hbefore hname _, Option.some_ne_none _⟩
    · rw [Session.execute, Session.load, hread]
      exact ⟨rfl, Option.some_ne_none _⟩
  · rintro ⟨rfl, hfail⟩
    exact hs.fails_of_failure hfail

end Session.Sound

/-- A line that does not end the session is answered by its command. -/
theorem respond_line {files : Files} {text : String} (h : ¬ Command.ofLine text = .leave) :
    respond files s (.line text) = some (s.execute files (Command.ofLine text)) := by
  rw [respond]
  split
  · exact absurd ‹_› h
  · rfl

/-- An input that does not end the dialogue interrupts, or is the line of a command. -/
theorem exists_of_respond {files : Files} {i : Input} {r : Reaction}
    (hr : respond files s i = some r) :
    (i = .interrupt ∧ r = { session := s, lines := ["\nUse 'exit' to quit"] }) ∨
      ∃ text, i = .line text ∧ r = s.execute files (Command.ofLine text) := by
  cases i with
  | interrupt => exact Or.inl ⟨rfl, (Option.some.inj hr).symm⟩
  | line text =>
    refine Or.inr ⟨text, rfl, ?_⟩
    by_cases h : Command.ofLine text = .leave
    · rw [respond, h] at hr
      cases hr
    · rw [respond_line h] at hr
      exact (Option.some.inj hr).symm

/-! ## Histories -/

/-- The inputs lead from the empty session to the session, whatever the files are meanwhile. -/
inductive After : List Input → Session → Prop
  /-- Before the first input the session is empty. -/
  | start : After [] {}
  /-- One more input has its effect. -/
  | step {inputs : List Input} {s : Session} (h : After inputs s) {files : Files} {i : Input}
      {r : Reaction} (hr : respond files s i = some r) : After (inputs ++ [i]) r.session

/-- The line of a command that does not end the dialogue is one more input. -/
theorem After.line {inputs : List Input} (h : After inputs s) (files : Files) {text : String}
    {command : Command} (hline : Command.ofLine text = command) (hstay : ¬ command = .leave) :
    After (inputs ++ [.line text]) (s.execute files command).session := by
  subst hline
  exact h.step (respond_line hstay)

/-- **Every session that is reached is sound.** -/
theorem After.sound {inputs : List Input} (h : After inputs s) : s.Sound := by
  induction h with
  | start => exact Session.sound_empty
  | step _ hr ih =>
    rcases exists_of_respond hr with ⟨-, rfl⟩ | ⟨text, -, rfl⟩
    · exact ih
    · exact ih.execute _ _

/-- What is built and stored stays in order. -/
structure Session.Ordered (s : Session) : Prop where
  /-- Every fragment is stored under its name, or something else is. -/
  stored : ∀ name ∈ s.fragments.keys, name ∈ s.store.keys
  /-- Every fragment is valid. -/
  fragments : ∀ name A, s.fragments.get? name = some A → A.validate = .ok ()
  /-- Different fragments have no state in common. -/
  apart : ∀ a b A B, s.fragments.get? a = some A → s.fragments.get? b = some B → ¬ a = b →
    ∀ q ∈ A.states, ¬ q ∈ B.states
  /-- Every stored automaton is valid. -/
  automata : ∀ name A, s.store.get? name = some (.automaton A) → A.validate = .ok ()
  /-- The states of a stored automaton are below the counter. -/
  below : ∀ name A, s.store.get? name = some (.automaton A) → ∀ q ∈ A.states, q < s.counter.next
  /-- The start state, the targets and the final states of a stored table have rows. -/
  tables : ∀ name T, s.store.get? name = some (.table T) →
    T.start ∈ T.states ∧ (∀ t ∈ T.transitions, t.2.2 ∈ T.states) ∧ ∀ q ∈ T.finals, q ∈ T.states

/-- A sound session is in order. -/
theorem Session.Sound.ordered (hs : s.Sound) : s.Ordered where
  stored := hs.stored
  fragments _ _ hA := Automaton.validate_eq_ok_iff.2 (hs.drawn.valid hA)
  apart := hs.drawn.apart
  automata name _ hA := Automaton.validate_eq_ok_iff.2 (hs.sound name _ hA).1
  below name _ hA := (hs.sound name _ hA).2.2
  tables name _ hT := by
    obtain ⟨hintact, -⟩ := hs.sound name _ hT
    exact ⟨hintact.start, fun t ht => hintact.targets _ _ _ (Table.mem_transitions_iff.1 ht),
      hintact.finals⟩

/-- **Every session that is reached is in order**, and whatever the files are, the reactions to the
next input that fail are those of a command that fails in its way. -/
theorem After.orderly {inputs : List Input} (h : After inputs s) :
    s.Ordered ∧ ∀ files i r, respond files s i = some r ∧ ¬ r.failure = none ↔
      ∃ text, i = .line text ∧ s.Fails files (Command.ofLine text) r := by
  refine ⟨h.sound.ordered, fun files i r => ⟨?_, ?_⟩⟩
  · rintro ⟨hr, hfail⟩
    rcases exists_of_respond hr with ⟨-, rfl⟩ | ⟨text, rfl, rfl⟩
    · exact absurd rfl hfail
    · exact ⟨text, rfl, h.sound.fails_of_failure hfail⟩
  · rintro ⟨text, rfl, hfails⟩
    obtain ⟨rfl, hfail⟩ := h.sound.fails_iff.1 hfails
    have hstay : ¬ Command.ofLine text = .leave := fun hleave => by
      rw [hleave] at hfails
      cases hfails
    exact ⟨respond_line hstay, hfail⟩

/-- Building of an operator and of a name of no category. -/
def strayBuild : Reaction := ({} : Session).build ["Operator", "Foo"]

theorem orderly_strayBuild :
    After [.line "build Operator Foo"] strayBuild.session ∧ strayBuild.session.Ordered ∧
      ∀ files i r, respond files strayBuild.session i = some r ∧ ¬ r.failure = none ↔
        ∃ text, i = .line text ∧ strayBuild.session.Fails files (Command.ofLine text) r := by
  have h : After [.line "build Operator Foo"] strayBuild.session :=
    After.start.line {} (by decide +kernel : _ = Command.build ["Operator", "Foo"]) nofun
  exact ⟨h, h.orderly⟩

end LexAutomata.Terminal
