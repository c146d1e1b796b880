/-
# Outlines of sessions

An outline remembers of a session which categories are built, and for each name the kind
of what is stored and the categories whose words it is to accept (`Outline`).  Commands
change outlines without regard to automata (`Outline.execute`).  Every session is
described by the outline of its history (`After.describes`), since what each command stores
accepts the words of the mark that the outline stores.  So what testing and classifying
print is known from the outline and the grammar alone (`After.refines`).
-/
import LexAutomata.Proofs.Terminal.Command
import LexAutomata.Proofs.Terminal.History

namespace LexAutomata.Terminal

open Catalogue

/-! ## Outlines -/

/-- The kinds of what can be stored. -/
inductive Kind where
  /-- An automaton. -/
  | automaton
  /-- A table. -/
  | table
deriving DecidableEq

/-- The kind of what is stored, and the categories whose words it accepts. -/
structure Mark where
  /-- The kind. -/
  kind : Kind
  /-- The categories. -/
  categories : Finset String
deriving DecidableEq

/-- Does the word belong to one of the categories? -/
def Mark.Covers (m : Mark) (word : String) : Prop := ∃ a ∈ m.categories, Grammar.Belongs a word

instance (m : Mark) (word : String) : Decidable (m.Covers word) :=
  inferInstanceAs (Decidable (∃ a ∈ m.categories, Grammar.Belongs a word))

/-- What is to be remembered of a session. -/
structure Outline where
  /-- The categories that are built. -/
  built : Finset String := ∅
  /-- What is stored, by name. -/
  marks : OrderedMap String Mark := ∅
deriving DecidableEq

namespace Outline

/-- Stores something of the given mark under a name. -/
def keep (o : Outline) (name : String) (m : Mark) : Outline :=
  { o with marks := o.marks.insert name m }

/-- Builds a category. -/
def enroll (o : Outline) (name : String) : Outline :=
  { o with built := insert name o.built }.keep name ⟨.automaton, {name}⟩

/-- Builds categories, except those that are built, up to the first that is none. -/
def build (o : Outline) : List String → Outline
  | [] => o
  | name :: names =>
    if name ∈ o.built then o.build names
    else if name ∈ Category.all then (o.enroll name).build names
    else o

/-- Merges what is built, if anything is. -/
def merge (o : Outline) (result : String) : Outline :=
  if o.built = ∅ then o else o.keep result ⟨.automaton, o.built⟩

/-- Makes a table of something stored, if that is of the given kind. -/
def tabulate (o : Outline) (kind : Kind) (name result : String) : Outline :=
  match o.marks.get? name with
  | none => o
  | some m => if m.kind = kind then o.keep result ⟨.table, m.categories⟩ else o

/-- Forgets something stored, and that it was built. -/
def delete (o : Outline) (name : String) : Outline :=
  if o.marks.contains name then
    { built := o.built.erase name, marks := o.marks.erase name }
  else o

/-- The effect of a command. -/
def execute (o : Outline) : Command → Outline
  | .build names => o.build names
  | .merge result => o.merge result
  | .determinize name result => o.tabulate .automaton name result
  | .minimize name _ result => o.tabulate .table name result
  | .delete name => o.delete name
  | .clear => {}
  | .nothing | .leave | .help | .list | .present _ | .draw _ | .test _ _ | .classify _ | .load _
  | .report _ | .incomplete _ | .unknown _ => o

/-- The first of the built categories, in the order of priority, to which the word belongs. -/
def category? (o : Outline) (word : String) : Option String :=
  Category.priority.find? fun a => a ∈ o.built ∧ Grammar.Belongs a word

/-- The effect of an input. -/
def respond (o : Outline) : Input → Outline
  | .interrupt => o
  | .line text => o.execute (Command.ofLine text)

/-- The outline after the inputs. -/
def after (inputs : List Input) : Outline := inputs.foldl respond {}

end Outline

/-! ## Descriptions -/

/-- What is stored is of the kind of the mark, and accepts the words of its categories. -/
def Mark.Describes (m : Mark) : Stored → Prop
  | .automaton A => m.kind = .automaton ∧ ∀ word, A.accepts word = .ok (decide (m.Covers word))
  | .table T => m.kind = .table ∧ ∀ word, T.accepts word = decide (m.Covers word)

namespace Outline

/-- The outline has the fragments of the session, and a mark for all that is stored. -/
structure Describes (o : Outline) (s : Session) : Prop where
  /-- The same categories are built. -/
  mem_built_iff : ∀ a, a ∈ o.built ↔ a ∈ s.fragments.keys
  /-- The same names are stored, and the marks describe what is stored. -/
  marks : ∀ name, Option.Rel Mark.Describes (o.marks.get? name) (s.store.get? name)

variable {o : Outline} {s : Session} {name : String}

namespace Describes

/-- What is stored under a name is described when it has a mark that describes it. -/
theorem keep (h : o.Describes s) {m : Mark} {x : Stored} (hx : m.Describes x) (name : String) :
    (o.keep name m).Describes (s.keep name x) where
  mem_built_iff := h.mem_built_iff
  marks a := by
    rw [Outline.keep, Session.keep, OrderedMap.get?_insert, OrderedMap.get?_insert]
    split
    · exact .some hx
    · exact h.marks a

/-- Nothing is stored where there is no mark. -/
theorem get?_eq_none_iff (h : o.Describes s) :
    o.marks.get? name = none ↔ s.store.get? name = none := by
  have hname := h.marks name
  generalize o.marks.get? name = m at hname
  generalize s.store.get? name = x at hname
  cases hname <;> simp

/-- What is stored has a mark. -/
theorem exists_mark (h : o.Describes s) {x : Stored} (hx : s.store.get? name = some x) :
    ∃ m, o.marks.get? name = some m ∧ m.Describes x := by
  have hname := h.marks name
  rw [hx] at hname
  generalize o.marks.get? name = m at hname
  cases hname with
  | some hm => exact ⟨_, rfl, hm⟩

/-- The names with a mark are those that are stored. -/
theorem mem_keys_iff (h : o.Describes s) : name ∈ o.marks.keys ↔ name ∈ s.store.keys := by
  rw [← not_iff_not, ← OrderedMap.get?_eq_none_iff, ← OrderedMap.get?_eq_none_iff,
    h.get?_eq_none_iff]

/-- Nothing is marked as built when there are no fragments. -/
theorem built_eq_empty_iff (h : o.Describes s) : o.built = ∅ ↔ s.fragments.size = 0 := by
  rw [OrderedMap.size_eq_zero_iff, Finset.eq_empty_iff_forall_notMem]
  simp only [h.mem_built_iff, OrderedMap.get?_eq_none_iff]

/-! ### What the commands do -/

/-- A category that was built is described. -/
theorem enroll (h : o.Describes s) {A : Automaton} {c : Counter}
    (hA : IsStandard name A s.counter c) : (o.enroll name).Describes (s.enroll name A c) := by
  have hbuilt : Describes { o with built := insert name o.built }
      { s with counter := c, fragments := s.fragments.insert name A } := by
    refine ⟨fun a => ?_, h.marks⟩
    rw [Finset.mem_insert, OrderedMap.mem_keys_insert, h.mem_built_iff]
  have hmark : Mark.Describes ⟨.automaton, {name}⟩ (.automaton A) := by
    refine ⟨rfl, fun word => ?_⟩
    rw [hA.accepts_eq]
    simp [Mark.Covers]
  exact hbuilt.keep hmark name

/-- What building does is described. -/
theorem build (h : o.Describes s) (names : List String) :
    (o.build names).Describes (s.build names).session := by
  induction names generalizing o s with
  | nil => exact h
  | cons name names ih =>
    rcases s.build_cons name with ⟨hbuilt, hs⟩ | ⟨hnew, hunknown, hs⟩ | ⟨hnew, A, c, hA, hs⟩
    · rw [hs, Outline.build, if_pos ((h.mem_built_iff name).2 hbuilt)]
      exact ih h
    · rw [hs, Outline.build, if_neg fun hb => hnew ((h.mem_built_iff name).1 hb),
        if_neg hunknown]
      exact h
    · rw [hs, Outline.build, if_neg fun hb => hnew ((h.mem_built_iff name).1 hb),
        if_pos hA.known]
      exact ih (h.enroll hA)

theorem merge (h : o.Describes s) (hs : s.Sound) (result : String) :
    (o.merge result).Describes (s.merge result).session := by
  by_cases hbuilt : s.fragments.size = 0
  · rw [Outline.merge, if_pos (h.built_eq_empty_iff.2 hbuilt), Session.merge, if_pos hbuilt]
    exact h
  · rw [Outline.merge, if_neg (mt h.built_eq_empty_iff.1 hbuilt), hs.merge_eq hbuilt]
    have hmoved : o.Describes { s with counter := s.counter.advance } := ⟨h.mem_built_iff, h.marks⟩
    have hmark : Mark.Describes ⟨.automaton, o.built⟩
        (.automaton (Automaton.unionFrom result s.counter.next s.fragments.values)) := by
      refine ⟨rfl, fun word => ?_⟩
      rw [hs.drawn.accepts_unionFrom, Except.ok.injEq, Bool.eq_iff_iff, List.any_eq_true,
        decide_eq_true_eq]
      simp only [Mark.Covers, h.mem_built_iff, decide_eq_true_eq]
    exact hmoved.keep hmark result

theorem determinize (h : o.Describes s) (hs : s.Sound) (name result : String) :
    (o.tabulate .automaton name result).Describes (s.determinize name result).session := by
  cases hx : s.store.get? name with
  | none =>
    rw [tabulate, h.get?_eq_none_iff.2 hx, Session.determinize, hx]
    exact h
  | some x =>
    obtain ⟨m, hm, hdesc⟩ := h.exists_mark hx
    rw [tabulate, hm]
    cases x with
    | table T =>
      simp only [hdesc.1, reduceCtorEq, if_false, Session.determinize, hx]
      exact h
    | automaton A =>
      obtain ⟨q, hq, hdet⟩ := hs.determinize_eq hx result
      simp only [hdesc.1, if_true, hdet]
      have hmark : Mark.Describes ⟨.table, m.categories⟩ (.table (A.subsetTable q)) := by
        refine ⟨rfl, fun word => ?_⟩
        rw [← Except.ok.injEq, ← Automaton.accepts_subsetTable hq]
        exact hdesc.2 word
      exact h.keep hmark result

theorem minimize (h : o.Describes s) (hs : s.Sound) (name : String) (criterion : Criterion)
    (result : String) :
    (o.tabulate .table name result).Describes (s.minimize name criterion result).session := by
  cases hx : s.store.get? name with
  | none =>
    rw [tabulate, h.get?_eq_none_iff.2 hx, Session.minimize, hx]
    exact h
  | some x =>
    obtain ⟨m, hm, hdesc⟩ := h.exists_mark hx
    rw [tabulate, hm]
    cases x with
    | automaton A =>
      simp only [hdesc.1, reduceCtorEq, if_false, Session.minimize, hx]
      exact h
    | table T =>
      obtain ⟨M, -, hwords, lines, hmin⟩ := hs.minimize_eq hx criterion result
      simp only [hdesc.1, if_true, hmin]
      have hmark : Mark.Describes ⟨.table, m.categories⟩ (.table M) :=
        ⟨rfl, fun word => (hwords word).trans (hdesc.2 word)⟩
      exact h.keep hmark result

theorem delete (h : o.Describes s) (name : String) :
    (o.delete name).Describes (s.delete name).session := by
  have hcontains : o.marks.contains name = s.store.contains name := by
    rw [Bool.eq_iff_iff, OrderedMap.contains_iff, OrderedMap.contains_iff, h.mem_keys_iff]
  rw [Outline.delete, Session.delete, hcontains]
  split
  · refine ⟨fun a => ?_, fun a => ?_⟩
    · rw [Finset.mem_erase, OrderedMap.mem_keys_erase, h.mem_built_iff]
    · rw [OrderedMap.get?_erase, OrderedMap.get?_erase]
      split
      · exact .none
      · exact h.marks a
  · exact h

/-- **Every command keeps the description.** -/
theorem execute (h : o.Describes s) (hs : s.Sound) (files : Files) (command : Command) :
    (o.execute command).Describes (s.execute files command).session := by
  cases command with
  | build names => exact h.build names
  | merge result => exact h.merge hs result
  | determinize name result => exact h.determinize hs name result
  | minimize name criterion result => exact h.minimize hs name criterion result
  | delete name => exact h.delete name
  | clear =>
    exact ⟨fun a => iff_of_false (Finset.notMem_empty a) List.not_mem_nil, fun _ => .none⟩
  | draw name =>
    rw [Outline.execute, Session.execute, Session.session_draw]
    exact h
  | test name word =>
    rw [Outline.execute, Session.execute, Session.session_test]
    exact h
  | classify token =>
    rw [Outline.execute, Session.execute, Session.session_classify]
    exact h
  | report kind =>
    rw [Outline.execute, Session.execute, Session.session_report]
    exact h
  | load file =>
    rw [Outline.execute, Session.execute, Session.load]
    split
    · exact h
    · exact ⟨h.mem_built_iff, h.marks⟩
  | nothing | leave | help | list | present | incomplete | unknown => exact h

/-! ### What is printed -/

/-- **Testing tells whether the word belongs to a category of the mark.** -/
theorem test_eq (h : o.Describes s) {m : Mark} (hm : o.marks.get? name = some m) (word : String) :
    s.test name word
      = { session := s
          lines := [if m.Covers word then s!"'{word}' is ACCEPTED"
            else s!"'{word}' is REJECTED"] } := by
  have hname := h.marks name
  rw [hm] at hname
  generalize hx : s.store.get? name = x at hname
  cases hname with
  | @some _ x hdesc =>
    have haccepts : Session.accepts x word = .ok (decide (m.Covers word)) := by
      cases x with
      | automaton A => exact hdesc.2 word
      | table T => exact congrArg Except.ok (hdesc.2 word)
    rw [Session.test, hx]
    simp only [haccepts]
    by_cases hcovers : m.Covers word <;> simp [hcovers]

/-- **Classifying tells the first category that is built and to which the token belongs.** -/
theorem classify_eq (h : o.Describes s) (hs : s.Sound) (hbuilt : ¬ o.built = ∅) (token : String) :
    s.classify token
      = { session := s
          lines :=
            ["Token: " ++ token ++ ", Type: " ++ (o.category? token).getD "Unrecognized"] } := by
  have hcategory : (Category.priority.find? fun a =>
      s.fragments.contains a && decide (Grammar.Belongs a token)) = o.category? token := by
    refine congrArg (Category.priority.find? ·) (funext fun a => ?_)
    rw [Bool.eq_iff_iff, Bool.and_eq_true, OrderedMap.contains_iff, ← h.mem_built_iff,
      decide_eq_true_eq, decide_eq_true_eq]
  rw [Session.classify, if_neg (mt h.built_eq_empty_iff.2 hbuilt), hs.drawn.classify_eq, hcategory]
  rfl

end Describes

/-! ## Names -/

/-- What is stored under a name was stored before, or is stored by the command. -/
theorem mem_keys_build {names : List String} {a : String} (ha : a ∈ (o.build names).marks.keys) :
    a ∈ o.marks.keys ∨ a ∈ names := by
  induction names generalizing o with
  | nil => exact Or.inl ha
  | cons name names ih =>
    rw [build] at ha
    split at ha
    · exact (ih ha).imp_right (List.mem_cons_of_mem _)
    · split at ha
      · rcases ih ha with ha | ha
        · rw [enroll, keep, OrderedMap.mem_keys_insert] at ha
          exact ha.elim (fun h => Or.inr (h ▸ List.mem_cons_self)) Or.inl
        · exact Or.inr (List.mem_cons_of_mem _ ha)
      · exact Or.inl ha

/-- Tabulating marks no name but that of its result. -/
theorem mem_keys_tabulate {kind : Kind} {result a : String}
    (ha : a ∈ (o.tabulate kind name result).marks.keys) : a ∈ o.marks.keys ∨ a ∈ [result] := by
  rw [tabulate] at ha
  split at ha
  · exact Or.inl ha
  · split at ha
    · rw [keep, OrderedMap.mem_keys_insert, or_comm] at ha
      simpa using ha
    · exact Or.inl ha

/-- A name under which something is stored was there before, or is a result of the command. -/
theorem mem_keys_execute {command : Command} {a : String}
    (ha : a ∈ (o.execute command).marks.keys) : a ∈ o.marks.keys ∨ a ∈ command.results := by
  cases command with
  | build names => exact mem_keys_build ha
  | merge result =>
    rw [execute, merge] at ha
    split at ha
    · exact Or.inl ha
    · rw [keep, OrderedMap.mem_keys_insert, or_comm] at ha
      simpa [Command.results] using ha
  | determinize name result => exact mem_keys_tabulate ha
  | minimize name criterion result => exact mem_keys_tabulate ha
  | delete name =>
    rw [execute, delete] at ha
    split at ha
    · exact Or.inl (OrderedMap.mem_keys_erase.1 ha).2
    · exact Or.inl ha
  | clear => exact absurd ha List.not_mem_nil
  | nothing | leave | help | list | present | draw | test | classify | load | report
  | incomplete | unknown => exact Or.inl ha

/-- **All that is stored is named by words.** -/
theorem isWord_of_mem_keys_after {inputs : List Input} {a : String}
    (ha : a ∈ (after inputs).marks.keys) : Text.IsWord a := by
  suffices h : ∀ o : Outline, (∀ b ∈ o.marks.keys, Text.IsWord b) →
      ∀ b ∈ (inputs.foldl respond o).marks.keys, Text.IsWord b from
    h {} (fun b hb => absurd hb List.not_mem_nil) a ha
  clear ha
  induction inputs with
  | nil => exact fun o ho => ho
  | cons i inputs ih =>
    intro o ho
    refine ih (o.respond i) fun b hb => ?_
    cases i with
    | interrupt => exact ho b hb
    | line text => exact (mem_keys_execute hb).elim (ho b) Command.isWord_of_mem_results

end Outline

/-! ## Histories -/

variable {s : Session} {inputs : List Input}

/-- **The outline of a history describes the session that it leads to.** -/
theorem After.describes (h : After inputs s) : (Outline.after inputs).Describes s := by
  induction h with
  | start =>
    exact ⟨fun a => iff_of_false (Finset.notMem_empty a) List.not_mem_nil, fun _ => .none⟩
  | step h hr ih =>
    rw [Outline.after, List.foldl_append]
    rcases exists_of_respond hr with ⟨rfl, rfl⟩ | ⟨text, rfl, rfl⟩
    · exact ih
    · exact ih.execute h.sound _ _

/-- **What testing and classifying print is known from the outline.**  After every history, the
outline has the built categories and a mark for every stored name.  Testing a word tells whether
it belongs to a category of the mark, and classifying tells the first built category to which the
token belongs. -/
theorem After.refines (h : After inputs s) :
    (∀ a, a ∈ (Outline.after inputs).built ↔ a ∈ s.fragments.keys) ∧
    (∀ name, name ∈ (Outline.after inputs).marks.keys ↔ name ∈ s.store.keys) ∧
    (∀ name m, (Outline.after inputs).marks.get? name = some m →
      ∀ files word, Text.IsWord word →
        respond files s (.line ("test " ++ name ++ " " ++ word))
          = some { session := s
                   lines := [if m.Covers word then s!"'{word}' is ACCEPTED"
                     else s!"'{word}' is REJECTED"] }) ∧
    (¬ (Outline.after inputs).built = ∅ → ∀ files token, Text.IsWord token →
      respond files s (.line ("classify " ++ token))
        = some { session := s
                 lines := ["Token: " ++ token ++ ", Type: "
                   ++ ((Outline.after inputs).category? token).getD "Unrecognized"] }) := by
  have hdesc := h.describes
  refine ⟨hdesc.mem_built_iff, fun name => hdesc.mem_keys_iff, fun name m hm files word hword => ?_,
    fun hbuilt files token htoken => ?_⟩
  · have hname : Text.IsWord name :=
      Outline.isWord_of_mem_keys_after (OrderedMap.mem_keys_iff.2 ⟨m, hm⟩)
    have hline := Command.ofLine_test hname hword
    rw [respond_line (by simp [hline]), hline, Session.execute, hdesc.test_eq hm]
  · have hline := Command.ofLine_classify htoken
    rw [respond_line (by simp [hline]), hline, Session.execute,
      hdesc.classify_eq h.sound hbuilt]

/-- The lines by which the union of operators and numbers comes in place of the operators, and its
table in place of the numbers. -/
def shadowing : List Input :=
  [.line "build Operator Number", .line "merge Operator", .line "to_dfa Operator Number"]

/-- The session that these lines lead to. -/
def shadowed : Session :=
  (((({} : Session).build ["Operator", "Number"]).session.merge "Operator").session.determinize
    "Operator" "Number").session

theorem refines_shadowed :
    After shadowing shadowed ∧
    respond {} shadowed (.line "test Number +")
      = some { session := shadowed, lines := ["'+' is ACCEPTED"] } ∧
    respond {} shadowed (.line "classify +")
      = some { session := shadowed, lines := ["Token: +, Type: Operator"] } := by
  have hbuild : Command.ofLine "build Operator Number" = .build ["Operator", "Number"] := by
    decide +kernel
  have hmerge : Command.ofLine "merge Operator" = .merge "Operator" := by decide +kernel
  have htable : Command.ofLine "to_dfa Operator Number" = .determinize "Operator" "Number" := by
    decide +kernel
  have h : After shadowing shadowed :=
    ((After.start.line {} hbuild nofun).line {} hmerge nofun).line {} htable nofun
  have hmark : (Outline.after shadowing).marks.get? "Number"
      = some ⟨.table, {"Number", "Operator"}⟩ := by decide +kernel
  have hcategory : (Outline.after shadowing).category? "+" = some "Operator" := by decide +kernel
  obtain ⟨-, -, htest, hclassify⟩ := h.refines
  refine ⟨h, htest "Number" _ hmark {} "+" (by decide), ?_⟩
  have hplus := hclassify (by decide +kernel) {} "+" (by decide)
  rw [hcategory] at hplus
  exact hplus

end LexAutomata.Terminal
