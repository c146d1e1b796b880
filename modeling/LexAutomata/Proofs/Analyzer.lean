/-
# What a run of the analyzer answers

All automata of a recognizer can be drawn (`Recognizer.drawable_of_build`), and rendering
may end at any of them.  Exit code and standard output of a run depend on three other
things: the criterion, whether transitions are listed, and what reading the source text
comes to (`Answers`, `Answers.unique`).  However rendering goes, the run answers with the
reports on the recognizer, which always can be built, and with those on the source text if
there is one, which never fail (`exists_conclude_eq`).  The only way of rendering that ends
a run is a directory name with a null character, and a name without one is never refused
for it (`not_refused_renderGraphs`).  So nothing but a missing log level keeps a run from
answering, and drawing and logging leave no trace in its answer (`run_undisturbed`).
-/
import LexAutomata.Analyzer
import LexAutomata.Proofs.Files.Directory
import LexAutomata.Proofs.Recognizer

namespace LexAutomata

open Catalogue

/-! ## What is drawn -/

/-- All of a recognizer is drawn: the fragments, their union, and copies of both tables, neither of
which is refused. -/
def Recognizer.Drawable (r : Recognizer) : Prop :=
  ∃ D M, r.table.toAutomaton "DFA" = .ok D ∧ r.minimal.toAutomaton "MinimalDFA" = .ok M ∧
    r.automata = r.fragments.values ++ [r.combined, D, M]

/-- **Everything in a built recognizer can be drawn.** -/
theorem Recognizer.drawable_of_build {criterion : Criterion} {c : Counter} {r : Recognizer}
    (h : (build criterion c).1 = .ok r) : r.Drawable := by
  obtain ⟨fs, c', M, -, hfs, -, hM, hbuild⟩ := exists_build_eq criterion c
  rw [hbuild] at h
  cases h
  have hintact := Table.intact_subsetTable
    (Automaton.unionFrom "Combined" c'.next fs.values) c'.next
  have hchars := Automaton.oneCharacter_subsetTable (hfs.oneCharacter_unionFrom "Combined") c'.next
  obtain ⟨M', hM', hMintact, hMchars, -⟩ := Table.exists_minimize_eq hintact.toClosed criterion
  rw [hM] at hM'
  cases hM'
  obtain ⟨D, hD⟩ := Table.exists_toAutomaton_eq hintact hchars "DFA"
  obtain ⟨E, hE⟩ := Table.exists_toAutomaton_eq hMintact (hMchars hchars) "MinimalDFA"
  refine ⟨D, E, hD, hE, ?_⟩
  simp only [automata, hD, hE]
  rw [List.append_assoc]
  rfl

/-! ## How rendering can go -/

/-- The directory to draw into, if there is one, is named without a null character. -/
def GraphTarget.IsPath (t : GraphTarget) : Prop :=
  ∀ directory, t.path? = some directory → ¬ '\x00' ∈ directory.toList

namespace Analyzer

variable {o : Options} {r : Recognizer} {render : Renderer} {files : Files}

/-- Rendering ended because the directory name has a null character. -/
def Rendered.Refused (rendered : Rendered) : Prop :=
  ∃ path, rendered.stop = some (.noDirectory ⟨.nullCharacter, path⟩)

theorem fault_ne_of_location {files' : Files} {directory name : String} {e : PathError}
    (h : ¬ '\x00' ∈ directory.toList)
    (he : Drawing.location files directory name = (.error e, files')) :
    ¬ e.fault = .nullCharacter := by
  rw [Drawing.location] at he
  split at he
  · rename_i hmade
    cases he
    exact Files.fault_ne_of_makeDirectories h hmade
  · cases he

/-- Whatever the renderer does, a path without a null character is not refused for one. -/
theorem not_refused_renderInto {directory : String} (h : ¬ '\x00' ∈ directory.toList)
    (render : Renderer) (files : Files) (automata : List Automaton) :
    ¬ (renderInto render directory files automata).Refused := by
  induction automata generalizing files with
  | nil =>
    rintro ⟨path, hstop⟩
    cases hstop
  | cons A rest ih =>
    rw [renderInto]
    split
    · -- the directory is not there and could not be made
      rename_i hlocation
      rintro ⟨path, hstop⟩
      cases hstop
      exact fault_ne_of_location h hlocation rfl
    · dsimp only
      split
      · rintro ⟨path, hstop⟩
        cases hstop
      · exact ih _

theorem not_refused_renderGraphs (h : o.graphs.IsPath) (render : Renderer) (files : Files)
    (r : Recognizer) : ¬ (renderGraphs render o files r).Refused := by
  rw [renderGraphs]
  split
  · rintro ⟨path, hstop⟩
    cases hstop
  · rename_i directory hpath
    exact not_refused_renderInto (h directory hpath) render files r.automata

/-! ## Answers -/

/-- The exit code and the standard output that a criterion, the wish for transitions and the outcome
of reading the source text call for. -/
inductive Answers (criterion : Criterion) (showTransitions : Bool) :
    Except Source.ReadError String → Nat → String → Prop
  /-- There is no text to report on. -/
  | unread {r : Recognizer} {e : Source.ReadError}
    (build : (Recognizer.build criterion ⟨0⟩).1 = .ok r) :
    Answers criterion showTransitions (.error e) 1
      (Text.unlines (Report.automaton r.combined (some "Combined")
        ++ Report.minimization r.table r.minimal showTransitions))
  /-- The reports on the text follow those on the recognizer. -/
  | read {r : Recognizer} {code : String} {errors : List Source.LexemeError}
    {tokens : List Source.Token} {symbols : List Source.SymbolEntry}
    (build : (Recognizer.build criterion ⟨0⟩).1 = .ok r)
    (errors_eq : Source.lexemeErrors code r.fragments = .ok errors)
    (tokens_eq : Source.tokenize code r.fragments = .ok tokens)
    (symbols_eq : Source.symbolTable code r.fragments = .ok symbols) :
    Answers criterion showTransitions (.ok code) 0
      (Text.unlines (Report.automaton r.combined (some "Combined")
        ++ Report.minimization r.table r.minimal showTransitions
        ++ (Report.lexemeErrors errors ++ Report.tokens tokens ++ Report.symbolTable symbols)))

/-- **There is at most one answer.** -/
theorem Answers.unique {criterion : Criterion} {showTransitions : Bool}
    {reading : Except Source.ReadError String} {exitCode exitCode' : Nat} {output output' : String}
    (h : Answers criterion showTransitions reading exitCode output)
    (h' : Answers criterion showTransitions reading exitCode' output') :
    exitCode' = exitCode ∧ output' = output := by
  cases h with
  | unread hr =>
    cases h' with
    | unread hr' =>
      cases hr.symm.trans hr'
      exact ⟨rfl, rfl⟩
  | read hr herrors htokens hsymbols =>
    cases h' with
    | read hr' herrors' htokens' hsymbols' =>
      cases hr.symm.trans hr'
      cases herrors.symm.trans herrors'
      cases htokens.symm.trans htokens'
      cases hsymbols.symm.trans hsymbols'
      exact ⟨rfl, rfl⟩

/-! ## Reports that cannot fail -/

/-- A built recognizer has reports on every source text. -/
theorem exists_sourceReport_eq {criterion : Criterion}
    (h : (Recognizer.build criterion ⟨0⟩).1 = .ok r) (code : String) :
    ∃ errors tokens symbols, Source.lexemeErrors code r.fragments = .ok errors ∧
      Source.tokenize code r.fragments = .ok tokens ∧
      Source.symbolTable code r.fragments = .ok symbols ∧
      sourceReport code r.fragments = .ok (Report.lexemeErrors errors ++ Report.tokens tokens
        ++ Report.symbolTable symbols) := by
  obtain ⟨fs, c, M, -, hfs, hkeys, -, hbuild⟩ := Recognizer.exists_build_eq criterion ⟨0⟩
  rw [hbuild] at h
  cases h
  have hid : fs.contains Category.identifier = true := by
    rw [OrderedMap.contains_iff, hkeys]
    decide
  obtain ⟨errors, herrors⟩ := hfs.exists_lexemeErrors_eq code
  obtain ⟨tokens, htokens⟩ := hfs.exists_tokenize_eq code
  obtain ⟨symbols, hsymbols⟩ := hfs.exists_symbolTable_eq hid code
  refine ⟨errors, tokens, symbols, herrors, htokens, hsymbols, ?_⟩
  rw [sourceReport, herrors, htokens, hsymbols]
  rfl

/-- An outcome answers what the options ask for, given the source text that it leaves. -/
def Outcome.Fits (outcome : Outcome) (o : Options) : Prop :=
  Answers o.criterion o.showTransitions (Source.read outcome.files o.source) outcome.exitCode
    outcome.output

theorem answers_finish (h : (Recognizer.build o.criterion ⟨0⟩).1 = .ok r) (files : Files) :
    Answers o.criterion o.showTransitions (Source.read files o.source) (finish o files r).1
      (Text.unlines (finish o files r).2.1) := by
  rw [finish]
  cases Source.read files o.source with
  | error e => exact .unread h
  | ok code =>
    obtain ⟨errors, tokens, symbols, herrors, htokens, hsymbols, hreport⟩ :=
      exists_sourceReport_eq h code
    simp only [hreport]
    exact .read h herrors htokens hsymbols

/-! ## Runs -/

/-- **However rendering has gone**, the run answers, unless the directory name was refused. -/
theorem exists_conclude_eq (h : (Recognizer.build o.criterion ⟨0⟩).1 = .ok r) {rendered : Rendered}
    (hrendered : ¬ rendered.Refused) (level : LogLevel) :
    ∃ outcome, conclude level o r rendered = .ok outcome ∧ outcome.files = rendered.files ∧
      outcome.Fits o := by
  rw [conclude]
  split
  · rename_i path hstop
    exact absurd ⟨path, hstop⟩ hrendered
  · exact ⟨_, rfl, rfl, answers_finish h rendered.files⟩

/-- The command line is read as these options, and names no directory with a null character. -/
structure Asks (args : List String) (o : Options) : Prop where
  /-- The command line is read. -/
  parse : Options.parse args = .ok o
  /-- Its directory, if any, can be tried. -/
  path : o.graphs.IsPath

variable {args : List String}

/-- A run without a log level breaks off before anything is done. -/
theorem run_eq_of_logLevel_eq_none (h : Asks args o) (hlevel : o.logLevel = none) :
    run render args files = .error .noLogLevel := by
  rw [run, h.parse]
  simp only [analyze, hlevel]

/-- A run with a log level builds a recognizer, renders, and concludes. -/
theorem run_eq (h : Asks args o) {level : LogLevel} (hlevel : o.logLevel = some level)
    (hr : (Recognizer.build o.criterion ⟨0⟩).1 = .ok r) :
    run render args files = conclude level o r (renderGraphs render o files r) := by
  rw [run, h.parse]
  show analyze render o files = _
  rw [analyze, hlevel]
  show analyzeAt level render o files = _
  rw [analyzeAt, hr, proceed]

/-- A run with a log level answers for the source text that rendering leaves. -/
theorem exists_run_eq (h : Asks args o) {level : LogLevel} (hlevel : o.logLevel = some level)
    (render : Renderer) (files : Files) :
    ∃ r outcome, (Recognizer.build o.criterion ⟨0⟩).1 = .ok r ∧
      run render args files = .ok outcome ∧
      outcome.files = (renderGraphs render o files r).files ∧ outcome.Fits o := by
  obtain ⟨fs, c, M, -, -, -, -, hbuild⟩ := Recognizer.exists_build_eq o.criterion ⟨0⟩
  have hr : (Recognizer.build o.criterion ⟨0⟩).1 = .ok _ := congrArg Prod.fst hbuild
  obtain ⟨outcome, houtcome, hfiles, hfits⟩ :=
    exists_conclude_eq hr (not_refused_renderGraphs h.path render files _) level
  exact ⟨_, outcome, hr, (run_eq h hlevel hr).trans houtcome, hfiles, hfits⟩

/-- What a run answers, if it answers at all. -/
theorem exists_build_of_run_eq (h : Asks args o) {outcome : Outcome}
    (hrun : run render args files = .ok outcome) :
    ∃ r, (Recognizer.build o.criterion ⟨0⟩).1 = .ok r ∧ r.Drawable ∧
      outcome.files = (renderGraphs render o files r).files ∧ outcome.Fits o := by
  cases hlevel : o.logLevel with
  | none =>
    rw [run_eq_of_logLevel_eq_none h hlevel] at hrun
    cases hrun
  | some level =>
    obtain ⟨r, outcome', hr, hrun', hfiles, hfits⟩ := exists_run_eq h hlevel render files
    cases hrun.symm.trans hrun'
    exact ⟨r, hr, Recognizer.drawable_of_build hr, hfiles, hfits⟩

/-- **Drawing and logging leave no trace in the answer.**  A run answers if and only if the log
level has its value, whatever the renderer does and whatever files there are.  Nothing is left out
of the drawings, and exit code and standard output are those that the criterion, the wish for
transitions and the source text call for, as the text is read once rendering is over; so runs that
agree on these three answer alike.  The same holds if rendering goes in any other way that does not
refuse the directory name. -/
theorem run_undisturbed (h : Asks args o) :
    (∀ render files, (∃ outcome, run render args files = .ok outcome) ↔
      ∃ level, o.logLevel = some level) ∧
    (∀ render files outcome, run render args files = .ok outcome →
      ∃ r, (Recognizer.build o.criterion ⟨0⟩).1 = .ok r ∧ r.Drawable ∧
        outcome.files = (renderGraphs render o files r).files ∧ outcome.Fits o) ∧
    (∀ render files outcome args' o' render' files' outcome',
      run render args files = .ok outcome → Asks args' o' →
      run render' args' files' = .ok outcome' →
      o'.criterion = o.criterion → o'.showTransitions = o.showTransitions →
      Source.read outcome'.files o'.source = Source.read outcome.files o.source →
      outcome'.exitCode = outcome.exitCode ∧ outcome'.output = outcome.output) ∧
    ∀ level r (rendered : Rendered), (Recognizer.build o.criterion ⟨0⟩).1 = .ok r →
      ¬ rendered.Refused →
      ∃ outcome, conclude level o r rendered = .ok outcome ∧ outcome.files = rendered.files ∧
        outcome.Fits o := by
  refine ⟨fun render files => ⟨?_, ?_⟩, fun render files outcome => exists_build_of_run_eq h,
    ?_, fun level r rendered hr hrendered => exists_conclude_eq hr hrendered level⟩
  · rintro ⟨outcome, hrun⟩
    cases hlevel : o.logLevel with
    | none =>
      rw [run_eq_of_logLevel_eq_none h hlevel] at hrun
      cases hrun
    | some level => exact ⟨level, rfl⟩
  · rintro ⟨level, hlevel⟩
    obtain ⟨r, outcome, -, hrun, -⟩ := exists_run_eq h hlevel render files
    exact ⟨outcome, hrun⟩
  · intro render files outcome args' o' render' files' outcome' hrun h' hrun' hcriterion
      htransitions hreading
    obtain ⟨-, -, -, -, hfits⟩ := exists_build_of_run_eq h hrun
    obtain ⟨-, -, -, -, hfits'⟩ := exists_build_of_run_eq h' hrun'
    rw [Outcome.Fits, hcriterion, htransitions, hreading] at hfits'
    exact hfits.unique hfits'

/-- A renderer whose program is missing, and which removes the files besides. -/
def ruinous : Renderer := fun _ _ => (.error (.programMissing "no program"), {})

theorem run_undisturbed_ruinous :
    Asks ["--log-level", "INFO", "a.c", "--graph-dir=g/h"]
        { source := "a.c", logLevel := some .info, graphs := .directory "g/h" } ∧
      ∃ outcome,
        run ruinous ["--log-level", "INFO", "a.c", "--graph-dir=g/h"] (.empty []) = .ok outcome ∧
        outcome.Fits { source := "a.c", logLevel := some .info, graphs := .directory "g/h" } := by
  have h : Asks ["--log-level", "INFO", "a.c", "--graph-dir=g/h"]
      { source := "a.c", logLevel := some .info, graphs := .directory "g/h" } := by
    refine ⟨rfl, fun directory hpath => ?_⟩
    obtain rfl : "g/h" = directory := Option.some.inj hpath
    decide
  obtain ⟨hanswers, hfits, -⟩ := run_undisturbed h
  obtain ⟨outcome, hrun⟩ := (hanswers ruinous (.empty [])).2 ⟨.info, rfl⟩
  obtain ⟨-, -, -, -, houtcome⟩ := hfits ruinous (.empty []) outcome hrun
  exact ⟨h, outcome, hrun, houtcome⟩

/-- A log level that was asked for without a value leaves a run without an answer. -/
theorem run_logLevel_without_value :
    ∃ o, Asks ["--log-level=--"] o ∧
      ∀ render files, ¬ ∃ outcome, run render ["--log-level=--"] files = .ok outcome := by
  have h : Asks ["--log-level=--"] { logLevel := none } := by
    refine ⟨rfl, fun directory hpath => ?_⟩
    cases hpath
  refine ⟨_, h, fun render files => ?_⟩
  rintro ⟨outcome, hrun⟩
  rw [run_eq_of_logLevel_eq_none h rfl] at hrun
  cases hrun

end Analyzer

end LexAutomata
