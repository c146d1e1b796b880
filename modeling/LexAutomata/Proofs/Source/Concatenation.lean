/-
# Analyses of concatenated texts

A text that leaves no block comment open can be analyzed apart from what follows it after a
line break: the tokens of the whole are line by line those of both texts
(`tokenLines_append`).  What else is carried from one line to the next is its number, which
is shifted by the lines before (`tokenizeLines_shift`), and whether the main function has
begun, which makes all later declarations local (`candidates_true`).  So every analysis of
the whole is put together from those of the two texts (`analysis_append`).
-/
import LexAutomata.Proofs.Source.Comment
import LexAutomata.Source.Symbol

namespace LexAutomata.Source

variable {fragments : Fragments}

/-! ## Lines of tokens -/

/-- **The lines of tokens are those of both texts.** -/
theorem tokenLines_append {a : String} (ha : ¬ "/*".toList <:+: (stripComments a).toList)
    (b : String) : tokenLines (a ++ "\n" ++ b) = tokenLines a ++ tokenLines b := by
  have hopen : ¬ ['/', '*'] <:+: blankComments a.toList := by
    rwa [toList_stripComments] at ha
  have htext : (a ++ "\n" ++ b).toList = a.toList ++ '\n' :: b.toList := by
    rw [String.toList_append, String.toList_append, List.append_assoc]
    rfl
  simp only [tokenLines, Text.lines, toList_stripComments]
  rw [htext, blankComments_append hopen, Text.splitLines_append, List.map_append, List.map_append]

/-- There is one line of tokens more than there are line breaks. -/
theorem length_tokenLines (code : String) :
    (tokenLines code).length = code.toList.count '\n' + 1 := by
  rw [tokenLines, List.length_map, Text.length_lines, toList_stripComments, count_blankComments]

/-! ## Classified tokens -/

/-- The token with its line the given number of lines further down. -/
def Token.moveDown (n : Int) (t : Token) : Token := { t with line := t.line + n }

/-- The report with its line the given number of lines further down. -/
def LexemeError.moveDown (n : Int) (e : LexemeError) : LexemeError := { e with line := e.line + n }

theorem tokenizeLine_shift (n line : Int) (ts : List String) :
    tokenizeLine fragments (line + n) ts
      = (tokenizeLine fragments line ts).map (List.map (Token.moveDown n)) := by
  induction ts with
  | nil => rfl
  | cons t ts ih =>
    rw [tokenizeLine, tokenizeLine, ih]
    cases classify t fragments with
    | error v => rfl
    | ok category => cases tokenizeLine fragments line ts <;> rfl

/-- Lines that are counted from another number have their tokens moved. -/
theorem tokenizeLines_shift (n line : Int) (ls : List (List String)) :
    tokenizeLines fragments (line + n) ls
      = (tokenizeLines fragments line ls).map (List.map (Token.moveDown n)) := by
  induction ls generalizing line with
  | nil => rfl
  | cons l ls ih =>
    rw [tokenizeLines, tokenizeLines, tokenizeLine_shift, Int.add_right_comm, ih]
    cases tokenizeLine fragments line l with
    | error v => rfl
    | ok first =>
      cases tokenizeLines fragments (line + 1) ls with
      | error v => rfl
      | ok rest => exact congrArg Except.ok List.map_append.symm

/-- Consecutive lines are tokenized one after the other, up to the first failure. -/
theorem tokenizeLines_append (line : Int) (ls ms : List (List String)) :
    tokenizeLines fragments line (ls ++ ms) = do
      let first ← tokenizeLines fragments line ls
      let rest ← tokenizeLines fragments (line + ls.length) ms
      return first ++ rest := by
  induction ls generalizing line with
  | nil =>
    rw [List.nil_append, List.length_nil, Int.natCast_zero, Int.add_zero]
    cases tokenizeLines fragments line ms <;> rfl
  | cons l ls ih =>
    have hline : line + 1 + ls.length = line + (l :: ls).length := by
      rw [List.length_cons]
      omega
    rw [List.cons_append, tokenizeLines, tokenizeLines, ih, hline]
    cases tokenizeLine fragments line l with
    | error v => rfl
    | ok tokens =>
      cases tokenizeLines fragments (line + 1) ls with
      | error v => rfl
      | ok first =>
        cases tokenizeLines fragments (line + (l :: ls).length) ms with
        | error v => rfl
        | ok rest => exact congrArg Except.ok (List.append_assoc tokens first rest).symm

/-- A token further down is reported further down. -/
theorem error?_moveDown (n : Int) (t : Token) :
    (t.moveDown n).error? = t.error?.map (LexemeError.moveDown n) := by
  obtain ⟨text, category, line⟩ := t
  cases category <;> rfl

/-! ## Declared variables -/

/-- The entry with the scope of declarations inside the main function. -/
def SymbolEntry.makeLocal (e : SymbolEntry) : SymbolEntry := { e with scope := "Local" }

/-- Once the main function has begun, the declarations of a line are local. -/
theorem lineCandidates_true (isLocal : Bool) (ts : List String) :
    lineCandidates true ts = (lineCandidates isLocal ts).map SymbolEntry.makeLocal := by
  induction ts generalizing isLocal with
  | nil => rfl
  | cons t rest ih =>
    rw [lineCandidates, lineCandidates, List.map_append, Bool.true_or,
      ih (isLocal || beginsMain t rest)]
    congr 1
    split
    · rw [List.map_map]
      rfl
    · rfl

/-- Once the main function has begun, all declarations are local. -/
theorem candidates_true (isLocal : Bool) (ls : List (List String)) :
    candidates true ls = (candidates isLocal ls).map SymbolEntry.makeLocal := by
  induction ls generalizing isLocal with
  | nil => rfl
  | cons l ls ih =>
    rw [candidates, candidates, List.map_append, Bool.true_or, lineCandidates_true isLocal,
      ih (isLocal || hasMain l)]

/-- What the lines before tell about the declarations of later lines is whether the main function
has begun. -/
theorem candidates_append (isLocal : Bool) (ls ms : List (List String)) :
    candidates isLocal (ls ++ ms)
      = candidates isLocal ls ++ candidates (isLocal || ls.any hasMain) ms := by
  induction ls generalizing isLocal with
  | nil => rw [List.nil_append, candidates, List.nil_append, List.any_nil, Bool.or_false]
  | cons l ls ih =>
    rw [List.cons_append, candidates, candidates, ih, List.append_assoc, List.any_cons,
      Bool.or_assoc]

/-- The main function begins on a line where `main` and a parenthesis are adjacent. -/
theorem hasMain_eq_true_iff {l : List String} : hasMain l = true ↔ ["main", "("] <:+: l := by
  induction l with
  | nil => simp [hasMain]
  | cons t rest ih =>
    have hbegins : beginsMain t rest = true ↔ ["main", "("] <+: t :: rest := by
      rw [beginsMain, Bool.and_eq_true, decide_eq_true_eq, decide_eq_true_eq,
        List.cons_prefix_cons, List.prefix_iff_eq_take, eq_comm]
      cases rest <;> simp [eq_comm]
    rw [hasMain, Bool.or_eq_true, hbegins, ih, List.infix_cons_iff]

variable {A : Automaton}

theorem keepAccepted_append (es fs : List SymbolEntry) :
    keepAccepted A (es ++ fs) = do
      let first ← keepAccepted A es
      let rest ← keepAccepted A fs
      return first ++ rest := by
  induction es with
  | nil =>
    rw [List.nil_append]
    cases keepAccepted A fs <;> rfl
  | cons e es ih =>
    rw [List.cons_append, keepAccepted, keepAccepted, ih]
    cases A.accepts e.identifier with
    | error v => rfl
    | ok accepted =>
      cases keepAccepted A es with
      | error v => rfl
      | ok first =>
        cases keepAccepted A fs with
        | error v => rfl
        | ok rest => cases accepted <;> rfl

/-- Whether an entry is kept does not depend on its scope. -/
theorem keepAccepted_map_makeLocal (es : List SymbolEntry) :
    keepAccepted A (es.map SymbolEntry.makeLocal)
      = (keepAccepted A es).map (List.map SymbolEntry.makeLocal) := by
  induction es with
  | nil => rfl
  | cons e es ih =>
    rw [List.map_cons, keepAccepted, keepAccepted, ih]
    cases h : A.accepts e.identifier with
    | error v => rw [show A.accepts e.makeLocal.identifier = _ from h]; rfl
    | ok accepted =>
      rw [show A.accepts e.makeLocal.identifier = _ from h]
      cases keepAccepted A es with
      | error v => rfl
      | ok rest => cases accepted <;> rfl

/-! ## Analyses -/

theorem tokenize_append {a : String} (ha : ¬ "/*".toList <:+: (stripComments a).toList)
    (b : String) :
    tokenize (a ++ "\n" ++ b) fragments = do
      let first ← tokenize a fragments
      let rest ← tokenize b fragments
      return first ++ rest.map (Token.moveDown (a.toList.count '\n' + 1 : Nat)) := by
  rw [tokenize, tokenLines_append ha, tokenizeLines_append, tokenizeLines_shift,
    length_tokenLines, ← tokenize, ← tokenize]
  cases tokenize a fragments with
  | error v => rfl
  | ok first => cases tokenize b fragments <;> rfl

theorem lexemeErrors_append {a : String} (ha : ¬ "/*".toList <:+: (stripComments a).toList)
    (b : String) :
    lexemeErrors (a ++ "\n" ++ b) fragments = do
      let first ← lexemeErrors a fragments
      let rest ← lexemeErrors b fragments
      return first ++ rest.map (LexemeError.moveDown (a.toList.count '\n' + 1 : Nat)) := by
  rw [lexemeErrors, lexemeErrors, lexemeErrors, tokenize_append ha]
  cases tokenize a fragments with
  | error v => rfl
  | ok first =>
    cases tokenize b fragments with
    | error v => rfl
    | ok rest =>
      refine congrArg Except.ok ?_
      change List.filterMap Token.error? (first ++ rest.map _) = _
      rw [List.filterMap_append, List.filterMap_map]
      refine congrArg (first.filterMap Token.error? ++ ·) ?_
      rw [List.map_filterMap]
      exact congrArg (rest.filterMap ·) (funext (error?_moveDown _))

theorem any_hasMain_eq_true_iff {ls : List (List String)} :
    ls.any hasMain = true ↔ ∃ l ∈ ls, ["main", "("] <:+: l := by
  rw [List.any_eq_true]
  simp only [hasMain_eq_true_iff]

/-- The declarations of both texts, the later ones with what the first text tells about the main
function. -/
theorem symbolTable_append {a : String} (ha : ¬ "/*".toList <:+: (stripComments a).toList)
    (b : String) :
    symbolTable (a ++ "\n" ++ b) fragments = do
      let first ← symbolTable a fragments
      let rest ← symbolTable b fragments
      return first ++ (if (tokenLines a).any hasMain then rest.map SymbolEntry.makeLocal
        else rest) := by
  rw [symbolTable, symbolTable, symbolTable, tokenLines_append ha]
  cases fragments.get? Category.identifier with
  | none => rfl
  | some A =>
    simp only [candidates_append, Bool.false_or, keepAccepted_append]
    cases (tokenLines a).any hasMain with
    | true =>
      simp only [candidates_true false, keepAccepted_map_makeLocal]
      cases keepAccepted A (candidates false (tokenLines a)) with
      | error v => rfl
      | ok first => cases keepAccepted A (candidates false (tokenLines b)) <;> rfl
    | false =>
      cases keepAccepted A (candidates false (tokenLines a)) with
      | error v => rfl
      | ok first => cases keepAccepted A (candidates false (tokenLines b)) <;> rfl

/-- **Analyses are put together line by line.**  When a text leaves no block comment open, the
tokens and the unrecognized ones of the text and another one after a line break are those of both,
with the lines of the other counted on; and so are the declared variables, those of the other text
being local once the main function has begun. -/
theorem analysis_append {a : String} (ha : ¬ "/*".toList <:+: (stripComments a).toList)
    (b : String) (fragments : Fragments) :
    (tokenize (a ++ "\n" ++ b) fragments = do
      let first ← tokenize a fragments
      let rest ← tokenize b fragments
      return first ++ rest.map (Token.moveDown (a.toList.count '\n' + 1 : Nat))) ∧
    (lexemeErrors (a ++ "\n" ++ b) fragments = do
      let first ← lexemeErrors a fragments
      let rest ← lexemeErrors b fragments
      return first ++ rest.map (LexemeError.moveDown (a.toList.count '\n' + 1 : Nat))) ∧
    ((∃ l ∈ tokenLines a, ["main", "("] <:+: l) →
      symbolTable (a ++ "\n" ++ b) fragments = do
        let first ← symbolTable a fragments
        let rest ← symbolTable b fragments
        return first ++ rest.map SymbolEntry.makeLocal) ∧
    ((¬ ∃ l ∈ tokenLines a, ["main", "("] <:+: l) →
      symbolTable (a ++ "\n" ++ b) fragments = do
        let first ← symbolTable a fragments
        let rest ← symbolTable b fragments
        return first ++ rest) := by
  refine ⟨tokenize_append ha b, lexemeErrors_append ha b, fun hmain => ?_, fun hmain => ?_⟩
  · rw [← any_hasMain_eq_true_iff] at hmain
    rw [symbolTable_append ha, hmain]
    rfl
  · rw [← any_hasMain_eq_true_iff, Bool.not_eq_true] at hmain
    rw [symbolTable_append ha, hmain]
    rfl

/-- A text with an opening of a comment behind two slashes, a comment that runs over a line break,
and a slash alone at its end. -/
def commented : String := "int k; // see /*\nvoid main ( /* two\nlines */ ) /"

/-- A text that begins with the end of a comment and leaves one open. -/
def uncommented : String := "*/ int y = f(k, 1), z; /* open\n"

/-- The fragments of the standard categories. -/
def standardFragments : Fragments :=
  (Catalogue.standard.buildAll Category.all {}).1.toOption.getD ∅

theorem analysis_append_commented_uncommented :
    ¬ "/*".toList <:+: (stripComments commented).toList ∧
    (tokenize (commented ++ "\n" ++ uncommented) standardFragments = do
      let first ← tokenize commented standardFragments
      let rest ← tokenize uncommented standardFragments
      return first ++ rest.map (Token.moveDown (commented.toList.count '\n' + 1 : Nat))) ∧
    (lexemeErrors (commented ++ "\n" ++ uncommented) standardFragments = do
      let first ← lexemeErrors commented standardFragments
      let rest ← lexemeErrors uncommented standardFragments
      return first ++ rest.map (LexemeError.moveDown (commented.toList.count '\n' + 1 : Nat))) ∧
    (symbolTable (commented ++ "\n" ++ uncommented) standardFragments = do
      let first ← symbolTable commented standardFragments
      let rest ← symbolTable uncommented standardFragments
      return first ++ rest.map SymbolEntry.makeLocal) := by
  have ha : ¬ "/*".toList <:+: (stripComments commented).toList := by decide +kernel
  have hmain : ∃ l ∈ tokenLines commented, ["main", "("] <:+: l := by decide +kernel
  obtain ⟨htokens, herrors, hlocal, -⟩ := analysis_append ha uncommented standardFragments
  exact ⟨ha, htokens, herrors, hlocal hmain⟩

end LexAutomata.Source
