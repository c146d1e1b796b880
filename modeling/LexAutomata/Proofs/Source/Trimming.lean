/-
# White space at the end

A source text is read without the white space at its end.  Nothing in an analysis depends
on it: white space behind a text begins no comment and ends none but a line comment, so
that blanking leaves the text as it was and white space behind it
(`exists_blankComments_append`); and white space behind a line belongs to no token, so that
it is followed by lines without tokens at most (`exists_tokenLines_trimRight`).  These hold
no token to classify and no declaration, and they come last, so that no other line gets
another number (`analysis_trimRight`).
-/
import LexAutomata.Proofs.Source.Junction
import LexAutomata.Proofs.Source.Reading

namespace LexAutomata

namespace Text

/-- Trimming takes away white space. -/
theorem exists_toList_eq_trimRight_append (s : String) :
    ∃ ws, s.toList = (trimRight s).toList ++ ws ∧ ∀ c ∈ ws, isBlank c = true := by
  refine ⟨s.toList.rtakeWhile isBlank, ?_, fun c => List.mem_rtakeWhile_imp⟩
  rw [trimRight, String.toList_ofList]
  exact List.rdropWhile_append_rtakeWhile.symm

/-- The lines of a text hold no character that the text does not. -/
theorem mem_of_mem_splitLines {cs l : List Char} (hl : l ∈ splitLines cs) {c : Char}
    (hc : c ∈ l) : c ∈ cs := by
  induction cs generalizing l with
  | nil =>
    rw [List.mem_singleton.1 hl] at hc
    exact absurd hc List.not_mem_nil
  | cons d cs ih =>
    by_cases hd : d = '\n'
    · rw [splitLines, if_pos hd] at hl
      rcases List.mem_cons.1 hl with rfl | hl
      · exact absurd hc List.not_mem_nil
      · exact List.mem_cons_of_mem d (ih hl hc)
    · obtain ⟨m, ms, hm⟩ := List.exists_cons_of_ne_nil (splitLines_ne_nil cs)
      rw [splitLines_cons_of_ne hd hm] at hl
      rw [hm] at ih
      rcases List.mem_cons.1 hl with rfl | hl
      · rcases List.mem_cons.1 hc with rfl | hc
        · exact List.mem_cons_self
        · exact List.mem_cons_of_mem d (ih List.mem_cons_self hc)
      · exact List.mem_cons_of_mem d (ih (List.mem_cons_of_mem m hl) hc)

end Text

namespace Source

variable {cs ws : List Char}

/-! ## Comments before white space -/

/-- White space holds no character that is not white space. -/
theorem not_mem_of_blank (hws : ∀ c ∈ ws, Text.isBlank c = true) {d : Char}
    (hd : Text.isBlank d = false) : ¬ d ∈ ws := by
  intro h
  rw [hws d h] at hd
  cases hd

/-- A character that is not in the white space behind a text comes first only if it comes first in
the text. -/
theorem head?_of_append {b : Char} (hb : ¬ b ∈ ws) (h : (cs ++ ws).head? = some b) :
    cs.head? = some b := by
  cases cs with
  | nil => exact absurd (List.mem_of_mem_head? h) hb
  | cons c cs => exact h

/-- Two characters that are adjacent in a text before white space are adjacent in the text, if the
second one is not white space. -/
theorem pair_infix_of_append {a b : Char} (hb : ¬ b ∈ ws) (h : [a, b] <:+: cs ++ ws) :
    [a, b] <:+: cs := by
  induction cs with
  | nil => exact absurd (h.subset (by simp)) hb
  | cons c cs ih =>
    rw [List.cons_append, pair_infix_cons_iff] at h
    rw [pair_infix_cons_iff]
    exact h.imp (And.imp_right (head?_of_append hb)) ih

/-- The beginning of a block comment that has no end stays. -/
theorem blankComments_open {rest : List Char} (h : splitAtClose rest = none) :
    blankComments ('/' :: '*' :: rest) = '/' :: blankComments ('*' :: rest) := by
  rw [blankComments]
  split
  · rename_i r hr
    rw [h] at hr
    cases hr
  · rfl

/-- A line comment before white space ends where it ended, or in the white space. -/
theorem exists_dropWhile_append (rest ws : List Char) :
    ∃ vs, vs <:+ ws ∧ (rest ++ ws).dropWhile (fun c => c ≠ '\n')
      = rest.dropWhile (fun c => c ≠ '\n') ++ vs := by
  rw [List.dropWhile_append]
  split
  · rename_i h
    exact ⟨_, List.dropWhile_suffix _, by rw [List.isEmpty_iff.1 h, List.nil_append]⟩
  · exact ⟨ws, List.suffix_refl ws, rfl⟩

/-- **White space behind a text stays white space behind the blanked text.** -/
theorem exists_blankComments_append (cs : List Char) (hws : ∀ c ∈ ws, Text.isBlank c = true) :
    ∃ vs, blankComments (cs ++ ws) = blankComments cs ++ vs ∧
      ∀ c ∈ vs, Text.isBlank c = true := by
  have hslash := not_mem_of_blank hws (d := '/') (by decide)
  fun_induction blankComments cs generalizing ws with
  | case1 => exact ⟨ws, blankComments_eq_of_not_mem hslash, hws⟩
  | case2 rest ih =>
    obtain ⟨us, hus, hrest⟩ := exists_dropWhile_append rest ws
    rw [List.cons_append, List.cons_append, blankComments_line, hrest]
    exact ih (fun c hc => hws c (hus.subset hc)) fun h => hslash (hus.subset h)
  | case3 rest r hr ih =>
    obtain ⟨vs, hvs, hblank⟩ := ih hws hslash
    refine ⟨vs, ?_, hblank⟩
    rw [List.cons_append, List.cons_append, blankComments_block (splitAtClose_append hr ws), hvs,
      List.append_assoc]
  | case4 rest hr ih =>
    -- the white space does not end the comment either
    have hnone : splitAtClose (rest ++ ws) = none := by
      rw [splitAtClose_eq_none_iff] at hr ⊢
      exact fun h => hr (pair_infix_of_append hslash h)
    obtain ⟨vs, hvs, hblank⟩ := ih hws hslash
    refine ⟨vs, ?_, hblank⟩
    rw [List.cons_append, List.cons_append, blankComments_open hnone, ← List.cons_append, hvs,
      List.cons_append]
  | case5 c rest hline hblock ih =>
    obtain ⟨vs, hvs, hblank⟩ := ih hws hslash
    refine ⟨vs, ?_, hblank⟩
    have hhead : c = '/' →
        ¬ (rest ++ ws).head? = some '/' ∧ ¬ (rest ++ ws).head? = some '*' := by
      intro hc
      constructor
      · intro h
        obtain ⟨rest', hrest⟩ := List.head?_eq_some_iff.1 (head?_of_append hslash h)
        exact hline rest' hc hrest
      · intro h
        have hstar := not_mem_of_blank hws (d := '*') (by decide)
        obtain ⟨rest', hrest⟩ := List.head?_eq_some_iff.1 (head?_of_append hstar h)
        exact hblock rest' hc hrest
    rw [List.cons_append, blankComments_cons hhead, hvs, List.cons_append]

/-! ## Lines behind the last token -/

/-- White space holds no token. -/
theorem lineTokens_eq_nil (hws : ∀ c ∈ ws, Text.isBlank c = true) : lineTokens ws = [] := by
  have h := cutTokens_append_of_blank hws []
  rw [List.append_nil, cutTokens_nil] at h
  rw [lineTokens, h, List.map_nil]

/-- White space behind a line does not change its tokens. -/
theorem lineTokens_append_blank (cs : List Char) (hws : ∀ c ∈ ws, Text.isBlank c = true) :
    lineTokens (cs ++ ws) = lineTokens cs := by
  have hhead : ws.head?.any isWordChar = false := by
    cases ws with
    | nil => rfl
    | cons c ws => exact isWordChar_of_isBlank (hws c List.mem_cons_self)
  have hnil := lineTokens_eq_nil hws
  rw [lineTokens] at hnil ⊢
  rw [cutTokens_append_of_boundary (Or.inr hhead), List.map_append, hnil, List.append_nil,
    lineTokens]

/-- **Behind the lines of a trimmed text there are only lines without tokens.** -/
theorem exists_tokenLines_trimRight (code : String) :
    ∃ n, tokenLines code = tokenLines (Text.trimRight code) ++ List.replicate n [] := by
  obtain ⟨ws, hcode, hws⟩ := Text.exists_toList_eq_trimRight_append code
  obtain ⟨vs, hvs, hblank⟩ := exists_blankComments_append (Text.trimRight code).toList hws
  rw [tokenLines_eq, tokenLines_eq, hcode, hvs]
  generalize blankComments (Text.trimRight code).toList = cs
  -- the last line of the text goes on with white space, and blank lines follow it
  obtain ⟨ls, x, hx⟩ : ∃ ls x, Text.splitLines cs = ls ++ [x] :=
    ⟨_, _, (List.dropLast_concat_getLast (Text.splitLines_ne_nil cs)).symm⟩
  obtain ⟨y, ms, hy⟩ := List.exists_cons_of_ne_nil (Text.splitLines_ne_nil vs)
  have hempty : ∀ l ∈ y :: ms, ∀ c ∈ l, Text.isBlank c = true := fun l hl c hc =>
    hblank c (Text.mem_of_mem_splitLines (hy ▸ hl) hc)
  obtain ⟨hlast, hmore⟩ := List.forall_mem_cons.1 hempty
  refine ⟨ms.length, ?_⟩
  rw [Text.splitLines_append_eq hx hy, hx]
  simp only [List.map_append, List.map_cons, List.map_nil, lineTokens_append_blank _ hlast,
    List.append_assoc, List.singleton_append]
  congr 2
  rw [List.eq_replicate_iff]
  refine ⟨List.length_map _, fun ts hts => ?_⟩
  obtain ⟨l, hl, rfl⟩ := List.mem_map.1 hts
  exact lineTokens_eq_nil (hmore l hl)

/-! ## Analyses -/

variable {fragments : Fragments}

/-- Lines without tokens are tokenized into nothing. -/
theorem tokenizeLines_replicate (line : Int) (n : Nat) :
    tokenizeLines fragments line (List.replicate n []) = .ok [] := by
  induction n generalizing line with
  | zero => rfl
  | succ n ih =>
    rw [List.replicate_succ, tokenizeLines, ih]
    rfl

/-- Lines without tokens declare nothing. -/
theorem candidates_replicate (isLocal : Bool) (n : Nat) :
    candidates isLocal (List.replicate n []) = [] := by
  induction n generalizing isLocal with
  | zero => rfl
  | succ n ih =>
    rw [List.replicate_succ, candidates, ih]
    rfl

theorem tokenize_trimRight (code : String) :
    tokenize (Text.trimRight code) fragments = tokenize code fragments := by
  obtain ⟨n, hlines⟩ := exists_tokenLines_trimRight code
  rw [tokenize, tokenize, hlines, tokenizeLines_append, tokenizeLines_replicate]
  cases tokenizeLines fragments 1 (tokenLines (Text.trimRight code)) with
  | error v => rfl
  | ok tokens => exact congrArg Except.ok (List.append_nil tokens).symm

theorem symbolTable_trimRight (code : String) :
    symbolTable (Text.trimRight code) fragments = symbolTable code fragments := by
  obtain ⟨n, hlines⟩ := exists_tokenLines_trimRight code
  rw [symbolTable, symbolTable, hlines, candidates_append, candidates_replicate, List.append_nil]

/-- The name leads to a file that holds the text in UTF-8, with any kinds of line breaks. -/
def Holds (files : Files) (name content : String) : Prop :=
  ∃ bytes cs, files.fileBytes? name = some bytes ∧ Text.decodeUtf8 bytes = .ok cs ∧
    content = String.ofList (unifyBreaks cs)

/-- A file that holds more than white space is read without the white space at its end. -/
theorem read_eq_trimRight {files : Files} {name content : String} (h : Holds files name content)
    (hcontent : ∃ c ∈ content.toList, Text.isBlank c = false) :
    read files name = .ok (Text.trimRight content) := by
  obtain ⟨bytes, cs, hfile, hcs, rfl⟩ := h
  have hblank : ¬ Text.isAllBlank (String.ofList (unifyBreaks cs)) = true := by
    obtain ⟨c, hc, hsolid⟩ := hcontent
    rw [Text.isAllBlank, List.all_eq_true]
    intro hall
    rw [hall c hc] at hsolid
    cases hsolid
  rw [read, hfile]
  simp only [textOf, hcs, if_neg hblank]

/-- **Trimming a text never changes an analysis.**  A file that holds more than white space is read
without the white space at its end; and with any fragments the trimmed text has the tokens of the
whole, on the same lines, the same unrecognized ones among them, and the same declared variables,
or fails as the whole does. -/
theorem analysis_trimRight (content : String) (fragments : Fragments) :
    ((∃ c ∈ content.toList, Text.isBlank c = false) → ∀ files name, Holds files name content →
      read files name = .ok (Text.trimRight content)) ∧
    tokenize (Text.trimRight content) fragments = tokenize content fragments ∧
    lexemeErrors (Text.trimRight content) fragments = lexemeErrors content fragments ∧
    symbolTable (Text.trimRight content) fragments = symbolTable content fragments := by
  refine ⟨fun hcontent files name h => read_eq_trimRight h hcontent, tokenize_trimRight content, ?_,
    symbolTable_trimRight content⟩
  rw [lexemeErrors, lexemeErrors, tokenize_trimRight]

/-- A text that leaves a comment open, with white space of several kinds at its end. -/
def padded : String := "\nint a = b; /* open //\n \u00a0\t\n"

/-- The bytes of the text with other line breaks. -/
def paddedBytes : List UInt8 :=
  "\r\nint a = b; /* open //\r\n ".toList.map (fun c => c.toNat.toUInt8)
    ++ [0xC2, 0xA0, 0x09, 0x0D]

/-- A directory with a file of these bytes. -/
def paddedFiles : Files := (Files.empty ["w"]).put ["w", "a.c"] (.file paddedBytes)

theorem analysis_trimRight_padded :
    (∃ c ∈ padded.toList, Text.isBlank c = false) ∧ Holds paddedFiles "a.c" padded ∧
    read paddedFiles "a.c" = .ok (Text.trimRight padded) ∧
    tokenize (Text.trimRight padded) standardFragments = tokenize padded standardFragments ∧
    lexemeErrors (Text.trimRight padded) standardFragments
      = lexemeErrors padded standardFragments ∧
    symbolTable (Text.trimRight padded) standardFragments
      = symbolTable padded standardFragments := by
  have hcontent : ∃ c ∈ padded.toList, Text.isBlank c = false :=
    ⟨'i', by simp [padded], by decide⟩
  have hbytes : paddedFiles.fileBytes? "a.c" = some paddedBytes := by decide +kernel
  have hchars : Text.decodeUtf8 paddedBytes
      = .ok "\r\nint a = b; /* open //\r\n \u00a0\t\r".toList := by cbv
  have hfile : Holds paddedFiles "a.c" padded := ⟨_, _, hbytes, hchars, by decide +kernel⟩
  obtain ⟨hread, hanalysis⟩ := analysis_trimRight padded standardFragments
  exact ⟨hcontent, hfile, hread hcontent _ _ hfile, hanalysis⟩

end Source

end LexAutomata
