/-
# Unreadable source texts

Reading a source text fails for three reasons (`Unreadable`): the file is missing, it is
not in UTF-8, or it holds nothing but white space.  It fails for no other reason
(`exists_read_eq_error_iff`).
-/
import LexAutomata.Source.Reading

namespace LexAutomata.Source

/-- Line breaks are blank in all their forms. -/
theorem forall_isBlank_unifyBreaks_iff {cs : List Char} :
    (∀ c ∈ unifyBreaks cs, Text.isBlank c = true) ↔ ∀ c ∈ cs, Text.isBlank c = true := by
  have hreturn : Text.isBlank '\r' = true := by decide
  have hfeed : Text.isBlank '\n' = true := by decide
  fun_induction unifyBreaks cs with
  | case1 => rfl
  | case2 cs ih => simp only [List.forall_mem_cons, hreturn, hfeed, true_and, ih]
  | case3 cs _ ih => simp only [List.forall_mem_cons, hreturn, hfeed, true_and, ih]
  | case4 c cs _ _ ih => simp only [List.forall_mem_cons, ih]

/-- Why a file holds no source text. -/
inductive Unreadable (files : Files) (name : String) : Prop
  /-- The name does not lead to a file. -/
  | missing (h : files.fileBytes? name = none)
  /-- The file is not in UTF-8. -/
  | undecodable {bytes : List UInt8} {e : Text.Utf8Error}
      (hfile : files.fileBytes? name = some bytes) (h : Text.decodeUtf8 bytes = .error e)
  /-- The file holds nothing but white space. -/
  | blank {bytes : List UInt8} {cs : List Char} (hfile : files.fileBytes? name = some bytes)
      (hcs : Text.decodeUtf8 bytes = .ok cs) (h : ∀ c ∈ cs, Text.isBlank c = true)

variable {files : Files} {name : String}

theorem isAllBlank_unifyBreaks_iff {cs : List Char} :
    Text.isAllBlank (String.ofList (unifyBreaks cs)) = true
      ↔ ∀ c ∈ cs, Text.isBlank c = true := by
  rw [Text.isAllBlank, String.toList_ofList, List.all_eq_true, forall_isBlank_unifyBreaks_iff]

/-- **Reading fails exactly for the three reasons.** -/
theorem exists_read_eq_error_iff :
    (∃ e, read files name = .error e) ↔ Unreadable files name := by
  rw [read]
  constructor
  · rintro ⟨e, h⟩
    split at h
    · rename_i hfile
      exact .missing hfile
    · rename_i bytes hfile
      rw [textOf] at h
      split at h
      · rename_i hcs
        exact .undecodable hfile hcs
      · rename_i cs hcs
        simp only at h
        split at h
        · rename_i hblank
          exact .blank hfile hcs (isAllBlank_unifyBreaks_iff.1 hblank)
        · cases h
  · rintro (hfile | ⟨hfile, he⟩ | ⟨hfile, hcs, hblank⟩)
    · rw [hfile]
      exact ⟨_, rfl⟩
    · rw [hfile]
      simp only [textOf, he]
      exact ⟨_, rfl⟩
    · rw [hfile]
      simp only [textOf, hcs, isAllBlank_unifyBreaks_iff.2 hblank, if_true]
      exact ⟨_, rfl⟩

end LexAutomata.Source
