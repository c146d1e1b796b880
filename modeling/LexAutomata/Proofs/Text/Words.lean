/-
# Words of a line

A word is a nonempty text without white space (`IsWord`).  What a line is cut into are
words (`isWord_of_mem_words`), and words with a blank after each but the last are what
their line is cut into (`words_append`, `words_eq_singleton`).
-/
import LexAutomata.Text.Blank

namespace LexAutomata.Text

/-- Characters, at least one and none of them white space. -/
def IsSolid (w : List Char) : Prop := w ≠ [] ∧ ∀ c ∈ w, isBlank c = false

instance (w : List Char) : Decidable (IsSolid w) :=
  decidable_of_iff (w ≠ [] ∧ (w.all fun c => !isBlank c) = true) (by simp [IsSolid])

/-- A nonempty text without white space. -/
def IsWord (w : String) : Prop := IsSolid w.toList
deriving Decidable

variable {v w : String} {cs : List Char}

/-- Two words without a blank between them are one word. -/
theorem IsWord.append (hv : IsWord v) (hw : IsWord w) : IsWord (v ++ w) := by
  rw [IsWord, IsSolid, String.toList_append]
  refine ⟨fun h => hv.1 (List.append_eq_nil_iff.1 h).1, fun c hc => ?_⟩
  exact (List.mem_append.1 hc).elim (hv.2 c) (hw.2 c)

/-! ## Cutting -/

/-- What a text is cut into are words. -/
theorem isSolid_of_mem_wordsOf {u : List Char} (hu : u ∈ wordsOf cs) : IsSolid u := by
  fun_induction wordsOf cs with
  | case1 => cases hu
  | case2 c rest _ ih => exact ih hu
  | case3 c rest hc ih =>
    rcases List.mem_cons.1 hu with rfl | hu
    · refine ⟨List.cons_ne_nil _ _, fun d hd => ?_⟩
      rcases List.mem_cons.1 hd with rfl | hd
      · exact Bool.eq_false_iff.2 hc
      · simpa using List.all_eq_true.1 List.all_takeWhile d hd
    · exact ih hu

/-- The words of a text are words. -/
theorem isWord_of_mem_words (hw : w ∈ words v) : IsWord w := by
  obtain ⟨u, hu, rfl⟩ := List.mem_map.1 hw
  rw [IsWord, String.toList_ofList]
  exact isSolid_of_mem_wordsOf hu

/-- A word is cut off where it ends or a blank follows. -/
theorem wordsOf_append {u rest : List Char} (hu : IsSolid u)
    (hrest : ∀ b ∈ rest.head?, isBlank b = true) : wordsOf (u ++ rest) = u :: wordsOf rest := by
  obtain ⟨c, u, rfl⟩ := List.exists_cons_of_ne_nil hu.1
  obtain ⟨hc, hsolid⟩ := List.forall_mem_cons.1 hu.2
  have hu : ∀ d ∈ u, (!isBlank d) = true := by simpa using hsolid
  have hend : rest.takeWhile (fun d => !isBlank d) = [] ∧
      rest.dropWhile (fun d => !isBlank d) = rest := by
    cases rest with
    | nil => exact ⟨rfl, rfl⟩
    | cons b rest =>
      have hb : ¬ (!isBlank b) = true := by simpa using hrest b rfl
      exact ⟨List.takeWhile_cons_of_neg hb, List.dropWhile_cons_of_neg hb⟩
  rw [List.cons_append, wordsOf, if_neg (by simp [hc]), List.takeWhile_append_of_pos hu,
    List.dropWhile_append_of_pos hu, hend.1, hend.2, List.append_nil]

theorem words_append (hv : IsWord v) (w : String) : words (v ++ " " ++ w) = v :: words w := by
  have hchars : (v ++ " " ++ w).toList = v.toList ++ ' ' :: w.toList := by simp
  have hblank : isBlank ' ' = true := by decide
  have hrest : wordsOf (' ' :: w.toList) = wordsOf w.toList := by rw [wordsOf, if_pos hblank]
  rw [words, hchars, wordsOf_append hv (by simpa using hblank), hrest, List.map_cons,
    String.ofList_toList, words]

/-- A word is cut into itself. -/
theorem words_eq_singleton (hw : IsWord w) : words w = [w] := by
  have h := wordsOf_append hw (by simp : ∀ b ∈ ([] : List Char).head?, isBlank b = true)
  rw [List.append_nil, wordsOf] at h
  rw [words, h, List.map_singleton, String.ofList_toList]

end LexAutomata.Text
