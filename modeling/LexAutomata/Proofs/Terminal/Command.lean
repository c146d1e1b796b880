/-
# Words of commands

The names under which a command may store something (`Command.results`) are words of its
line, or are made of them (`isWord_of_mem_results`).  A command word and words after it,
with blanks between them, are read back from their line (`ofLine_test`, `ofLine_classify`).
-/
import LexAutomata.Proofs.Text.Words
import LexAutomata.Terminal.Command

namespace LexAutomata.Terminal.Command

/-- The names under which the command may store something. -/
def results : Command → List String
  | .build names => names
  | .merge result | .determinize _ result | .minimize _ _ result => [result]
  | .nothing | .leave | .help | .list | .present _ | .draw _ | .test _ _ | .classify _ | .load _
  | .report _ | .delete _ | .clear | .incomplete _ | .unknown _ => []

/-- The name that a result of minimizing is stored under is a word. -/
theorem isWord_of_mem_results_minimizeWords {name : String} (hname : Text.IsWord name)
    {rest : List String} (hrest : ∀ w ∈ rest, Text.IsWord w) {a : String}
    (ha : a ∈ (minimizeWords name rest).results) : Text.IsWord a := by
  have hmin : Text.IsWord (name ++ "_min") := hname.append (by decide)
  cases rest with
  | nil => exact List.mem_singleton.1 ha ▸ hmin
  | cons w ws =>
    rw [List.forall_mem_cons] at hrest
    rw [minimizeWords] at ha
    split at ha
    · rw [List.mem_singleton.1 ha]
      cases ws with
      | nil => exact hmin
      | cons v vs => exact hrest.2 v List.mem_cons_self
    · exact List.mem_singleton.1 ha ▸ hrest.1

/-- The names that the results of a command are stored under are words. -/
theorem isWord_of_mem_results_ofWord {word : String} {rest : List String}
    (hrest : ∀ w ∈ rest, Text.IsWord w) {a : String} (ha : a ∈ (ofWord word rest).results) :
    Text.IsWord a := by
  have hcategories : ∀ w ∈ Category.all, Text.IsWord w := by decide
  have hcombined : Text.IsWord "Combined" := by decide
  have htable : Text.IsWord "_dfa" := by decide
  unfold ofWord at ha
  -- most commands store nothing, and seven cases are left of those that do
  split at ha
  all_goals try exact absurd ha List.not_mem_nil
  case h_4 => exact hcategories a ha
  case h_5 => exact hrest a ha
  case h_7 => exact List.mem_singleton.1 ha ▸ hcombined
  case h_8 => exact List.mem_singleton.1 ha ▸ hrest _ List.mem_cons_self
  case h_18 => exact List.mem_singleton.1 ha ▸ (hrest _ List.mem_cons_self).append htable
  case h_19 =>
    exact List.mem_singleton.1 ha ▸ hrest _ (List.mem_cons_of_mem _ List.mem_cons_self)
  case h_21 =>
    rw [List.forall_mem_cons] at hrest
    exact isWord_of_mem_results_minimizeWords hrest.1 hrest.2 ha

/-- **What a command stores is named by words.** -/
theorem isWord_of_mem_results {line a : String} (ha : a ∈ (ofLine line).results) :
    Text.IsWord a := by
  rw [ofLine] at ha
  cases hwords : Text.words line with
  | nil =>
    rw [hwords] at ha
    exact absurd ha List.not_mem_nil
  | cons word rest =>
    rw [hwords] at ha
    refine isWord_of_mem_results_ofWord (fun w hw => ?_) ha
    exact Text.isWord_of_mem_words (hwords ▸ List.mem_cons_of_mem _ hw)

/-! ## Lines of commands -/

/-- The line that asks for a test of a word is read as such. -/
theorem ofLine_test {name word : String} (hname : Text.IsWord name) (hword : Text.IsWord word) :
    ofLine ("test " ++ name ++ " " ++ word) = .test name word := by
  have hfirst : Text.IsWord "test" := by decide
  have hline : "test " ++ name ++ " " ++ word = "test" ++ " " ++ (name ++ " " ++ word) := by
    rw [← String.append_assoc, ← String.append_assoc]
    rfl
  have hlower : Text.lower "test" = "test" := by decide +kernel
  rw [ofLine, hline, Text.words_append hfirst, Text.words_append hname,
    Text.words_eq_singleton hword]
  simp only [hlower]
  rfl

/-- The line that asks for the category of a token is read as such. -/
theorem ofLine_classify {token : String} (htoken : Text.IsWord token) :
    ofLine ("classify " ++ token) = .classify token := by
  have hfirst : Text.IsWord "classify" := by decide
  have hlower : Text.lower "classify" = "classify" := by decide +kernel
  rw [ofLine, show "classify " = "classify" ++ " " from rfl, Text.words_append hfirst,
    Text.words_eq_singleton htoken]
  simp only [hlower]
  rfl

end LexAutomata.Terminal.Command
