/-
# Paths without a null character

A path is refused because of a null character before anything is done with it.  Making a
directory with all that lead to it uses beginnings of its path and no other paths
(`mem_of_mem_divide`), so a path without a null character is never refused because of one
(`fault_ne_of_makeDirectories`).  Whatever else goes wrong is what the tree of files brings
about.
-/
import LexAutomata.Files.Directory

namespace LexAutomata

/-- No name on a path is found to have a null character. -/
theorem Position.follow_ne_nullCharacter (p : Position) (names : List String) :
    ¬ p.follow names = .error .nullCharacter := by
  induction names generalizing p with
  | nil => simp [follow]
  | cons name names ih =>
    rw [follow]
    split
    · simp
    · split
      · exact ih p
      · split
        · exact ih p.parent
        · split
          · simp
          · split
            · simp
            · exact ih _

namespace Files

variable {fs fs' : Files} {path : List Char} {e : PathError}

/-- No null character is found in a path without one. -/
theorem pathFault?_ne_nullCharacter (h : ¬ '\x00' ∈ path) :
    ¬ pathFault? (String.ofList path) = some .nullCharacter := by
  rw [pathFault?, String.toList_ofList, if_neg h]
  split
  · simp
  · split <;> simp

/-- A directory is not refused for a null character that its path does not have. -/
theorem makeDirectory_ne_nullCharacter (h : ¬ '\x00' ∈ path) :
    ¬ fs.makeDirectory (String.ofList path) = .error .nullCharacter := by
  rw [makeDirectory]
  split
  · -- the path is refused before it is followed
    rename_i fault hfault
    rintro ⟨⟩
    exact pathFault?_ne_nullCharacter h hfault
  · dsimp only
    split
    · simp
    · split
      · -- the path does not lead to a place
        rename_i fault hfollow
        rintro ⟨⟩
        exact Position.follow_ne_nullCharacter _ _ hfollow
      · -- nothing can be made at the place
        split
        · simp
        · split
          · simp
          · split
            · simp
            · split <;> simp

/-! ## Beginnings of paths -/

/-- The part of a path before its last name has no other characters. -/
theorem mem_of_mem_headPart {c : Char} (h : c ∈ headPart path) : c ∈ path := by
  have hhead : ∀ c ∈ path.reverse.dropWhile (· ≠ '/'), c ∈ path := fun c hc =>
    List.mem_reverse.1 ((List.dropWhile_sublist _).subset hc)
  unfold headPart at h
  dsimp only at h
  split at h
  · exact hhead c h
  · exact hhead c ((List.dropWhile_sublist _).subset (List.mem_reverse.1 h))

/-- The path to the parent of a directory has no other characters. -/
theorem mem_of_mem_divide {c : Char} (h : c ∈ (divide path).1) : c ∈ path := by
  unfold divide at h
  split at h
  · exact mem_of_mem_headPart (mem_of_mem_headPart h)
  · exact mem_of_mem_headPart h

/-! ## Making directories -/

/-- The last directory of a path is not refused for a null character that is not there. -/
theorem fault_ne_of_makeLast (h : ¬ '\x00' ∈ path) (he : fs.makeLast path = (.error e, fs')) :
    ¬ e.fault = .nullCharacter := by
  rw [makeLast] at he
  split at he
  · cases he
  · rename_i fault hfault
    split at he
    · cases he
    · cases he
      rintro rfl
      exact makeDirectory_ne_nullCharacter h hfault

/-- No directory along a path is refused for a null character that is not there. -/
theorem fault_ne_of_makeAll (h : ¬ '\x00' ∈ path) (he : fs.makeAll path = (.error e, fs')) :
    ¬ e.fault = .nullCharacter := by
  fun_induction makeAll fs path generalizing fs' with
  | case1 path _ _ _ _ _ _ => cases he
  | case2 path _ _ fs₁ _ _ _ => exact fault_ne_of_makeLast h he
  | case3 path _ _ _ _ _ => cases he
  | case4 path _ fs₁ _ _ _ => exact fault_ne_of_makeLast h he
  | case5 path _ e₁ fs₁ _ hmade ih =>
    cases he
    exact ih (fun hmem => h (mem_of_mem_divide hmem)) hmade
  | case6 path _ => exact fault_ne_of_makeLast h he

/-- **A directory can be refused for a null character only if its path holds one.** -/
theorem fault_ne_of_makeDirectories {directory : String} (h : ¬ '\x00' ∈ directory.toList)
    (he : fs.makeDirectories directory = (.error e, fs')) : ¬ e.fault = .nullCharacter :=
  fault_ne_of_makeAll h he

end Files

end LexAutomata
