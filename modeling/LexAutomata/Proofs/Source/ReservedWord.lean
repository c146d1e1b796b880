/-
# Reserved words among declared names

The symbol table takes for a name whatever the fragment of identifiers accepts, and that
fragment accepts the reserved words too.  Only `main` is left out apart.  So every entry has
the category of identifiers or that of keywords, and the entries are identifiers throughout
exactly when no reserved word stands where a data type declares a name
(`classify_identifiers`).  Such a word need not be meant as a name: a function of no
parameters whose body begins on the same line is enough (`symbolTable_return`).
-/
import LexAutomata.Proofs.Source.Declaration

namespace LexAutomata

namespace Source

/-- A reserved word stands where the name of the site does. -/
def Site.IsReserved (lines : List (List String)) (p : Site) : Prop :=
  ∃ w ∈ Category.keywords, (lines.getD p.line [])[p.name]? = some w

variable {lines : List (List String)} {p : Site} {e : SymbolEntry}

/-- What is entered for a declared site is the name that stands there. -/
theorem EntryAt.isIdentifier (h : EntryAt lines p e) (hp : p.Declared lines) :
    Grammar.IsIdentifier e.identifier.toList ∧ e.identifier ≠ "main" := by
  obtain ⟨w, hw, hname⟩ := hp.name
  obtain rfl := Option.some.inj (h.identifier.symm.trans hw)
  exact hname

theorem EntryAt.isReserved_iff (h : EntryAt lines p e) :
    p.IsReserved lines ↔ e.identifier ∈ Category.keywords := by
  constructor
  · rintro ⟨w, hw, hname⟩
    exact Option.some.inj (hname.symm.trans h.identifier) ▸ hw
  · exact fun hw => ⟨e.identifier, hw, h.identifier⟩

end Source

namespace Catalogue

open Source

/-- **The names in the symbol table are identifiers or reserved words.**  With the standard
fragments every text has a table; no name in it is `main`, and a name is classified as a keyword if
it is a reserved word, and otherwise as an identifier.  So all names are classified as identifiers
if and only if no reserved word stands where a data type declares a name. -/
theorem classify_identifiers (code : String) (c : Counter) :
    ∃ fragments c' entries,
      standard.buildAll Category.all c = (.ok fragments, c') ∧
      symbolTable code fragments = .ok entries ∧
      (∀ e ∈ entries, e.identifier ≠ "main" ∧ classify e.identifier fragments
        = .ok (some (if e.identifier ∈ Category.keywords then Category.keyword
            else Category.identifier))) ∧
      ((∀ e ∈ entries, classify e.identifier fragments = .ok (some Category.identifier)) ↔
        ¬ ∃ p : Site, p.Declared (tokenLines code) ∧ p.IsReserved (tokenLines code)) := by
  obtain ⟨fragments, c', hbuilt, hclassify, htable⟩ := exists_symbolTable_eq code c
  obtain ⟨sites, h⟩ := exists_tabulates code
  have hcategory : ∀ e ∈ (candidates false (tokenLines code)).filter SymbolEntry.isNamed,
      classify e.identifier fragments
        = .ok (some (if e.identifier ∈ Category.keywords then Category.keyword
            else Category.identifier)) := by
    intro e he
    obtain ⟨p, hp, hentry⟩ := h.exists_entryAt he
    rw [hclassify, Grammar.category?_of_isIdentifier (hentry.isIdentifier hp).1]
  refine ⟨fragments, c', _, hbuilt, htable, fun e he => ?_, ?_, ?_⟩
  · obtain ⟨p, hp, hentry⟩ := h.exists_entryAt he
    exact ⟨(hentry.isIdentifier hp).2, hcategory e he⟩
  · rintro hall ⟨p, hp, hreserved⟩
    obtain ⟨e, he, hentry⟩ := h.exists_entry hp
    have hidentifier := hall e he
    rw [hcategory e he, if_pos (hentry.isReserved_iff.1 hreserved)] at hidentifier
    exact absurd hidentifier (by decide)
  · intro hnone e he
    obtain ⟨p, hp, hentry⟩ := h.exists_entryAt he
    rw [hcategory e he, if_neg]
    exact fun hreserved => hnone ⟨p, hp, hentry.isReserved_iff.2 hreserved⟩

/-- A function without parameters declares what its body says: `return` becomes a variable. -/
theorem symbolTable_return :
    ∃ fragments c' entries,
      standard.buildAll Category.all {} = (.ok fragments, c') ∧
      symbolTable "int f() \x7b return g; \x7d" fragments = .ok entries ∧
      entries = [⟨"f", "int", "Global"⟩, ⟨"return", "int", "Global"⟩, ⟨"g", "int", "Global"⟩] ∧
      classify "return" fragments = .ok (some Category.keyword) ∧
      ¬ ∀ e ∈ entries, classify e.identifier fragments = .ok (some Category.identifier) := by
  obtain ⟨fragments, c', hbuilt, hclassify, htable⟩ :=
    exists_symbolTable_eq "int f() \x7b return g; \x7d" {}
  have hentries : (candidates false (tokenLines "int f() \x7b return g; \x7d")).filter
      SymbolEntry.isNamed
      = [⟨"f", "int", "Global"⟩, ⟨"return", "int", "Global"⟩, ⟨"g", "int", "Global"⟩] := by
    decide +kernel
  have hreturn : classify "return" fragments = .ok (some Category.keyword) := by
    rw [hclassify]
    decide
  refine ⟨fragments, c', _, hbuilt, htable, hentries, hreturn, fun hall => ?_⟩
  rw [hentries] at hall
  have hidentifier := hall ⟨"return", "int", "Global"⟩ (by simp)
  rw [hreturn] at hidentifier
  exact absurd hidentifier (by decide)

end Catalogue

end LexAutomata
