/-
# Names that are entered more than once

The scan behind a data type does not stop at the next one, so the scans of a line overlap.
What one of them declares, every later data type before the name declares as well
(`Declares.later`): it is behind the same semicolons, and what was an initializer for it was
one before.  So a declared name always has an entry under the nearest data type, and it has
others exactly when a data type reaches it across another (`enteredOnce_iff`).  On a line
where a semicolon stands between any two data types that does not happen; a parameter in the
head of a function is entered twice (`symbolTable_parameter`).
-/
import LexAutomata.Proofs.Source.Declaration

namespace LexAutomata

namespace Source

/-! ## Data types one behind the other -/

variable {run : List String}

/-- Where a later run is in an initializer, the longer one is. -/
theorem InInitializer.of_suffix {r : List String} (h : InInitializer r) (hr : r <:+ run) :
    InInitializer run := by
  obtain ⟨front, rfl⟩ := hr
  obtain ⟨before, after, rfl, hafter⟩ := h
  refine ⟨front ++ before, after, (List.append_assoc _ _ _).symm, fun u v huv hdepth => ?_⟩
  refine hafter u v huv (hdepth.zero_of_suffix ?_)
  rw [List.append_assoc]
  exact List.suffix_append _ _

variable {ts : List String} {i i' j : Nat}

theorem between_suffix (h : i ≤ i') : between ts i' j <:+ between ts i j :=
  List.drop_suffix_drop_left _ (Nat.succ_le_succ h)

/-- **A later data type declares** what an earlier one does. -/
theorem Declares.later (h : Declares ts i j) (hi : i < i') (hj : i' < j) (ht : TypeAt ts i') :
    Declares ts i' j where
  type := ht
  behind := hj
  name := h.name
  unended hmem := h.unended ((between_suffix (Nat.le_of_lt hi)).mem hmem)
  stated hin := h.stated (hin.of_suffix (between_suffix (Nat.le_of_lt hi)))

/-- **The nearest data type declares** what any does. -/
theorem Declares.exists_nearest (h : Declares ts i j) :
    ∃ n, Declares ts n j ∧ ∀ m, n < m → m < j → ¬ TypeAt ts m := by
  induction hd : j - i using Nat.strong_induction_on generalizing i with
  | _ d ih =>
    by_cases hnext : ∃ m, i < m ∧ m < j ∧ TypeAt ts m
    · obtain ⟨m, him, hmj, ht⟩ := hnext
      exact ih (j - m) (by omega) (h.later him hmj ht) rfl
    · exact ⟨i, h, fun m him hmj ht => hnext ⟨m, him, hmj, ht⟩⟩

/-! ## Entries for one name -/

variable {lines : List (List String)} {sites : List Site} {entries : List SymbolEntry}

/-- No other data type stands between the data type and the name of the site. -/
def Site.IsNearest (lines : List (List String)) (p : Site) : Prop :=
  ∀ m, p.type < m → m < p.name → ¬ TypeAt (lines.getD p.line []) m

/-- The name at a position of a line has at most one of the sites. -/
def EnteredOnce (sites : List Site) (l j : Nat) : Prop :=
  ∀ p ∈ sites, ∀ q ∈ sites, p.line = l → p.name = j → q.line = l → q.name = j → p = q

/-- A data type declares the name at a position across another one. -/
def ReachedAcross (ts : List String) (j : Nat) : Prop :=
  ∃ i m, Declares ts i j ∧ i < m ∧ m < j ∧ TypeAt ts m

/-- A semicolon stands between any two data types of the line. -/
def Ended (ts : List String) : Prop :=
  ∀ i m, i < m → TypeAt ts i → TypeAt ts m → ";" ∈ between ts i m

/-- On a line of ended declarations no name is reached across a data type. -/
theorem Ended.not_reachedAcross (h : Ended ts) : ¬ ReachedAcross ts j := by
  rintro ⟨i, m, hdecl, him, hmj, ht⟩
  obtain ⟨k, hik, hkm, hk⟩ := mem_between_iff.1 (h i m him hdecl.type ht)
  exact hdecl.unended (mem_between_iff.2 ⟨k, hik, Nat.lt_trans hkm hmj, hk⟩)

namespace Tabulates

variable {l : Nat} (h : Tabulates lines (Site.Declared lines) sites entries)

include h

/-- A name that has a site has one with the nearest data type. -/
theorem exists_nearest {p : Site} (hp : p ∈ sites) :
    ∃ q ∈ sites, q.line = p.line ∧ q.name = p.name ∧ q.IsNearest lines := by
  obtain ⟨n, hdecl, hnearest⟩ := Declares.exists_nearest ((h.mem_iff p).1 hp)
  exact ⟨⟨p.line, n, p.name⟩, (h.mem_iff _).2 hdecl, rfl, rfl, hnearest⟩

/-- Every site of a name is nearest exactly when no data type reaches it across another. -/
theorem isNearest_iff :
    (∀ p ∈ sites, p.line = l → p.name = j → p.IsNearest lines) ↔
      ¬ ReachedAcross (lines.getD l []) j := by
  constructor
  · rintro hall ⟨i, m, hdecl, him, hmj, ht⟩
    exact hall ⟨l, i, j⟩ ((h.mem_iff _).2 hdecl) rfl rfl m him hmj ht
  · rintro hnot p hp rfl rfl m hm hmj ht
    exact hnot ⟨p.type, m, (h.mem_iff p).1 hp, hm, hmj, ht⟩

/-- **A name is entered once** exactly when no data type reaches it across another. -/
theorem enteredOnce_iff : EnteredOnce sites l j ↔ ¬ ReachedAcross (lines.getD l []) j := by
  constructor
  · rintro honce ⟨i, m, hdecl, him, hmj, ht⟩
    have hsite := honce ⟨l, i, j⟩ ((h.mem_iff _).2 hdecl) ⟨l, m, j⟩
      ((h.mem_iff _).2 (hdecl.later him hmj ht)) rfl rfl rfl rfl
    cases hsite
    exact Nat.lt_irrefl _ him
  · intro hnot p hp q hq hpl hpj hql hqj
    have hpnear := h.isNearest_iff.2 hnot p hp hpl hpj
    have hqnear := h.isNearest_iff.2 hnot q hq hql hqj
    have hpdecl := (h.mem_iff p).1 hp
    have hqdecl := (h.mem_iff q).1 hq
    obtain ⟨pl, pi, pj⟩ := p
    obtain ⟨ql, qi, qj⟩ := q
    obtain rfl : pl = ql := hpl.trans hql.symm
    obtain rfl : pj = qj := hpj.trans hqj.symm
    -- of two data types the earlier one would not be the nearest
    have hle : qi ≤ pi := Nat.not_lt.1 fun hlt => hpnear qi hlt hqdecl.behind hqdecl.type
    have hge : pi ≤ qi := Nat.not_lt.1 fun hlt => hqnear pi hlt hpdecl.behind hpdecl.type
    rw [Nat.le_antisymm hge hle]

end Tabulates

end Source

namespace Catalogue

open Source

/-- **Which names are entered once.**  With the standard fragments every text has a table.  A name
that it lists is listed under the nearest data type to its left; it is listed only once, and also
under no other type, exactly when no data type declares it across another.  On a line with a
semicolon between any two data types all names are such. -/
theorem symbolTable_once (code : String) (c : Counter) :
    ∃ fragments c' sites entries,
      standard.buildAll Category.all c = (.ok fragments, c') ∧
      symbolTable code fragments = .ok entries ∧
      Tabulates (tokenLines code) (Site.Declared (tokenLines code)) sites entries ∧
      (∀ p ∈ sites, ∃ q ∈ sites, q.line = p.line ∧ q.name = p.name ∧
        q.IsNearest (tokenLines code)) ∧
      (∀ l j, EnteredOnce sites l j ↔ ¬ ReachedAcross ((tokenLines code).getD l []) j) ∧
      (∀ l j, (∀ p ∈ sites, p.line = l → p.name = j → p.IsNearest (tokenLines code)) ↔
        ¬ ReachedAcross ((tokenLines code).getD l []) j) ∧
      ∀ l, Ended ((tokenLines code).getD l []) →
        ∀ j, EnteredOnce sites l j ∧
          ∀ p ∈ sites, p.line = l → p.name = j → p.IsNearest (tokenLines code) := by
  obtain ⟨fragments, c', hbuilt, -, htable⟩ := exists_symbolTable_eq code c
  obtain ⟨sites, h⟩ := exists_tabulates code
  refine ⟨fragments, c', sites, _, hbuilt, htable, h, fun p => h.exists_nearest,
    fun l j => h.enteredOnce_iff, fun l j => h.isNearest_iff, fun l hended j => ?_⟩
  exact ⟨h.enteredOnce_iff.2 hended.not_reachedAcross,
    h.isNearest_iff.2 hended.not_reachedAcross⟩

/-- The one parameter of a function is entered twice and under two types. -/
theorem symbolTable_parameter :
    ∃ fragments c' sites entries,
      standard.buildAll Category.all {} = (.ok fragments, c') ∧
      symbolTable "int f(float x);" fragments = .ok entries ∧
      Tabulates (tokenLines "int f(float x);")
        (Site.Declared (tokenLines "int f(float x);")) sites entries ∧
      entries = [⟨"f", "int", "Global"⟩, ⟨"float", "int", "Global"⟩, ⟨"x", "int", "Global"⟩,
        ⟨"x", "float", "Global"⟩] ∧
      ¬ EnteredOnce sites 0 4 ∧
      ¬ ∀ p ∈ sites, p.line = 0 → p.name = 4 → p.IsNearest (tokenLines "int f(float x);") := by
  obtain ⟨fragments, c', hbuilt, -, htable⟩ := exists_symbolTable_eq "int f(float x);" {}
  obtain ⟨sites, h⟩ := exists_tabulates "int f(float x);"
  have hline : (tokenLines "int f(float x);").getD 0 []
      = ["int", "f", "(", "float", "x", ")", ";"] := by
    decide +kernel
  have hentries : (candidates false (tokenLines "int f(float x);")).filter SymbolEntry.isNamed
      = [⟨"f", "int", "Global"⟩, ⟨"float", "int", "Global"⟩, ⟨"x", "int", "Global"⟩,
        ⟨"x", "float", "Global"⟩] := by
    decide +kernel
  have hacross : ReachedAcross ((tokenLines "int f(float x);").getD 0 []) 4 := by
    rw [hline]
    refine ⟨0, 3, ⟨⟨"int", by decide, rfl⟩, by decide, ⟨"x", rfl, by decide, by decide⟩, by decide,
      ?_⟩, by decide, by decide, ⟨"float", by decide, rfl⟩⟩
    rintro ⟨before, after, heq, -⟩
    have hmem : "=" ∈ between ["int", "f", "(", "float", "x", ")", ";"] 0 4 := by
      rw [heq]
      simp
    exact absurd hmem (by decide)
  exact ⟨fragments, c', sites, _, hbuilt, htable, h, hentries,
    fun honce => h.enteredOnce_iff.1 honce hacross,
    fun hnear => h.isNearest_iff.1 hnear hacross⟩

end Catalogue

end LexAutomata
