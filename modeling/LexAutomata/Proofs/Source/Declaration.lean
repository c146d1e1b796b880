/-
# The sites of declared names

The scan behind a data type keeps two things: whether it is in an initializer, and how many
parentheses are open, where a closing one with none open counts for nothing.  Both can be
read off the tokens that the scan has passed, without following it.  The number of open
parentheses is the greatest surplus of opening over closing ones among the runs of tokens
that end at the place of the scan (`IsDepth.concat`), and an initializer lasts from an
equals sign to the next comma at depth 0 (`inInitializer_concat_iff`).  So the scan finds the
sites where its data type declares a name (`exists_tabulates_declaredAfter`), and line by
line the symbol table lists the sites of the whole text, in their order and each once
(`exists_tabulates`).  With the standard fragments these are all its entries
(`symbolTable_tabulates`).
-/
import Mathlib.Data.List.Forall2
import Mathlib.Order.Bounds.Basic
import LexAutomata.Proofs.Recognizer

namespace LexAutomata

namespace Source

/-! ## Runs of tokens -/

/-- The opening less the closing parentheses of a run of tokens. -/
def surplus (run : List String) : Int := run.count "(" - run.count ")"

/-- How deep in parentheses the end of a run is: the greatest surplus of a run that ends there and
begins in the run.  The empty run is one of them. -/
def IsDepth (run : List String) (d : Int) : Prop := IsGreatest (surplus '' {r | r <:+ run}) d

/-- The end of a run lies in an initializer: behind some equals sign there is no comma at
depth 0. -/
def InInitializer (run : List String) : Prop :=
  ∃ before after, run = before ++ "=" :: after ∧
    ∀ u v, after = u ++ "," :: v → ¬ IsDepth (before ++ "=" :: u) 0

theorem surplus_append (u v : List String) : surplus (u ++ v) = surplus u + surplus v := by
  unfold surplus
  rw [List.count_append, List.count_append]
  omega

theorem surplus_singleton {t : String} (hopen : t ≠ "(") (hclose : t ≠ ")") : surplus [t] = 0 := by
  unfold surplus
  rw [List.count_eq_zero_of_not_mem (by simpa using hopen.symm),
    List.count_eq_zero_of_not_mem (by simpa using hclose.symm)]
  rfl

variable {run : List String} {d : Int}

theorem isDepth_nil : IsDepth [] 0 := by
  refine ⟨⟨[], List.suffix_rfl, rfl⟩, ?_⟩
  rintro _ ⟨r, hr, rfl⟩
  rw [List.suffix_nil.1 hr]
  rfl

/-- **One more token** changes the depth by its surplus, but not below zero. -/
theorem IsDepth.concat (h : IsDepth run d) (t : String) :
    IsDepth (run ++ [t]) (max (d + surplus [t]) 0) := by
  constructor
  · rcases le_total (d + surplus [t]) 0 with hle | hle
    · rw [max_eq_right hle]
      exact ⟨[], List.nil_suffix, rfl⟩
    · rw [max_eq_left hle]
      obtain ⟨r, ⟨front, rfl⟩, rfl⟩ := h.1
      exact ⟨r ++ [t], ⟨front, (List.append_assoc _ _ _).symm⟩, surplus_append r [t]⟩
  · rintro _ ⟨r, hr, rfl⟩
    rcases List.suffix_concat_iff.1 hr with rfl | ⟨r', rfl, hr'⟩
    · exact le_max_right _ _
    · rw [surplus_append]
      have := h.2 ⟨r', hr', rfl⟩
      exact le_max_of_le_left (by omega)

/-- A run that ends at the same place and begins later is not deeper. -/
theorem IsDepth.zero_of_suffix {r : List String} (h : IsDepth run 0) (hr : r <:+ run) :
    IsDepth r 0 := by
  refine ⟨⟨[], List.nil_suffix, rfl⟩, ?_⟩
  rintro _ ⟨r', hr', rfl⟩
  exact h.2 ⟨r', hr'.trans hr, rfl⟩

theorem not_inInitializer_nil : ¬ InInitializer [] := by
  rintro ⟨before, after, h, -⟩
  exact List.cons_ne_nil _ _ (List.append_eq_nil_iff.1 h.symm).2

/-- **An initializer** begins with an equals sign and lasts until a comma at depth 0. -/
theorem inInitializer_concat_iff {t : String} :
    InInitializer (run ++ [t]) ↔
      t = "=" ∨ (InInitializer run ∧ ¬ (t = "," ∧ IsDepth run 0)) := by
  constructor
  · rintro ⟨before, after, h, hafter⟩
    rcases List.eq_nil_or_concat after with rfl | ⟨after, t', rfl⟩
    · exact Or.inl (List.singleton_inj.1 (List.append_inj' h rfl).2)
    · rw [List.concat_eq_append, ← List.cons_append, ← List.append_assoc] at h
      obtain ⟨rfl, ht⟩ := List.append_inj' h rfl
      obtain rfl := List.singleton_inj.1 ht
      refine Or.inr ⟨⟨before, after, rfl, ?_⟩, ?_⟩
      · rintro u v rfl
        exact hafter u (v ++ [t]) (by simp)
      · rintro ⟨rfl, hdepth⟩
        exact hafter after [] (by simp) hdepth
  · rintro (rfl | ⟨⟨before, after, rfl, hafter⟩, hcomma⟩)
    · refine ⟨run, [], rfl, fun u v h => ?_⟩
      exact absurd h.symm (by simp)
    · refine ⟨before, after ++ [t], by simp, fun u v h => ?_⟩
      rcases List.eq_nil_or_concat v with rfl | ⟨v, t', rfl⟩
      · obtain ⟨rfl, ht⟩ := List.append_inj' h rfl
        exact fun hdepth => hcomma ⟨List.singleton_inj.1 ht, hdepth⟩
      · rw [List.concat_eq_append, ← List.cons_append, ← List.append_assoc] at h
        exact hafter u v (List.append_inj' h rfl).1

/-! ## Declared names -/

/-- The tokens between two positions of a line. -/
def between (ts : List String) (i j : Nat) : List String := (ts.take j).drop (i + 1)

/-- A data type stands at a position of a line. -/
def TypeAt (ts : List String) (i : Nat) : Prop := ∃ t ∈ datatypes, ts[i]? = some t

/-- The data type at position `i` of a line declares the name at position `j` behind it. -/
structure Declares (ts : List String) (i j : Nat) : Prop where
  /-- A data type stands at the one position. -/
  type : TypeAt ts i
  /-- The other position is behind it. -/
  behind : i < j
  /-- A name stands at the other position. -/
  name : ∃ w, ts[j]? = some w ∧ Grammar.IsIdentifier w.toList ∧ w ≠ "main"
  /-- No semicolon ends the declaration before the name. -/
  unended : ¬ ";" ∈ between ts i j
  /-- The name does not lie in an initializer. -/
  stated : ¬ InInitializer (between ts i j)

/-- Where a name may be declared, all counted from zero. -/
structure Site where
  /-- The line. -/
  line : Nat
  /-- The position of the data type on the line. -/
  type : Nat
  /-- The position of the name on the line. -/
  name : Nat

variable {lines : List (List String)}

/-- The name at the site is declared by the data type there. -/
def Site.Declared (lines : List (List String)) (p : Site) : Prop :=
  Declares (lines.getD p.line []) p.type p.name

/-- The order of sites: by lines, then by data types, then by names. -/
def Site.Before (p q : Site) : Prop :=
  p.line < q.line ∨
    (p.line = q.line ∧ (p.type < q.type ∨ (p.type = q.type ∧ p.name < q.name)))

/-- The main function begins at a position of a line. -/
def StartsMain (ts : List String) (m : Nat) : Prop := ts[m]? = some "main" ∧ ts[m + 1]? = some "("

/-- The main function begins before the data type, on an earlier line or on its own. -/
def Site.IsLocal (lines : List (List String)) (p : Site) : Prop :=
  (∃ l < p.line, ∃ m, StartsMain (lines.getD l []) m) ∨
    ∃ m, m + 1 < p.type ∧ StartsMain (lines.getD p.line []) m

/-- What is entered for a site. -/
structure EntryAt (lines : List (List String)) (p : Site) (e : SymbolEntry) : Prop where
  /-- The name that stands there. -/
  identifier : (lines.getD p.line [])[p.name]? = some e.identifier
  /-- The data type that stands there. -/
  datatype : (lines.getD p.line [])[p.type]? = some e.datatype
  /-- The scope is one of two. -/
  scope : e.scope = "Global" ∨ e.scope = "Local"
  /-- It is local where the main function has begun. -/
  local_iff : e.scope = "Local" ↔ p.IsLocal lines

/-- The entries are those of the sites of a kind, which are listed in their order. -/
structure Tabulates (lines : List (List String)) (D : Site → Prop) (sites : List Site)
    (entries : List SymbolEntry) : Prop where
  /-- Every site comes before the later ones. -/
  ordered : sites.Pairwise Site.Before
  /-- The sites are those of the kind. -/
  mem_iff : ∀ p, p ∈ sites ↔ D p
  /-- The entries are those of the sites. -/
  entryAt : List.Forall₂ (EntryAt lines) sites entries

namespace Tabulates

variable {D E F : Site → Prop} {ps qs : List Site} {es fs : List SymbolEntry}

theorem nil (h : ∀ p, ¬ D p) : Tabulates lines D [] [] where
  ordered := .nil
  mem_iff p := by simp [h p]
  entryAt := .nil

theorem single {p : Site} {e : SymbolEntry} (h : EntryAt lines p e) :
    Tabulates lines (· = p) [p] [e] where
  ordered := List.pairwise_singleton _ _
  mem_iff _ := List.mem_singleton
  entryAt := .cons h .nil

/-- Sites of two kinds, one before the other. -/
theorem append (h : Tabulates lines D ps es) (h' : Tabulates lines E qs fs)
    (hbefore : ∀ p q, D p → E q → p.Before q) (hF : ∀ p, F p ↔ D p ∨ E p) :
    Tabulates lines F (ps ++ qs) (es ++ fs) where
  ordered := List.pairwise_append.2 ⟨h.ordered, h'.ordered, fun p hp q hq =>
    hbefore p q ((h.mem_iff p).1 hp) ((h'.mem_iff q).1 hq)⟩
  mem_iff p := by rw [List.mem_append, h.mem_iff, h'.mem_iff, hF]
  entryAt := List.rel_append h.entryAt h'.entryAt

theorem congr (h : Tabulates lines D ps es) (hE : ∀ p, E p ↔ D p) : Tabulates lines E ps es where
  ordered := h.ordered
  mem_iff p := (h.mem_iff p).trans (hE p).symm
  entryAt := h.entryAt

/-- A site that precedes all others comes first. -/
theorem cons {p : Site} {e : SymbolEntry} (h : Tabulates lines D ps es) (he : EntryAt lines p e)
    (hbefore : ∀ q, D q → p.Before q) (hF : ∀ q, F q ↔ q = p ∨ D q) :
    Tabulates lines F (p :: ps) (e :: es) :=
  (single he).append h (fun _ q hp hq => hp ▸ hbefore q hq) hF

/-- Every entry has its site. -/
theorem exists_entryAt (h : Tabulates lines D ps es) {e : SymbolEntry} (he : e ∈ es) :
    ∃ p, D p ∧ EntryAt lines p e := by
  obtain ⟨n, hn, rfl⟩ := List.getElem_of_mem he
  have hn' : n < ps.length := h.entryAt.length_eq ▸ hn
  exact ⟨ps[n], (h.mem_iff _).1 (List.getElem_mem hn'), h.entryAt.get hn' hn⟩

/-- Every site has its entry in the table. -/
theorem exists_entry (h : Tabulates lines D ps es) {p : Site} (hp : D p) :
    ∃ e ∈ es, EntryAt lines p e := by
  obtain ⟨n, hn, rfl⟩ := List.getElem_of_mem ((h.mem_iff p).2 hp)
  have hn' : n < es.length := h.entryAt.length_eq ▸ hn
  exact ⟨es[n], List.getElem_mem hn', h.entryAt.get hn hn'⟩

end Tabulates

/-! ## The scan behind a data type -/

/-- The state of the scan behind a run of tokens that it has passed. -/
structure Scanned (run : List String) (inInitializer : Bool) (depth : Nat) : Prop where
  /-- The scan has met no semicolon. -/
  unended : ¬ ";" ∈ run
  /-- The number of open parentheses is the depth. -/
  isDepth : IsDepth run depth
  /-- The flag tells whether the scan is in an initializer. -/
  inInitializer_iff : inInitializer = true ↔ InInitializer run

namespace Scanned

variable {inInitializer : Bool} {depth : Nat}

theorem nil : Scanned [] false 0 where
  unended := List.not_mem_nil
  isDepth := isDepth_nil
  inInitializer_iff := iff_of_false Bool.false_ne_true not_inInitializer_nil

/-- The scan is outside parentheses when the depth is 0. -/
theorem isDepth_zero_iff (h : Scanned run inInitializer depth) :
    IsDepth run 0 ↔ depth = 0 := by
  constructor
  · intro hzero
    have := hzero.unique h.isDepth
    omega
  · rintro rfl
    exact h.isDepth

/-- **One more token is passed.** -/
theorem concat (h : Scanned run inInitializer depth) {t : String} {inInitializer' : Bool}
    {depth' : Nat} (ht : t ≠ ";") (hdepth : (depth' : Int) = max (depth + surplus [t]) 0)
    (hflag : inInitializer' = true ↔
      t = "=" ∨ (inInitializer = true ∧ ¬ (t = "," ∧ depth = 0))) :
    Scanned (run ++ [t]) inInitializer' depth' where
  unended hmem := by
    rcases List.mem_append.1 hmem with hmem | hmem
    · exact h.unended hmem
    · exact ht (List.mem_singleton.1 hmem).symm
  isDepth := hdepth ▸ h.isDepth.concat t
  inInitializer_iff := by
    rw [hflag, inInitializer_concat_iff, h.isDepth_zero_iff, h.inInitializer_iff]

end Scanned

variable {ts : List String} {i k : Nat}

theorem between_self_succ : between ts i (i + 1) = [] := by
  rw [between, List.drop_eq_nil_iff, List.length_take]
  omega

/-- The run behind a data type grows by the token at its end. -/
theorem between_succ (hik : i < k) {t : String} (ht : ts[k]? = some t) :
    between ts i (k + 1) = between ts i k ++ [t] := by
  obtain ⟨hk, -⟩ := List.getElem?_eq_some_iff.1 ht
  unfold between
  rw [List.take_add_one, ht, Option.toList_some, List.drop_append_of_le_length]
  rw [List.length_take]
  omega

/-- **The scan passes the token** at its position. -/
theorem Scanned.succ {inInitializer inInitializer' : Bool} {depth depth' : Nat}
    (h : Scanned (between ts i k) inInitializer depth) (hik : i < k) {t : String}
    (hk : ts[k]? = some t) (ht : t ≠ ";") (hdepth : (depth' : Int) = max (depth + surplus [t]) 0)
    (hflag : inInitializer' = true ↔
      t = "=" ∨ (inInitializer = true ∧ ¬ (t = "," ∧ depth = 0))) :
    Scanned (between ts i (k + 1)) inInitializer' depth' := by
  rw [between_succ hik hk]
  exact h.concat ht hdepth hflag

/-- The run behind a data type holds the tokens at the positions up to its end. -/
theorem mem_between_iff {j : Nat} {t : String} :
    t ∈ between ts i j ↔ ∃ k, i < k ∧ k < j ∧ ts[k]? = some t := by
  rw [between, List.mem_iff_getElem?]
  simp only [List.getElem?_drop, List.getElem?_take]
  constructor
  · rintro ⟨n, hn⟩
    split at hn
    · exact ⟨i + 1 + n, by omega, by omega, hn⟩
    · cases hn
  · rintro ⟨k, hik, hkj, hk⟩
    refine ⟨k - (i + 1), ?_⟩
    rwa [show i + 1 + (k - (i + 1)) = k by omega, if_pos hkj]

/-- **What the scan decides at a token.** -/
theorem Scanned.declares_iff {inInitializer : Bool} {depth : Nat}
    (h : Scanned (between ts i k) inInitializer depth) {t : String} (ht : t ∈ datatypes)
    (hi : ts[i]? = some t) (hik : i < k) {w : String} (hk : ts[k]? = some w) :
    Declares ts i k ↔ Grammar.IsIdentifier w.toList ∧ w ≠ "main" ∧ inInitializer = false := by
  rw [← Bool.not_eq_true, h.inInitializer_iff]
  constructor
  · intro hdecl
    obtain ⟨w', hw', hname, hmain⟩ := hdecl.name
    obtain rfl : w = w' := Option.some.inj (hk.symm.trans hw')
    exact ⟨hname, hmain, hdecl.stated⟩
  · rintro ⟨hname, hmain, hstated⟩
    exact ⟨⟨t, ht, hi⟩, hik, ⟨w, hk, hname, hmain⟩, h.unended, hstated⟩

/-- Only a name of an identifier is declared. -/
theorem not_declares {w : String} (hk : ts[k]? = some w) (hw : ¬ Grammar.IsIdentifier w.toList) :
    ¬ Declares ts i k := by
  intro hdecl
  obtain ⟨w', hw', hname, -⟩ := hdecl.name
  exact hw (Option.some.inj (hk.symm.trans hw') ▸ hname)

/-- Is the name of the entry one that identifiers have? -/
def SymbolEntry.isNamed (e : SymbolEntry) : Bool :=
  decide (Grammar.IsIdentifier e.identifier.toList)

theorem SymbolEntry.isNamed_eq_true_iff {e : SymbolEntry} :
    e.isNamed = true ↔ Grammar.IsIdentifier e.identifier.toList :=
  decide_eq_true_iff

/-- Behind a position at which no name is declared stand the same names as from it on. -/
theorem exists_tabulates_skip {l : Nat} {es : List SymbolEntry}
    (hskip : ¬ Declares (lines.getD l []) i k)
    (h : ∃ sites, Tabulates lines
      (fun p => p.line = l ∧ p.type = i ∧ k + 1 ≤ p.name ∧ p.Declared lines) sites es) :
    ∃ sites, Tabulates lines
      (fun p => p.line = l ∧ p.type = i ∧ k ≤ p.name ∧ p.Declared lines) sites es := by
  obtain ⟨sites, h⟩ := h
  refine ⟨sites, h.congr fun p => and_congr_right fun hl => and_congr_right fun hi => ?_⟩
  constructor
  · rintro ⟨hle, hdecl⟩
    have hne : k ≠ p.name := by
      rintro rfl
      rw [Site.Declared, hl, hi] at hdecl
      exact hskip hdecl
    exact ⟨by omega, hdecl⟩
  · rintro ⟨hle, hdecl⟩
    exact ⟨by omega, hdecl⟩

/-- A name that is declared at a position comes before those behind it. -/
theorem exists_tabulates_keep {l : Nat} {e : SymbolEntry} {es : List SymbolEntry}
    (hkeep : Declares (lines.getD l []) i k) (he : EntryAt lines ⟨l, i, k⟩ e)
    (h : ∃ sites, Tabulates lines
      (fun p => p.line = l ∧ p.type = i ∧ k + 1 ≤ p.name ∧ p.Declared lines) sites es) :
    ∃ sites, Tabulates lines
      (fun p => p.line = l ∧ p.type = i ∧ k ≤ p.name ∧ p.Declared lines) sites (e :: es) := by
  obtain ⟨sites, h⟩ := h
  refine ⟨⟨l, i, k⟩ :: sites, h.cons he ?_ ?_⟩
  · rintro q ⟨hl, hi, hle, -⟩
    exact Or.inr ⟨hl.symm, Or.inr ⟨hi.symm, hle⟩⟩
  · rintro ⟨l', i', j⟩
    constructor
    · rintro ⟨rfl, rfl, hle, hdecl⟩
      rcases Nat.eq_or_lt_of_le hle with rfl | hlt
      · exact Or.inl rfl
      · exact Or.inr ⟨rfl, rfl, hlt, hdecl⟩
    · rintro (hq | ⟨hl, hi, hle, hdecl⟩)
      · cases hq
        exact ⟨rfl, rfl, Nat.le_refl k, hkeep⟩
      · exact ⟨hl, hi, Nat.le_of_succ_le hle, hdecl⟩

/-- The first token of a rest of the line, and what follows it. -/
theorem of_drop_eq_cons {w : String} {ws : List String} (h : ts.drop k = w :: ws) :
    ts[k]? = some w ∧ ts.drop (k + 1) = ws := by
  constructor
  · rw [← List.head?_drop, h]
    rfl
  · rw [← List.tail_drop, h]
    rfl

/-- **The names that the scan finds** from a position on are those of the declared sites. -/
theorem exists_tabulates_declaredAfter {l : Nat} {t scope : String} (ht : t ∈ datatypes)
    (hi : (lines.getD l [])[i]? = some t)
    (hentry : ∀ j w, (lines.getD l [])[j]? = some w → EntryAt lines ⟨l, i, j⟩ ⟨w, t, scope⟩)
    (hik : i < k) {inInitializer : Bool} {depth : Nat} {rest : List String}
    (hrest : (lines.getD l []).drop k = rest)
    (h : Scanned (between (lines.getD l []) i k) inInitializer depth) :
    ∃ sites, Tabulates lines
      (fun p => p.line = l ∧ p.type = i ∧ k ≤ p.name ∧ p.Declared lines) sites
      (((declaredAfter inInitializer depth rest).map fun name =>
        ⟨name, t, scope⟩).filter SymbolEntry.isNamed) := by
  fun_induction declaredAfter inInitializer depth rest generalizing k with
  | case1 =>
    refine ⟨[], .nil ?_⟩
    rintro p ⟨rfl, -, hle, hdecl⟩
    obtain ⟨w, hw, -⟩ := hdecl.name
    obtain ⟨hlt, -⟩ := List.getElem?_eq_some_iff.1 hw
    have := List.drop_eq_nil_iff.1 hrest
    omega
  | case2 =>
    -- a semicolon is no name, and it ends the declaration for all later ones
    obtain ⟨hk, -⟩ := of_drop_eq_cons hrest
    refine ⟨[], .nil ?_⟩
    rintro p ⟨rfl, rfl, hle, hdecl⟩
    rcases Nat.eq_or_lt_of_le hle with rfl | hlt
    · exact absurd ((h.declares_iff ht hi hik hk).1 hdecl).1 (by decide)
    · exact hdecl.unended (mem_between_iff.2 ⟨k, hik, hlt, hk⟩)
  | case3 inInitializer depth ws _ ih =>
    obtain ⟨hk, hws⟩ := of_drop_eq_cons hrest
    have hnext : Scanned (between (lines.getD l []) i (k + 1)) inInitializer (depth + 1) :=
      h.succ hik hk (by decide) (by rw [show surplus ["("] = 1 from rfl]; omega) (by simp)
    exact exists_tabulates_skip (not_declares hk (by decide)) (ih (by omega) hws hnext)
  | case4 inInitializer depth ws _ _ ih =>
    obtain ⟨hk, hws⟩ := of_drop_eq_cons hrest
    have hnext : Scanned (between (lines.getD l []) i (k + 1)) inInitializer (depth - 1) :=
      h.succ hik hk (by decide) (by rw [show surplus [")"] = -1 from rfl]; omega) (by simp)
    exact exists_tabulates_skip (not_declares hk (by decide)) (ih (by omega) hws hnext)
  | case5 inInitializer depth w ws hsemicolon hopen hclose hcomma ih =>
    obtain ⟨rfl, rfl⟩ := hcomma
    obtain ⟨hk, hws⟩ := of_drop_eq_cons hrest
    have hnext : Scanned (between (lines.getD l []) i (k + 1)) false 0 :=
      h.succ hik hk hsemicolon (by rw [surplus_singleton hopen hclose]; rfl) (by simp)
    exact exists_tabulates_skip (not_declares hk (by decide)) (ih (by omega) hws hnext)
  | case6 inInitializer depth ws hsemicolon hopen hclose _ ih =>
    obtain ⟨hk, hws⟩ := of_drop_eq_cons hrest
    have hnext : Scanned (between (lines.getD l []) i (k + 1)) true depth :=
      h.succ hik hk hsemicolon (by rw [surplus_singleton hopen hclose]; omega) (by simp)
    exact exists_tabulates_skip (not_declares hk (by decide)) (ih (by omega) hws hnext)
  | case7 inInitializer depth w ws hsemicolon hopen hclose hcomma hequals hfree ih =>
    obtain ⟨hk, hws⟩ := of_drop_eq_cons hrest
    have hnext : Scanned (between (lines.getD l []) i (k + 1)) inInitializer depth :=
      h.succ hik hk hsemicolon (by rw [surplus_singleton hopen hclose]; omega) (by tauto)
    have hlater := ih (by omega) hws hnext
    rw [List.map_cons, List.filter_cons]
    split
    · rename_i hname
      rw [SymbolEntry.isNamed_eq_true_iff] at hname
      have hkeep := (h.declares_iff ht hi hik hk).2 ⟨hname, hfree.2, Bool.eq_false_iff.2 hfree.1⟩
      exact exists_tabulates_keep hkeep (hentry k w hk) hlater
    · rename_i hname
      rw [SymbolEntry.isNamed_eq_true_iff] at hname
      exact exists_tabulates_skip (not_declares hk hname) hlater
  | case8 inInitializer depth w ws hsemicolon hopen hclose hcomma hequals hfree ih =>
    obtain ⟨hk, hws⟩ := of_drop_eq_cons hrest
    have hnext : Scanned (between (lines.getD l []) i (k + 1)) inInitializer depth :=
      h.succ hik hk hsemicolon (by rw [surplus_singleton hopen hclose]; omega) (by tauto)
    have hskip := mt (h.declares_iff ht hi hik hk).1 fun hn =>
      hfree ⟨Bool.eq_false_iff.1 hn.2.2, hn.2.1⟩
    exact exists_tabulates_skip hskip (ih (by omega) hws hnext)

/-! ## The lines of a text -/

/-- The main function begins with the token at a position. -/
theorem beginsMain_eq_true_iff {t : String} {rest : List String} (h : ts.drop k = t :: rest) :
    beginsMain t rest = true ↔ StartsMain ts k := by
  obtain ⟨hk, hrest⟩ := of_drop_eq_cons h
  rw [beginsMain, Bool.and_eq_true, decide_eq_true_eq, decide_eq_true_eq, StartsMain, hk, ← hrest,
    List.head?_drop, Option.some.injEq]

theorem hasMain_eq_true_iff_exists : hasMain ts = true ↔ ∃ m, StartsMain ts m := by
  induction ts with
  | nil => simp [hasMain, StartsMain]
  | cons t rest ih =>
    rw [hasMain, Bool.or_eq_true, ih,
      beginsMain_eq_true_iff (show (t :: rest).drop 0 = t :: rest from rfl)]
    constructor
    · rintro (h | ⟨m, h⟩)
      · exact ⟨0, h⟩
      · exact ⟨m + 1, h⟩
    · rintro ⟨m, h⟩
      cases m with
      | zero => exact Or.inl h
      | succ m => exact Or.inr ⟨m, h⟩

/-- Where a data type stands, the main function does not begin, nor go on with its parenthesis. -/
theorem exists_startsMain_lt_iff {t : String} (ht : t ∈ datatypes) (hi : ts[i]? = some t) :
    (∃ m < i + 1, StartsMain ts m) ↔ ∃ m, m + 1 < i ∧ StartsMain ts m := by
  constructor
  · rintro ⟨m, hm, hmain, hopen⟩
    have hne : m ≠ i := by
      rintro rfl
      rw [Option.some.inj (hi.symm.trans hmain)] at ht
      exact absurd ht (by decide)
    have hne' : m + 1 ≠ i := by
      rintro rfl
      rw [Option.some.inj (hi.symm.trans hopen)] at ht
      exact absurd ht (by decide)
    exact ⟨m, by omega, hmain, hopen⟩
  · rintro ⟨m, hm, hstarts⟩
    exact ⟨m, by omega, hstarts⟩

/-- The scope of the names that a data type declares. -/
theorem entryAt_scopeName {l : Nat} {t : String} (ht : t ∈ datatypes)
    (hi : (lines.getD l [])[i]? = some t) {isLocal : Bool}
    (hlocal : isLocal = true ↔ (∃ l' < l, ∃ m, StartsMain (lines.getD l' []) m) ∨
      ∃ m < i + 1, StartsMain (lines.getD l []) m) {j : Nat} {w : String}
    (hj : (lines.getD l [])[j]? = some w) :
    EntryAt lines ⟨l, i, j⟩ ⟨w, t, scopeName isLocal⟩ where
  identifier := hj
  datatype := hi
  scope := by cases isLocal <;> simp [scopeName]
  local_iff := by
    rw [exists_startsMain_lt_iff ht hi] at hlocal
    rw [Site.IsLocal, ← hlocal]
    cases isLocal <;> simp [scopeName]

/-- **The declarations of a line** from a position on. -/
theorem exists_tabulates_lineCandidates {l : Nat} {isLocal : Bool} {rest : List String}
    (hrest : (lines.getD l []).drop k = rest)
    (hlocal : isLocal = true ↔ (∃ l' < l, ∃ m, StartsMain (lines.getD l' []) m) ∨
      ∃ m < k, StartsMain (lines.getD l []) m) :
    ∃ sites, Tabulates lines (fun p => p.line = l ∧ k ≤ p.type ∧ p.Declared lines) sites
      ((lineCandidates isLocal rest).filter SymbolEntry.isNamed) := by
  induction rest generalizing k isLocal with
  | nil =>
    refine ⟨[], .nil ?_⟩
    rintro p ⟨rfl, hle, hdecl⟩
    obtain ⟨t, -, ht⟩ := hdecl.type
    obtain ⟨hlt, -⟩ := List.getElem?_eq_some_iff.1 ht
    have := List.drop_eq_nil_iff.1 hrest
    omega
  | cons t rest ih =>
    obtain ⟨hk, hws⟩ := of_drop_eq_cons hrest
    have hnext : (isLocal || beginsMain t rest) = true ↔
        (∃ l' < l, ∃ m, StartsMain (lines.getD l' []) m) ∨
          ∃ m < k + 1, StartsMain (lines.getD l []) m := by
      rw [Bool.or_eq_true, hlocal, beginsMain_eq_true_iff hrest, or_assoc, Nat.exists_lt_succ_right]
    -- the names behind the token, if it is a data type
    obtain ⟨ps, hps⟩ : ∃ sites, Tabulates lines
        (fun p => p.line = l ∧ p.type = k ∧ p.Declared lines) sites
        ((if t ∈ datatypes then (declaredAfter false 0 rest).map fun name =>
            (⟨name, t, scopeName (isLocal || beginsMain t rest)⟩ : SymbolEntry)
          else []).filter SymbolEntry.isNamed) := by
      split
      · rename_i ht
        obtain ⟨sites, h⟩ := exists_tabulates_declaredAfter ht hk
          (fun j w => entryAt_scopeName ht hk hnext) (Nat.lt_succ_self k) hws
          (between_self_succ ▸ Scanned.nil)
        refine ⟨sites, h.congr fun p => and_congr_right fun _ => and_congr_right fun htype => ?_⟩
        rw [and_iff_right_of_imp]
        exact fun hdecl => htype ▸ hdecl.behind
      · rename_i ht
        refine ⟨[], .nil ?_⟩
        rintro p ⟨rfl, rfl, hdecl⟩
        obtain ⟨t', ht', hk'⟩ := hdecl.type
        exact ht (Option.some.inj (hk'.symm.trans hk) ▸ ht')
    obtain ⟨qs, hqs⟩ := ih hws hnext
    rw [lineCandidates, List.filter_append]
    refine ⟨ps ++ qs, hps.append hqs ?_ ?_⟩
    · rintro p q ⟨hp, hpk, -⟩ ⟨hq, hqk, -⟩
      exact Or.inr ⟨hp.trans hq.symm, Or.inl (by omega)⟩
    · intro p
      rw [← and_or_left, ← or_and_right]
      refine and_congr_right fun _ => and_congr_left fun _ => ?_
      omega

/-- **The declarations of consecutive lines.** -/
theorem exists_tabulates_candidates {n : Nat} {isLocal : Bool} {ls : List (List String)}
    (hls : lines.drop n = ls)
    (hlocal : isLocal = true ↔ ∃ l < n, ∃ m, StartsMain (lines.getD l []) m) :
    ∃ sites, Tabulates lines (fun p => n ≤ p.line ∧ p.Declared lines) sites
      ((candidates isLocal ls).filter SymbolEntry.isNamed) := by
  induction ls generalizing n isLocal with
  | nil =>
    refine ⟨[], .nil ?_⟩
    rintro p ⟨hle, hdecl⟩
    obtain ⟨t, -, ht⟩ := hdecl.type
    have hlen := List.drop_eq_nil_iff.1 hls
    rw [List.getD_eq_default _ _ (by omega)] at ht
    cases ht
  | cons ts ls ih =>
    have hn : lines.getD n [] = ts := by
      rw [List.getD_eq_getElem?_getD, ← List.head?_drop, hls]
      rfl
    have hrest : lines.drop (n + 1) = ls := by
      rw [← List.tail_drop, hls]
      rfl
    obtain ⟨ps, hps⟩ := exists_tabulates_lineCandidates (k := 0) (l := n) hn (by simpa using hlocal)
    have hnext : (isLocal || hasMain ts) = true ↔
        ∃ l < n + 1, ∃ m, StartsMain (lines.getD l []) m := by
      rw [Bool.or_eq_true, hlocal, hasMain_eq_true_iff_exists, Nat.exists_lt_succ_right, hn]
    obtain ⟨qs, hqs⟩ := ih hrest hnext
    rw [candidates, List.filter_append]
    refine ⟨ps ++ qs, hps.append hqs ?_ ?_⟩
    · rintro p q ⟨hp, -⟩ ⟨hq, -⟩
      exact Or.inl (by omega)
    · intro p
      rw [← and_assoc, ← or_and_right]
      refine and_congr_left fun _ => ?_
      omega

/-! ## The symbol table -/

/-- **The names that a text may declare** are tabulated without regard to fragments. -/
theorem exists_tabulates (code : String) :
    ∃ sites, Tabulates (tokenLines code) (Site.Declared (tokenLines code)) sites
      ((candidates false (tokenLines code)).filter SymbolEntry.isNamed) := by
  obtain ⟨sites, h⟩ := exists_tabulates_candidates (List.drop_zero (l := tokenLines code))
    (by simp : false = true ↔ ∃ l < 0, ∃ m, StartsMain ((tokenLines code).getD l []) m)
  exact ⟨sites, h.congr fun p => by simp⟩

/-- A closing parenthesis that closes nothing does not hide the comma behind the next pair. -/
example : (candidates false (tokenLines "int x = ) f(a, b), y;")).filter SymbolEntry.isNamed
    = [⟨"x", "int", "Global"⟩, ⟨"y", "int", "Global"⟩] := by
  decide +kernel

/-- The main function has begun at the later of two sites, if it has at the earlier one. -/
theorem Site.Before.isLocal {p q : Site} (h : p.Before q) (hp : p.IsLocal lines) :
    q.IsLocal lines := by
  rcases h with hline | ⟨hline, h⟩
  · rcases hp with ⟨l, hl, hmain⟩ | ⟨m, -, hmain⟩
    · exact Or.inl ⟨l, by omega, hmain⟩
    · exact Or.inl ⟨p.line, hline, m, hmain⟩
  · rcases hp with ⟨l, hl, hmain⟩ | ⟨m, hm, hmain⟩
    · exact Or.inl ⟨l, by omega, hmain⟩
    · exact Or.inr ⟨m, by omega, hline ▸ hmain⟩

/-- Behind a local entry there are only local ones. -/
theorem Tabulates.pairwise_scope {D : Site → Prop} {sites : List Site}
    {entries : List SymbolEntry} (h : Tabulates lines D sites entries) :
    entries.Pairwise fun e f => e.scope = "Local" → f.scope = "Local" := by
  rw [List.pairwise_iff_getElem]
  intro m n hm hn hmn
  have hlength := h.entryAt.length_eq
  have hbefore := List.pairwise_iff_getElem.1 h.ordered m n (by omega) (by omega) hmn
  have he := h.entryAt.get (by omega) hm
  have hf := h.entryAt.get (by omega) hn
  exact fun hlocal => hf.local_iff.2 (hbefore.isLocal (he.local_iff.1 hlocal))

end Source

namespace Catalogue

open Source

/-- The entries that the fragment of identifiers keeps are those with a name of identifiers. -/
theorem IsStandard.keepAccepted_eq {A : Automaton} {c c' : Counter}
    (h : IsStandard Category.identifier A c c') (es : List SymbolEntry) :
    keepAccepted A es = .ok (es.filter SymbolEntry.isNamed) := by
  induction es with
  | nil => rfl
  | cons e es ih =>
    have haccepts : A.accepts e.identifier = .ok e.isNamed := by
      rw [h.accepts_eq, SymbolEntry.isNamed]
      simp only [Grammar.belongs_identifier_iff]
    rw [keepAccepted, haccepts, ih, List.filter_cons]
    rfl

/-- **The standard fragments**, built from any counter, make of a text the table of its
candidates. -/
theorem exists_symbolTable_eq (code : String) (c : Counter) :
    ∃ fragments c', standard.buildAll Category.all c = (.ok fragments, c') ∧
      (∀ word, classify word fragments = .ok (Grammar.category? word)) ∧
      symbolTable code fragments
        = .ok ((candidates false (tokenLines code)).filter SymbolEntry.isNamed) := by
  obtain ⟨fragments, c', hbuilt, hdrawn, hkeys⟩ :=
    exists_buildOnto_eq (fun _ => id) (Drawn.empty c) (by decide)
  refine ⟨fragments, c', hbuilt, Recognizer.classify_eq_category? hdrawn hkeys, ?_⟩
  obtain ⟨A, hA⟩ := OrderedMap.mem_keys_iff.1
    (show Category.identifier ∈ fragments.keys by rw [hkeys]; decide)
  obtain ⟨_, _, hstd, -⟩ := hdrawn.isStandard _ A hA
  rw [symbolTable, hA]
  simp only [hstd.keepAccepted_eq]
  rfl

/-- **The symbol table is what can be read off the positions of tokens.**  With the standard
fragments every text has a table, and its entries are, in the order of their sites, those of the
sites at which a data type declares a name; so all global entries come before the local ones. -/
theorem symbolTable_tabulates (code : String) (c : Counter) :
    ∃ fragments c' sites entries,
      standard.buildAll Category.all c = (.ok fragments, c') ∧
      symbolTable code fragments = .ok entries ∧
      Tabulates (tokenLines code) (Site.Declared (tokenLines code)) sites entries ∧
      entries.Pairwise fun e f => e.scope = "Local" → f.scope = "Local" := by
  obtain ⟨fragments, c', hbuilt, -, htable⟩ := exists_symbolTable_eq code c
  obtain ⟨sites, h⟩ := exists_tabulates code
  exact ⟨fragments, c', sites, _, hbuilt, htable, h, h.pairwise_scope⟩

end Catalogue

end LexAutomata
