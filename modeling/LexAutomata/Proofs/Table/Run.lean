/-
# Runs of a table

What reading a sequence of symbols from a state ends in: nothing, a final state or
another one (`outcome?`).  Where all targets have rows, no run leaves the rows
(`mem_states_of_run?`); the check before minimizing asks for this and for a row of the
start state (`checkClosed_eq_ok_iff`).

Words are read as sequences of one-character symbols, and every such sequence is read
from a word (`exists_spell_eq`).  A table whose symbols are characters reads no other
sequences (`OneCharacter.length_eq_one`), so that words tell as much as sequences do.
-/
import LexAutomata.Table.Minimal
import LexAutomata.Proofs.OrderedMap

namespace LexAutomata

/-- Sequences of one-character symbols are spelled by words. -/
theorem exists_spell_eq {w : List String} (hw : ∀ s ∈ w, s.length = 1) :
    ∃ word, spell word = w := by
  induction w with
  | nil => exact ⟨"", rfl⟩
  | cons s w ih =>
    obtain ⟨word, rfl⟩ := ih fun t ht => hw t (List.mem_cons_of_mem _ ht)
    have hs : s.toList.length = 1 := hw s List.mem_cons_self
    obtain ⟨c, hc⟩ := List.length_eq_one_iff.1 hs
    refine ⟨String.ofList (c :: word.toList), ?_⟩
    rw [spell, String.toList_ofList, List.map_cons, ← hc, String.ofList_toList]
    rfl

namespace Table

variable {T : Table}

/-! ## Numbered lists -/

/-- An entry of a list is numbered with its place. -/
theorem mem_numbered {α : Type} {l : List α} {q : Int} {a : α} :
    (q, a) ∈ numbered l ↔ ∃ n : Nat, q = n ∧ l[n]? = some a := by
  rw [numbered, List.mem_map]
  constructor
  · rintro ⟨⟨b, n⟩, h, heq⟩
    cases heq
    exact ⟨n, rfl, List.mk_mem_zipIdx_iff_getElem?.1 h⟩
  · rintro ⟨n, rfl, h⟩
    exact ⟨(a, n), List.mk_mem_zipIdx_iff_getElem?.2 h, rfl⟩

/-- The places are counted up to the length. -/
theorem map_fst_numbered {α : Type} (l : List α) :
    (numbered l).map Prod.fst = (List.range' 0 l.length).map fun n : Nat => (n : Int) := by
  rw [← List.zipIdx_map_snd, numbered, List.map_map, List.map_map]
  rfl

/-- Without their numbers the entries are those of the list. -/
theorem map_snd_numbered {α : Type} (l : List α) : (numbered l).map Prod.snd = l := by
  rw [numbered, List.map_map]
  exact List.zipIdx_map_fst 0 l

/-- An element that is added at the end is numbered with the length of the list. -/
theorem numbered_concat {α : Type} (l : List α) (a : α) :
    numbered (l ++ [a]) = numbered l ++ [((l.length : Int), a)] := by
  simp [numbered, List.zipIdx_append]

/-- The numbers ascend. -/
theorem pairwise_map_fst_numbered {α : Type} (l : List α) :
    ((numbered l).map Prod.fst).Pairwise (· < ·) := by
  rw [map_fst_numbered, List.pairwise_map]
  exact List.Pairwise.imp Int.ofNat_lt.2 List.pairwise_lt_range'

theorem nodup_map_fst_numbered {α : Type} (l : List α) : ((numbered l).map Prod.fst).Nodup :=
  (pairwise_map_fst_numbered l).imp Int.ne_of_lt

/-- Values that are entered at the places of a list have these places as keys. -/
theorem keys_ofList_numbered {α β : Type} (l : List α) (f : α → β) :
    (OrderedMap.ofList ((numbered l).map fun e => (e.1, f e.2))).keys
      = (numbered l).map Prod.fst := by
  have hkeys : ((numbered l).map fun e => (e.1, f e.2)).map Prod.fst
      = (numbered l).map Prod.fst := by
    rw [List.map_map]
    rfl
  rw [OrderedMap.keys_ofList_of_nodup, hkeys]
  rw [hkeys]
  exact nodup_map_fst_numbered l

/-- What is entered at the place of an entry is read there. -/
theorem get?_ofList_numbered {α β : Type} {l : List α} (f : α → β) {n : Nat} {a : α}
    (h : l[n]? = some a) :
    (OrderedMap.ofList ((numbered l).map fun e => (e.1, f e.2))).get? (n : Int)
      = some (f a) := by
  apply (OrderedMap.get?_ofList_eq_some_iff ?_).2
  · exact List.mem_map.2 ⟨((n : Int), a), mem_numbered.2 ⟨n, rfl, h⟩, rfl⟩
  · rw [List.map_map]
    exact nodup_map_fst_numbered l

/-! ## Rows and transitions -/

theorem mem_states_iff {q : Int} : q ∈ T.states ↔ q ∈ T.rows.keys :=
  StateSet.mem_ofList

/-- States that are the places of a list are listed in its order. -/
theorem toList_states_eq {α : Type} {l : List α} (h : T.rows.keys = (numbered l).map Prod.fst) :
    T.states.toList = (numbered l).map Prod.fst := by
  apply StateSet.toList_eq_of_mem_iff (pairwise_map_fst_numbered l)
  intro q
  rw [mem_states_iff, h]

/-- Only states have targets. -/
theorem mem_states_of_step? {q r : Int} {s : String} (h : T.step? q s = some r) :
    q ∈ T.states := by
  rw [mem_states_iff, OrderedMap.mem_keys_iff]
  cases hrow : T.rows.get? q with
  | none => rw [step?, row, hrow] at h; simp at h
  | some row => exact ⟨row, rfl⟩

/-- The entries of a table are its states with their rows. -/
theorem mem_entries_rows_iff {q : Int} {row : OrderedMap String Int} :
    (q, row) ∈ T.rows.entries ↔ q ∈ T.states ∧ T.row q = row := by
  rw [OrderedMap.mem_entries_iff, mem_states_iff, OrderedMap.mem_keys_iff, Table.row]
  constructor
  · intro h
    rw [h]
    exact ⟨⟨row, rfl⟩, rfl⟩
  · rintro ⟨⟨row', h⟩, hrow⟩
    rw [h, Option.getD_some] at hrow
    rw [h, hrow]

theorem get?_rows {q : Int} (hq : q ∈ T.states) : T.rows.get? q = some (T.row q) :=
  OrderedMap.mem_entries_iff.1 (mem_entries_rows_iff.2 ⟨hq, rfl⟩)

/-- The transitions are the steps that the table makes. -/
theorem mem_transitions_iff {q r : Int} {s : String} :
    (q, s, r) ∈ T.transitions ↔ T.step? q s = some r := by
  rw [transitions, List.mem_flatMap]
  constructor
  · rintro ⟨⟨p, row⟩, hrow, h⟩
    rw [List.mem_map] at h
    obtain ⟨⟨t, r'⟩, he, h⟩ := h
    cases h
    rw [step?, Table.row, OrderedMap.mem_entries_iff.1 hrow]
    exact OrderedMap.mem_entries_iff.1 he
  · intro h
    rw [step?, row] at h
    cases hrow : T.rows.get? q with
    | none => rw [hrow] at h; simp at h
    | some row =>
      rw [hrow] at h
      exact ⟨(q, row), OrderedMap.mem_entries_iff.2 hrow,
        List.mem_map.2 ⟨(s, r), OrderedMap.mem_entries_iff.2 h, rfl⟩⟩

/-- Selecting transitions by their sources selects rows. -/
theorem filter_transitions (T : Table) (p : Int → Bool) :
    (T.transitions.filter fun t => p t.1)
      = (T.rows.entries.filter fun row => p row.1).flatMap fun row =>
          row.2.entries.map fun e => (row.1, e.1, e.2) := by
  rw [transitions]
  induction T.rows.entries with
  | nil => rfl
  | cons row rows ih =>
    have hsource : ∀ t ∈ row.2.entries.map fun e => (row.1, e.1, e.2), p t.1 = p row.1 := by
      intro t ht
      obtain ⟨e, -, rfl⟩ := List.mem_map.1 ht
      rfl
    rw [List.flatMap_cons, List.filter_append, ih, List.filter_cons]
    by_cases hp : p row.1 = true
    · rw [if_pos hp, List.flatMap_cons, List.filter_eq_self.2 fun t ht => (hsource t ht).trans hp]
    · rw [if_neg hp, List.filter_eq_nil_iff.2 fun t ht => hsource t ht ▸ hp, List.nil_append]

/-- The entries of a row are those of the transitions of its state. -/
theorem map_snd_filter_transitions {q : Int} (hq : q ∈ T.states) :
    (T.transitions.filter fun t => t.1 = q).map Prod.snd = (T.row q).entries := by
  have hrow : (T.rows.entries.filter fun row => row.1 = q) = [(q, T.row q)] := by
    have hnodup : T.rows.entries.Nodup := List.Pairwise.of_map _ (fun _ _ => mt (congrArg _))
      T.rows.nodup
    apply List.perm_singleton.1
    apply (List.perm_ext_iff_of_nodup (hnodup.filter _) (List.pairwise_singleton _ _)).2
    rintro ⟨p, row⟩
    rw [List.mem_filter, mem_entries_rows_iff, decide_eq_true_eq, List.mem_singleton]
    constructor
    · rintro ⟨⟨-, rfl⟩, rfl⟩
      rfl
    · rintro h
      cases h
      exact ⟨⟨hq, rfl⟩, rfl⟩
  rw [T.filter_transitions fun p => p = q, hrow, List.flatMap_singleton, List.map_map]
  exact List.map_id _

/-! ## Closed tables -/

/-- Every target has a row. -/
def TargetsHaveRows (T : Table) : Prop :=
  ∀ q s r, T.step? q s = some r → r ∈ T.states

/-- The start state and every target have a row. -/
structure Closed (T : Table) : Prop where
  /-- The start state has a row. -/
  start : T.start ∈ T.states
  /-- Every target has a row. -/
  targets : T.TargetsHaveRows

/-- The check accepts the closed tables. -/
theorem checkClosed_eq_ok_iff : T.checkClosed = .ok () ↔ T.Closed := by
  have hrow : ∀ q : Int, T.rows.contains q = true ↔ q ∈ T.states := by
    intro q
    rw [OrderedMap.contains_iff, mem_states_iff]
  rw [checkClosed]
  cases hfind : T.transitions.find? fun t => !T.rows.contains t.2.2 with
  | some t =>
    obtain ⟨q, s, r⟩ := t
    have hmem := List.mem_of_find?_eq_some hfind
    have hstray := List.find?_some hfind
    simp only [Bool.not_eq_true', ← Bool.not_eq_true, hrow] at hstray
    simp only [reduceCtorEq, false_iff]
    intro hT
    exact hstray (hT.targets q s r (mem_transitions_iff.1 hmem))
  | none =>
    -- no target is missing, and what remains to be checked is the start state
    rw [List.find?_eq_none] at hfind
    have htargets : T.TargetsHaveRows := by
      intro q s r h
      have h := hfind (q, s, r) (mem_transitions_iff.2 h)
      simpa [hrow] using h
    simp only [hrow]
    split
    · rename_i h
      exact ⟨fun _ => ⟨h, htargets⟩, fun _ => rfl⟩
    · rename_i h
      simp only [reduceCtorEq, false_iff]
      exact fun hT => h hT.start

/-! ## Observations -/

/-- Whether reading the symbols from a state ends in a final state, if the run is defined. -/
def outcome? (T : Table) (q : Int) (w : List String) : Option Bool := (T.run? q w).map T.isFinal

/-- Are the symbols accepted from a state? -/
def acceptsFrom (T : Table) (q : Int) (w : List String) : Bool := (T.outcome? q w).getD false

theorem acceptsSymbols_eq_acceptsFrom (w : List String) :
    T.acceptsSymbols w = T.acceptsFrom T.start w := by
  rw [acceptsSymbols, acceptsFrom, outcome?]
  cases T.run? T.start w <;> rfl

/-- A run takes the first symbol and goes on from its target. -/
theorem run?_cons (q : Int) (s : String) (w : List String) :
    T.run? q (s :: w) = (T.step? q s).bind fun r => T.run? r w := by
  rw [run?]
  cases T.step? q s <;> rfl

/-- A run for one word and then another is a run for both. -/
theorem run?_append (q : Int) (v w : List String) :
    T.run? q (v ++ w) = (T.run? q v).bind fun r => T.run? r w := by
  induction v generalizing q with
  | nil => rfl
  | cons s v ih =>
    rw [List.cons_append, run?_cons, run?_cons]
    cases T.step? q s with
    | none => rfl
    | some r => exact ih r

/-- The outcome of a word is that of its rest at the target of its first symbol. -/
theorem outcome?_cons (q : Int) (s : String) (w : List String) :
    T.outcome? q (s :: w) = (T.step? q s).bind fun r => T.outcome? r w := by
  rw [outcome?, run?_cons]
  cases T.step? q s <;> rfl

/-- What follows a run is accepted as from the state that the run ends in. -/
theorem acceptsFrom_append {q r : Int} {v : List String} (h : T.run? q v = some r)
    (w : List String) : T.acceptsFrom q (v ++ w) = T.acceptsFrom r w := by
  rw [acceptsFrom, outcome?, run?_append, h]
  rfl

/-- A word is accepted when its run ends in a final state. -/
theorem acceptsFrom_eq_true_iff {q : Int} {w : List String} :
    T.acceptsFrom q w = true ↔ ∃ r, T.run? q w = some r ∧ T.isFinal r = true := by
  rw [acceptsFrom, outcome?]
  cases T.run? q w <;> simp

/-- Where every target has a row, no run leaves the rows. -/
theorem mem_states_of_run? (hT : T.TargetsHaveRows) {q r : Int} {w : List String}
    (hq : q ∈ T.states) (h : T.run? q w = some r) : r ∈ T.states := by
  induction w generalizing q with
  | nil =>
    rw [run?, Option.some.injEq] at h
    exact h ▸ hq
  | cons s w ih =>
    rw [run?_cons, Option.bind_eq_some_iff] at h
    obtain ⟨p, hp, h⟩ := h
    exact ih (hT _ _ _ hp) h

/-! ## Trim tables -/

/-- Every state is reached from the start state. -/
def Accessible (T : Table) : Prop := ∀ q ∈ T.states, ∃ w, T.run? T.start w = some q

/-- From every state a final state is reached. -/
def Coaccessible (T : Table) : Prop := ∀ q ∈ T.states, ∃ w, T.acceptsFrom q w = true

/-- Every symbol of a transition is one character. -/
def OneCharacter (T : Table) : Prop := ∀ t ∈ T.transitions, t.2.1.length = 1

/-- What such a table reads are characters. -/
theorem OneCharacter.length_eq_one (hT : T.OneCharacter) {q r : Int} {w : List String}
    (h : T.run? q w = some r) : ∀ s ∈ w, s.length = 1 := by
  induction w generalizing q with
  | nil => simp
  | cons s w ih =>
    rw [run?_cons, Option.bind_eq_some_iff] at h
    obtain ⟨p, hp, h⟩ := h
    intro t ht
    rcases List.mem_cons.1 ht with rfl | ht
    · exact hT _ (mem_transitions_iff.2 hp)
    · exact ih h t ht

/-- The symbols of accepted words are single characters. -/
theorem OneCharacter.length_eq_one_of_acceptsFrom (hT : T.OneCharacter) {q : Int}
    {w : List String} (h : T.acceptsFrom q w = true) : ∀ s ∈ w, s.length = 1 := by
  obtain ⟨r, hr, -⟩ := acceptsFrom_eq_true_iff.1 h
  exact hT.length_eq_one hr

/-- States of such tables that accept the same sequences of characters accept the same. -/
theorem OneCharacter.acceptsFrom_eq {E : Table} (hT : T.OneCharacter) (hE : E.OneCharacter)
    {p q : Int}
    (h : ∀ w : List String, (∀ s ∈ w, s.length = 1) → T.acceptsFrom p w = E.acceptsFrom q w) :
    T.acceptsFrom p = E.acceptsFrom q := by
  funext w
  by_cases hw : ∀ s ∈ w, s.length = 1
  · exact h w hw
  · -- neither table accepts symbols that are not characters
    have hp : T.acceptsFrom p w = false :=
      Bool.eq_false_iff.2 fun hp => hw (hT.length_eq_one_of_acceptsFrom hp)
    have hq : E.acceptsFrom q w = false :=
      Bool.eq_false_iff.2 fun hq => hw (hE.length_eq_one_of_acceptsFrom hq)
    rw [hp, hq]

/-- Where final states are within reach of all states, a run is defined exactly when some
continuation of it is accepted. -/
theorem isSome_run?_iff (hT : T.TargetsHaveRows) (hco : T.Coaccessible) {q : Int}
    (hq : q ∈ T.states) (w : List String) :
    (T.run? q w).isSome ↔ ∃ v, T.acceptsFrom q (w ++ v) = true := by
  constructor
  · intro h
    obtain ⟨r, hr⟩ := Option.isSome_iff_exists.1 h
    obtain ⟨v, hv⟩ := hco r (mem_states_of_run? hT hq hr)
    exact ⟨v, by rw [acceptsFrom_append hr]; exact hv⟩
  · rintro ⟨v, hv⟩
    obtain ⟨r, hr, -⟩ := acceptsFrom_eq_true_iff.1 hv
    rw [run?_append] at hr
    cases h : T.run? q w with
    | none => rw [h] at hr; simp at hr
    | some p => rfl

/-- Where final states are within reach of all states, states that accept the same have the
same outcomes. -/
theorem outcome?_eq_of_acceptsFrom_eq (hT : T.TargetsHaveRows) (hco : T.Coaccessible)
    {p q : Int} (hp : p ∈ T.states) (hq : q ∈ T.states) (h : T.acceptsFrom p = T.acceptsFrom q) :
    T.outcome? p = T.outcome? q := by
  funext w
  have hw : T.acceptsFrom p w = T.acceptsFrom q w := congrFun h w
  -- a run that stops and one that ends in no final state differ in what can follow
  have hdef : (T.run? p w).isSome ↔ (T.run? q w).isSome := by
    rw [isSome_run?_iff hT hco hp, isSome_run?_iff hT hco hq, h]
  rw [acceptsFrom, acceptsFrom] at hw
  rw [outcome?, outcome?] at hw ⊢
  cases hp' : T.run? p w <;> cases hq' : T.run? q w
  · rfl
  · simp [hp', hq'] at hdef
  · simp [hp', hq'] at hdef
  · rw [hp', hq'] at hw
    exact congrArg some hw

end Table

end LexAutomata
