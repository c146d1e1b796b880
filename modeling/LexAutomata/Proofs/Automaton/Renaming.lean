/-
# Renamed states

What an automaton does is independent of the names of its states.  Where a map keeps the
states that an automaton mentions apart, the renamed automaton has the same entries under
the new names (`targets_rename`), so its paths are the renamed ones (`leads_rename_iff`),
and so are the sets that it goes through (`closure_rename`, `successor_rename`).  A map
that is injective everywhere commutes with every step of construction besides
(`rename_connect`, `rename_unionFrom`).
-/
import Mathlib.Data.Set.Function
import LexAutomata.Pattern.Basic
import LexAutomata.Proofs.Automaton.Merge

namespace LexAutomata

/-! ## Sets -/

namespace StateSet

variable {f : Int → Int} {S T : StateSet}

/-- The images of the members of a set. -/
def image (f : Int → Int) (S : StateSet) : StateSet := .ofList (S.toList.map f)

/-- A state is an image when some member is sent to it. -/
theorem mem_image {r : Int} : r ∈ S.image f ↔ ∃ q ∈ S, f q = r := by
  rw [image, mem_ofList, List.mem_map]
  rfl

/-- The image of a member is a member of the image. -/
theorem mem_image_of_mem (f : Int → Int) {q : Int} (hq : q ∈ S) : f q ∈ S.image f :=
  mem_image.2 ⟨q, hq, rfl⟩

@[simp] theorem image_singleton (f : Int → Int) (q : Int) :
    (singleton q).image f = singleton (f q) := rfl

/-- A member may be inserted before or after taking images. -/
@[simp] theorem image_insert (f : Int → Int) (q : Int) (S : StateSet) :
    (S.insert q).image f = (S.image f).insert (f q) := by
  apply ext
  intro r
  simp only [mem_image, mem_insert, or_and_right, exists_or, exists_eq_left, eq_comm (a := f q)]

/-- The image of a union is the union of the images. -/
@[simp] theorem image_union (f : Int → Int) (S T : StateSet) :
    (S ∪ T).image f = S.image f ∪ T.image f := by
  apply ext
  intro r
  simp only [mem_image, mem_union, or_and_right, exists_or]

/-- A map that is injective on the states adds no member to those of a set. -/
theorem mem_image_iff {s : Set Int} (hf : Set.InjOn f s) (hS : ∀ q ∈ S, q ∈ s) {q : Int}
    (hq : q ∈ s) : f q ∈ S.image f ↔ q ∈ S := by
  rw [mem_image]
  constructor
  · rintro ⟨p, hp, heq⟩
    rwa [← hf (hS p hp) hq heq]
  · exact fun h => ⟨q, h, rfl⟩

/-- Sets of states that are told apart by a map are told apart by their images. -/
theorem image_inj {s : Set Int} (hf : Set.InjOn f s) (hS : ∀ q ∈ S, q ∈ s) (hT : ∀ q ∈ T, q ∈ s)
    (h : S.image f = T.image f) : S = T := by
  apply ext
  intro q
  constructor
  · exact fun hq => (mem_image_iff hf hT (hS q hq)).1 (h ▸ mem_image_of_mem f hq)
  · exact fun hq => (mem_image_iff hf hS (hT q hq)).1 (h ▸ mem_image_of_mem f hq)

/-- Sets meet when their images do. -/
theorem meets_image {s : Set Int} (hf : Set.InjOn f s) (hS : ∀ q ∈ S, q ∈ s)
    (hT : ∀ q ∈ T, q ∈ s) : (S.image f).meets (T.image f) = S.meets T := by
  rw [Bool.eq_iff_iff, meets_eq_true_iff, meets_eq_true_iff]
  constructor
  · rintro ⟨r, hr, hrT⟩
    obtain ⟨q, hq, rfl⟩ := mem_image.1 hr
    exact ⟨q, hq, (mem_image_iff hf hT (hS q hq)).1 hrT⟩
  · rintro ⟨q, hq, hqT⟩
    exact ⟨f q, mem_image_of_mem f hq, mem_image_of_mem f hqT⟩

end StateSet

/-! ## Maps -/

namespace OrderedMap

variable {α β γ δ : Type} {f : α → γ} {g : β → δ}

/-- Keys that are told apart by a map stay without repetition. -/
theorem nodup_map_fst_of_injOn {m : OrderedMap α β} {s : Set α} (hf : Set.InjOn f s)
    (hm : ∀ k ∈ m.keys, k ∈ s) : ((m.entries.map fun e => (f e.1, g e.2)).map Prod.fst).Nodup := by
  rw [List.map_map]
  refine List.pairwise_map.2 ((List.pairwise_map.1 m.nodup).imp_of_mem ?_)
  intro e e' he he' hne heq
  exact hne (hf (hm _ (List.mem_map_of_mem he)) (hm _ (List.mem_map_of_mem he')) heq)

variable [DecidableEq γ]

/-- The map with other keys and values. -/
def mapEntries (f : α → γ) (g : β → δ) (m : OrderedMap α β) : OrderedMap γ δ :=
  .ofList (m.entries.map fun e => (f e.1, g e.2))

/-- A map with other keys and values has the entries, each with its key and value exchanged. -/
theorem entries_mapEntries (hf : Function.Injective f) (m : OrderedMap α β) :
    (m.mapEntries f g).entries = m.entries.map fun e => (f e.1, g e.2) :=
  entries_ofList (nodup_map_fst_of_injOn hf.injOn fun k _ => Set.mem_univ k)

variable [DecidableEq α]

/-- What is read at another key is the other value. -/
theorem get?_mapEntries {m : OrderedMap α β} {s : Set α} (hf : Set.InjOn f s)
    (hm : ∀ k ∈ m.keys, k ∈ s) {k : α} (hk : k ∈ s) :
    (m.mapEntries f g).get? (f k) = (m.get? k).map g := by
  cases hv : m.get? k with
  | some v =>
    refine (get?_ofList_eq_some_iff (nodup_map_fst_of_injOn hf hm)).2 ?_
    exact List.mem_map.2 ⟨(k, v), mem_entries_iff.2 hv, rfl⟩
  | none =>
    apply get?_ofList_eq_none
    rw [List.map_map]
    intro hmem
    obtain ⟨⟨k', v⟩, he, heq⟩ := List.mem_map.1 hmem
    have hk' : k' ∈ m.keys := List.mem_map_of_mem (f := Prod.fst) he
    obtain rfl : k' = k := hf (hm k' hk') hk heq
    exact get?_eq_none_iff.1 hv hk'

/-- Altering a list of entries before or after the change of keys and values is the same. -/
theorem map_alterEntries (hf : Function.Injective f) {u : Option β → β} {u' : Option δ → δ}
    (hu : ∀ o, g (u o) = u' (o.map g)) (k : α) (es : List (α × β)) :
    (alterEntries k u es).map (fun e => (f e.1, g e.2))
      = alterEntries (f k) u' (es.map fun e => (f e.1, g e.2)) := by
  induction es with
  | nil =>
    rw [alterEntries, List.map_cons, hu]
    rfl
  | cons e es ih =>
    obtain ⟨k', v⟩ := e
    rw [alterEntries, List.map_cons, alterEntries]
    by_cases hk : k' = k
    · rw [if_pos hk, if_pos (congrArg f hk), List.map_cons, hu]
      rfl
    · rw [if_neg hk, if_neg fun h => hk (hf h), List.map_cons, ih]

/-- Altering a value before or after the change of keys and values is the same. -/
theorem mapEntries_alter (hf : Function.Injective f) {u : Option β → β} {u' : Option δ → δ}
    (hu : ∀ o, g (u o) = u' (o.map g)) (m : OrderedMap α β) (k : α) :
    (m.alter k u).mapEntries f g = (m.mapEntries f g).alter (f k) u' := by
  apply ext_entries
  rw [entries_mapEntries hf, alter, map_alterEntries hf hu, ← entries_mapEntries hf]
  rfl

/-- Altering a value before or after the change of all values is the same. -/
theorem mapValues_alter {g : β → δ} {u : Option β → β} {u' : Option δ → δ}
    (hu : ∀ o, g (u o) = u' (o.map g)) (m : OrderedMap α β) (k : α) :
    (m.alter k u).mapValues (fun _ => g) = (m.mapValues fun _ => g).alter k u' :=
  ext_entries (map_alterEntries (f := id) Function.injective_id hu k m.entries)

/-- Inserting a value before or after the change of all values is the same. -/
theorem mapValues_insert (g : β → δ) (m : OrderedMap α β) (k : α) (v : β) :
    (m.insert k v).mapValues (fun _ => g) = (m.mapValues fun _ => g).insert k (g v) :=
  @mapValues_alter α β δ _ g (fun _ => v) (fun _ => g v) (fun _ => rfl) m k

end OrderedMap

/-! ## Automata -/

namespace Automaton

variable {A B : Automaton} {f : Int → Int}

/-- The entries with other names for their states. -/
def renameRows (f : Int → Int) (rows : OrderedMap Int (OrderedMap Label StateSet)) :
    OrderedMap Int (OrderedMap Label StateSet) :=
  rows.mapEntries f fun row => row.mapValues fun _ T => T.image f

/-- The automaton with other names for its states. -/
def rename (f : Int → Int) (A : Automaton) : Automaton :=
  { A with
    states := A.states.image f
    start := A.start.map f
    finals := A.finals.image f
    rows := renameRows f A.rows }

/-- The states of an automaton and whatever else has a row. -/
def mentioned (A : Automaton) : Set Int := {q | q ∈ A.states ∨ q ∈ A.rows.keys}

theorem mem_mentioned_of_mem {q : Int} (hq : q ∈ A.states) : q ∈ A.mentioned := Or.inl hq

/-- The row of a renamed state is the row of the state with its targets renamed. -/
theorem row_rename (hf : Set.InjOn f A.mentioned) {p : Int} (hp : p ∈ A.mentioned) :
    (A.rename f).row (f p) = (A.row p).mapValues fun _ T => T.image f := by
  rw [row, rename, renameRows, OrderedMap.get?_mapEntries hf (fun _ => Or.inr) hp, row]
  cases A.rows.get? p <;> rfl

/-- The targets of a renamed state are the renamed targets. -/
theorem targets_rename (hf : Set.InjOn f A.mentioned) {p : Int} (hp : p ∈ A.mentioned)
    (l : Label) : (A.rename f).targets (f p) l = (A.targets p l).image f := by
  rw [targets, row_rename hf hp, OrderedMap.get?_mapValues, targets]
  cases (A.row p).get? l <;> rfl

/-- An automaton stays valid when its states are renamed without a collision. -/
theorem valid_rename (hA : A.Valid) (hf : Set.InjOn f A.mentioned) : (A.rename f).Valid where
  start := by
    obtain ⟨q, hq, hstart⟩ := hA.start
    exact ⟨f q, StateSet.mem_image_of_mem f hq, congrArg (Option.map f) hstart⟩
  finals r hr := by
    obtain ⟨q, hq, rfl⟩ := StateSet.mem_image.1 hr
    exact StateSet.mem_image_of_mem f (hA.finals q hq)
  ends p' l r hr := by
    -- a state with targets has a row, so it is the new name of one with a row
    have hrow : ∃ row, (A.rename f).rows.get? p' = some row := by
      cases hrow : (A.rename f).rows.get? p' with
      | none => rw [targets, row, hrow] at hr; exact absurd hr (StateSet.not_mem_empty r)
      | some row => exact ⟨row, rfl⟩
    obtain ⟨⟨p, row⟩, he, rfl⟩ : ∃ e ∈ A.rows.entries, f e.1 = p' := by
      have hkey := OrderedMap.mem_keys_ofList.1 (OrderedMap.mem_keys_iff.2 hrow)
      rw [List.map_map] at hkey
      exact List.mem_map.1 hkey
    rw [targets_rename hf (Or.inr (List.mem_map_of_mem (f := Prod.fst) he))] at hr
    obtain ⟨q, hq, rfl⟩ := StateSet.mem_image.1 hr
    obtain ⟨hp, hq⟩ := hA.ends p l q hq
    exact ⟨StateSet.mem_image_of_mem f hp, StateSet.mem_image_of_mem f hq⟩

/-! ### Paths and sets -/

section

variable {S : StateSet} (hA : A.Valid) (hf : Set.InjOn f A.mentioned)

include hA hf in
/-- **Paths of a renamed automaton are renamed paths.** -/
theorem leads_rename_iff {p r' : Int} (hp : p ∈ A.mentioned) {w : List String} :
    (A.rename f).Leads (f p) w r' ↔ ∃ r, A.Leads p w r ∧ f r = r' := by
  -- the states that a path comes to are mentioned
  have hend : ∀ {p l q}, q ∈ A.targets p l → q ∈ A.mentioned := fun hq =>
    mem_mentioned_of_mem (hA.ends _ _ _ hq).2
  constructor
  · intro h
    generalize hp' : f p = p' at h
    induction h generalizing p with
    | nil => exact ⟨p, .nil p, hp'⟩
    | epsilon hq' _ ih =>
      subst hp'
      rw [targets_rename hf hp] at hq'
      obtain ⟨q, hq, hq'⟩ := StateSet.mem_image.1 hq'
      obtain ⟨r, hr, hr'⟩ := ih (hend hq) hq'
      exact ⟨r, .epsilon hq hr, hr'⟩
    | symbol hq' _ ih =>
      subst hp'
      rw [targets_rename hf hp] at hq'
      obtain ⟨q, hq, hq'⟩ := StateSet.mem_image.1 hq'
      obtain ⟨r, hr, hr'⟩ := ih (hend hq) hq'
      exact ⟨r, .symbol hq hr, hr'⟩
  · rintro ⟨r, h, rfl⟩
    induction h with
    | nil => exact .nil _
    | epsilon hq _ ih =>
      refine .epsilon ?_ (ih (hend hq))
      rw [targets_rename hf hp]
      exact StateSet.mem_image_of_mem f hq
    | symbol hq _ ih =>
      refine .symbol ?_ (ih (hend hq))
      rw [targets_rename hf hp]
      exact StateSet.mem_image_of_mem f hq

include hA in
/-- Epsilon steps from mentioned states lead to mentioned states. -/
theorem mem_mentioned_of_mem_closure (hS : ∀ q ∈ S, q ∈ A.mentioned) :
    ∀ q ∈ A.closure S, q ∈ A.mentioned :=
  of_mem_closure (fun p l q hq => mem_mentioned_of_mem (hA.ends p l q hq).2) hS

include hA in
/-- A step under a symbol leads to mentioned states. -/
theorem mem_mentioned_of_mem_move {s : String} : ∀ q ∈ A.move S s, q ∈ A.mentioned := by
  intro q hq
  obtain ⟨p, -, hq⟩ := mem_move.1 hq
  exact mem_mentioned_of_mem (hA.ends p _ q hq).2

include hA hf in
/-- The closure of a renamed set is the renamed closure. -/
theorem closure_rename (hS : ∀ q ∈ S, q ∈ A.mentioned) :
    (A.rename f).closure (S.image f) = (A.closure S).image f := by
  apply StateSet.ext
  intro r'
  simp only [mem_closure_iff, StateSet.mem_image]
  constructor
  · rintro ⟨_, ⟨q, hq, rfl⟩, h⟩
    obtain ⟨r, hr, hr'⟩ := (leads_rename_iff hA hf (hS q hq)).1 h
    exact ⟨r, ⟨q, hq, hr⟩, hr'⟩
  · rintro ⟨r, ⟨q, hq, hr⟩, rfl⟩
    exact ⟨f q, ⟨q, hq, rfl⟩, (leads_rename_iff hA hf (hS q hq)).2 ⟨r, hr, rfl⟩⟩

include hf in
/-- What a renamed set leads to under a symbol is the renamed image of what the set leads to. -/
theorem move_rename (hS : ∀ q ∈ S, q ∈ A.mentioned) (s : String) :
    (A.rename f).move (S.image f) s = (A.move S s).image f := by
  apply StateSet.ext
  intro r'
  simp only [mem_move, StateSet.mem_image]
  constructor
  · rintro ⟨_, ⟨q, hq, rfl⟩, hr'⟩
    rw [targets_rename hf (hS q hq)] at hr'
    obtain ⟨r, hr, hr'⟩ := StateSet.mem_image.1 hr'
    exact ⟨r, ⟨q, hq, hr⟩, hr'⟩
  · rintro ⟨r, ⟨q, hq, hr⟩, rfl⟩
    refine ⟨f q, ⟨q, hq, rfl⟩, ?_⟩
    rw [targets_rename hf (hS q hq)]
    exact StateSet.mem_image_of_mem f hr

include hA hf in
/-- **The successors of a renamed set are the renamed successors.** -/
theorem successor_rename (hS : ∀ q ∈ S, q ∈ A.mentioned) (s : String) :
    (A.rename f).successor (S.image f) s = (A.successor S s).image f := by
  rw [successor, move_rename hf hS, closure_rename hA hf (mem_mentioned_of_mem_move hA), successor]

include hf in
/-- Renaming does not change the symbols that a set has entries for. -/
theorem symbolsOf_rename (hS : ∀ q ∈ S, q ∈ A.mentioned) :
    (A.rename f).symbolsOf (S.image f) = A.symbolsOf S := by
  have hkeys : ∀ q ∈ S, ((A.rename f).row (f q)).keys = (A.row q).keys := by
    intro q hq
    rw [row_rename hf (hS q hq), OrderedMap.keys, OrderedMap.mapValues, List.map_map]
    rfl
  apply sortedSymbols_congr
  intro s
  simp only [List.mem_flatMap, StateSet.mem_toList, StateSet.mem_image]
  constructor
  · rintro ⟨_, ⟨q, hq, rfl⟩, h⟩
    exact ⟨q, hq, hkeys q hq ▸ h⟩
  · rintro ⟨q, hq, h⟩
    exact ⟨f q, ⟨q, hq, rfl⟩, (hkeys q hq).symm ▸ h⟩

end

/-! ### Construction -/

/-- A state that is added may be renamed before or after. -/
theorem rename_addState (A : Automaton) (q : Int) :
    (A.addState q).rename f = (A.rename f).addState (f q) := by
  rw [addState, rename, StateSet.image_insert]
  rfl

theorem rename_accept (A : Automaton) (q : Int) :
    (Pattern.accept A q).rename f = Pattern.accept (A.rename f) (f q) := by
  rw [Pattern.accept, rename, StateSet.image_insert]
  rfl

section

variable (hf : Function.Injective f)
include hf

/-- Targets that are added to a row may be renamed before or after. -/
theorem renameRows_addTargets (rows : OrderedMap Int (OrderedMap Label StateSet)) (p : Int)
    (l : Label) (T : StateSet) :
    renameRows f (addTargets rows p l T) = addTargets (renameRows f rows) (f p) l (T.image f) := by
  have htargets : ∀ old : Option StateSet, (old.getD ∅ ∪ T).image f
      = (old.map (StateSet.image f)).getD ∅ ∪ T.image f := by
    intro old
    cases old <;> rw [StateSet.image_union] <;> rfl
  refine OrderedMap.mapEntries_alter hf (fun row => ?_) rows p
  cases row <;> exact OrderedMap.mapValues_alter htargets _ l

/-- A renamed connection connects the renamed states. -/
theorem rename_connect (A : Automaton) (p q : Int) (l : Label) :
    (A.connect p q l).rename f = (A.rename f).connect (f p) (f q) l := by
  rw [connect, rename, StateSet.image_insert, StateSet.image_insert, renameRows_addTargets hf,
    StateSet.image_singleton]
  rfl

/-- The entries of a renamed automaton are the renamed entries. -/
theorem entries_rename (B : Automaton) :
    (B.rename f).entries = B.entries.map fun e => (f e.1, e.2.1, e.2.2.image f) := by
  rw [entries, rename, renameRows, OrderedMap.entries_mapEntries hf, List.flatMap_map, entries,
    List.map_flatMap]
  simp only [OrderedMap.mapValues, List.map_map]
  rfl

/-- A copy of one automaton into another may be renamed before or after. -/
theorem rename_copyInto (A B : Automaton) :
    (copyInto A B).rename f = copyInto (A.rename f) (B.rename f) := by
  have hrows : renameRows f (enterAll A.rows B.entries)
      = enterAll (renameRows f A.rows) (B.rename f).entries := by
    rw [entries_rename hf, enterAll, enterAll, List.foldl_map]
    exact (List.foldl_hom (renameRows f) fun rows e =>
      (renameRows_addTargets hf rows e.1 e.2.1 e.2.2).symm).symm
  rw [copyInto, rename, StateSet.image_union, StateSet.image_union, hrows]
  rfl

/-- An automaton that is absorbed may be renamed before or after, its joint included. -/
theorem rename_absorb (start : Int) (A B : Automaton) :
    (absorb start A B).rename f = absorb (f start) (A.rename f) (B.rename f) := by
  have hstart : (B.rename f).start = B.start.map f := rfl
  rw [absorb_eq, absorb_eq, hstart]
  cases B.start with
  | none => exact rename_copyInto hf A B
  | some q =>
    simp only [Option.map_some]
    rw [rename_connect hf, rename_copyInto hf]

/-- **The union of renamed automata is the renamed union.** -/
theorem rename_unionFrom (name : String) (start : Int) (parts : List Automaton) :
    (unionFrom name start parts).rename f
      = unionFrom name (f start) (parts.map (rename f)) := by
  rw [unionFrom, unionFrom, List.foldl_map]
  exact (List.foldl_hom (rename f) fun A B => (rename_absorb hf start A B).symm).symm

end

end Automaton

end LexAutomata
