/-
# The numbers of the groups

The group of the start state becomes the first state of the quotient, and the others
follow in the order of their least members (`exists_orderGroups_eq`).  So the groups are
met in this order when the start state is visited first and then all states ascending
(`roll`): any value that two states share exactly when they are together has the number of
its first place among the values of these (`map_least_orderGroups`, `idxOf_eq_groupIndex`).
If the start state is itself the least one, it need not be visited first
(`newcomers_map_roll`, `newcomers_roll`).
-/
import LexAutomata.Proofs.Table.Quotient

namespace LexAutomata

/-! ## Least members -/

namespace StateSet

variable {S : StateSet}

theorem least_mem (h : ∃ q, q ∈ S) : S.least ∈ S := by
  obtain ⟨l, hl⟩ := S
  cases l with
  | nil =>
    obtain ⟨q, hq⟩ := h
    exact absurd hq List.not_mem_nil
  | cons a l => exact List.mem_cons_self

theorem least_le {q : Int} (hq : q ∈ S) : S.least ≤ q := by
  obtain ⟨l, hl⟩ := S
  cases l with
  | nil => exact absurd hq List.not_mem_nil
  | cons a l =>
    rcases List.mem_cons.1 hq with rfl | hq
    · exact Int.le_refl q
    · exact Int.le_of_lt ((List.pairwise_cons.1 hl).1 q hq)

end StateSet

/-! ## First places -/

/-- The images of an ascending list, each at its first place, are the images of the least
elements that have them. -/
theorem newcomers_map_least {γ : Type} [DecidableEq γ] {f : Int → γ} {known : List γ}
    {l m : List Int} (hl : l.Pairwise (· < ·)) (hm : m.Pairwise (· < ·)) (hml : ∀ r ∈ m, r ∈ l)
    (hfresh : ∀ r ∈ m, ¬ f r ∈ known) (hleast : ∀ r ∈ m, ∀ q ∈ l, f q = f r → r ≤ q)
    (hcover : ∀ q ∈ l, f q ∈ known ∨ ∃ r ∈ m, f r = f q) :
    Graph.newcomers known (l.map f) = m.map f := by
  induction l generalizing known m with
  | nil =>
    rw [List.eq_nil_iff_forall_not_mem.2 fun r hr => List.not_mem_nil (hml r hr)]
    rfl
  | cons a l ih =>
    rw [List.pairwise_cons] at hl
    have hle : ∀ r ∈ m, a ≤ r := by
      intro r hr
      rcases List.mem_cons.1 (hml r hr) with rfl | hr
      · exact Int.le_refl r
      · exact Int.le_of_lt (hl.1 r hr)
    rw [List.map_cons, Graph.newcomers]
    split
    · rename_i ha
      -- the image of `a` is known, so `a` is none of the least elements
      apply ih hl.2 hm _ hfresh
      · exact fun r hr q hq => hleast r hr q (List.mem_cons_of_mem _ hq)
      · exact fun q hq => hcover q (List.mem_cons_of_mem _ hq)
      · intro r hr
        refine (List.mem_cons.1 (hml r hr)).resolve_left ?_
        rintro rfl
        exact hfresh r hr ha
    · rename_i ha
      -- the least element with the image of `a` is `a` itself, and comes first
      obtain ⟨r, hr, hra⟩ := (hcover a List.mem_cons_self).resolve_left ha
      have hrle := hleast r hr a List.mem_cons_self hra.symm
      obtain rfl : r = a := Int.le_antisymm hrle (hle r hr)
      cases m with
      | nil => simp at hr
      | cons b m =>
        rw [List.pairwise_cons] at hm
        obtain rfl : b = r := by
          rcases List.mem_cons.1 hr with h | h
          · exact h.symm
          · have h1 := hm.1 r h
            have h2 := hle b List.mem_cons_self
            omega
        rw [List.map_cons]
        congr 1
        apply ih hl.2 hm.2
        · intro c hc
          refine (List.mem_cons.1 (hml c (List.mem_cons_of_mem _ hc))).resolve_left ?_
          rintro rfl
          exact Int.lt_irrefl c (hm.1 c hc)
        · intro r hr hknown
          rcases List.mem_cons.1 hknown with h | h
          · have h1 := hleast r (List.mem_cons_of_mem _ hr) b List.mem_cons_self h.symm
            have h2 := hm.1 r hr
            omega
          · exact hfresh r (List.mem_cons_of_mem _ hr) h
        · exact fun r hr q hq =>
            hleast r (List.mem_cons_of_mem _ hr) q (List.mem_cons_of_mem _ hq)
        · intro q hq
          rcases hcover q (List.mem_cons_of_mem _ hq) with h | ⟨r, hr, h⟩
          · exact Or.inl (List.mem_cons_of_mem _ h)
          · rcases List.mem_cons.1 hr with rfl | hr
            · exact Or.inl (h ▸ List.mem_cons_self)
            · exact Or.inr ⟨r, hr, h⟩

namespace Table

variable {T : Table} {P : Partition}

/-! ## The order of the groups -/

/-- No group stands twice. -/
theorem nodup_of_divides {S : StateSet} (hP : P.Divides S) : P.Nodup := by
  refine hP.disjoint.imp_of_mem ?_
  rintro G _ hG - hdisj rfl
  obtain ⟨q, hq⟩ := hP.nonempty G hG
  exact hdisj q hq hq

/-- **The groups stand with that of the start state in front**, the others by their least
members. -/
theorem exists_orderGroups_eq (hP : P.Divides T.states) (hstart : T.start ∈ T.states) :
    ∃ G rest, T.orderGroups P = G :: rest ∧ T.start ∈ G ∧
      rest.Pairwise fun H K => H.least < K.least := by
  have hO := hP.perm (orderGroups_perm (T := T) P).symm
  obtain ⟨G, hG, hmem⟩ := (hP.cover T.start).1 hstart
  have hfront : (P.filter fun H => T.start ∈ H) = [G] := by
    apply List.perm_singleton.1
    have hnodup := (nodup_of_divides hP).filter fun H => decide (T.start ∈ H)
    apply (List.perm_ext_iff_of_nodup hnodup (List.pairwise_singleton _ G)).2
    intro H
    rw [List.mem_filter, List.mem_singleton, decide_eq_true_eq]
    constructor
    · rintro ⟨hH, hstartH⟩
      exact hP.group_eq hH hG hstartH hmem
    · rintro rfl
      exact ⟨hG, hmem⟩
  rw [orderGroups, hfront, List.singleton_append] at hO ⊢
  refine ⟨G, _, rfl, hmem, ?_⟩
  -- groups without a common member have different least members
  have hdisj := (List.pairwise_cons.1 hO.disjoint).2
  refine ((pairwise_mergeSort_key StateSet.least _).and hdisj).imp_of_mem ?_
  rintro H K hH hK ⟨hHK, hdisj⟩
  have hHmem := StateSet.least_mem (hO.nonempty H (List.mem_cons_of_mem G hH))
  have hKmem := StateSet.least_mem (hO.nonempty K (List.mem_cons_of_mem G hK))
  have hne : H.least ≠ K.least := fun heq => hdisj H.least hHmem (heq ▸ hKmem)
  omega

/-- The states in the order in which groups are numbered: the start state, then all of them
ascending. -/
def roll (T : Table) : List Int := T.start :: T.states.toList

section Values

variable {γ : Type} [DecidableEq γ] {f : Int → γ}

/-- If the start state is the least one, it comes first by itself. -/
theorem newcomers_map_roll (hstart : T.start ∈ T.states) (hle : ∀ q ∈ T.states, T.start ≤ q)
    (f : Int → γ) :
    Graph.newcomers [] (T.roll.map f) = Graph.newcomers [] (T.states.toList.map f) := by
  have hleast : T.states.least = T.start :=
    Int.le_antisymm (StateSet.least_le hstart) (hle _ (StateSet.least_mem ⟨_, hstart⟩))
  obtain ⟨l, hl⟩ : ∃ l, T.states.toList = T.start :: l := by
    rw [← hleast]
    rw [← StateSet.mem_toList] at hstart
    rw [StateSet.least]
    cases h : T.states.toList with
    | nil => simp [h] at hstart
    | cons q l => exact ⟨l, rfl⟩
  rw [roll, hl]
  simp [Graph.newcomers]

/-- If the start state is the least one, the states are visited in ascending order. -/
theorem newcomers_roll (hstart : T.start ∈ T.states) (hle : ∀ q ∈ T.states, T.start ≤ q) :
    Graph.newcomers [] T.roll = T.states.toList := by
  have h := newcomers_map_roll hstart hle id
  rw [List.map_id, List.map_id] at h
  rw [h, Graph.newcomers_eq_self (T.states.ascending.imp Int.ne_of_lt) fun _ _ => List.not_mem_nil]

/-- **The groups are numbered by first places.**  Where two states are together exactly when
they share their value, the values of the groups are those of the states, each at its first
place. -/
theorem map_least_orderGroups (hP : P.Divides T.states) (hstart : T.start ∈ T.states)
    (hf : ∀ p q, p ∈ T.states → q ∈ T.states → (P.Together p q ↔ f p = f q)) :
    Graph.newcomers [] (T.roll.map f) = (T.orderGroups P).map fun G => f G.least := by
  have hO := hP.perm (orderGroups_perm (T := T) P).symm
  have htog : ∀ p q, (T.orderGroups P).Together p q ↔ P.Together p q := fun p q =>
    Partition.together_perm (orderGroups_perm P)
  obtain ⟨G, rest, heq, hmem, hrest⟩ := exists_orderGroups_eq hP hstart
  rw [heq] at hO htog ⊢
  have hleast : ∀ H ∈ G :: rest, H.least ∈ H := fun H hH => StateSet.least_mem (hO.nonempty H hH)
  have hstates : ∀ H ∈ G :: rest, ∀ q ∈ H, q ∈ T.states := fun H hH q hq =>
    (hO.cover q).2 ⟨H, hH, hq⟩
  -- the value of a state is that of the least member of a group only within the group
  have hvalue : ∀ H ∈ G :: rest, ∀ q ∈ T.states, f q = f H.least ↔ q ∈ H := by
    intro H hH q hq
    rw [← hf q H.least hq (hstates H hH _ (hleast H hH)), ← htog]
    constructor
    · rintro ⟨K, hK, hqK, hHK⟩
      exact hO.group_eq hK hH hHK (hleast H hH) ▸ hqK
    · intro hqH
      exact ⟨H, hH, hqH, hleast H hH⟩
  have hG := List.mem_cons_self (a := G) (l := rest)
  rw [roll, List.map_cons, Graph.newcomers, if_neg List.not_mem_nil, List.map_cons,
    (hvalue G hG T.start hstart).2 hmem,
    newcomers_map_least (m := rest.map StateSet.least) T.states.ascending, List.map_map]
  · rfl
  · rw [List.pairwise_map]
    exact hrest
  · intro r hr
    obtain ⟨H, hH, rfl⟩ := List.mem_map.1 hr
    exact hstates H (List.mem_cons_of_mem G hH) _ (hleast H (List.mem_cons_of_mem G hH))
  · -- the least member of another group is no member of the first
    intro r hr hknown
    obtain ⟨H, hH, rfl⟩ := List.mem_map.1 hr
    have hH' := List.mem_cons_of_mem G hH
    have hrG := (hvalue G hG _ (hstates H hH' _ (hleast H hH'))).1 (List.mem_singleton.1 hknown)
    exact (List.pairwise_cons.1 hO.disjoint).1 H hH _ hrG (hleast H hH')
  · intro r hr q hq hqr
    obtain ⟨H, hH, rfl⟩ := List.mem_map.1 hr
    exact StateSet.least_le ((hvalue H (List.mem_cons_of_mem G hH) q hq).1 hqr)
  · intro q hq
    obtain ⟨H, hH, hqH⟩ := (hO.cover q).1 hq
    have hval := (hvalue H hH q hq).2 hqH
    rcases List.mem_cons.1 hH with rfl | hH
    · exact Or.inl (List.mem_singleton.2 hval)
    · exact Or.inr ⟨H.least, List.mem_map.2 ⟨H, hH, rfl⟩, hval.symm⟩

/-- The value of a state stands at the number of its group. -/
theorem getElem?_groupIndex (hP : P.Divides T.states) (hstart : T.start ∈ T.states)
    (hf : ∀ p q, p ∈ T.states → q ∈ T.states → (P.Together p q ↔ f p = f q)) {q : Int}
    (hq : q ∈ T.states) :
    (Graph.newcomers [] (T.roll.map f))[(T.orderGroups P).groupIndex q]? = some (f q) := by
  have hO := hP.perm (orderGroups_perm (T := T) P).symm
  have hlt := hO.groupIndex_lt hq
  have hqG := Partition.mem_getElem_groupIndex hlt
  have hG := List.getElem_mem hlt
  have hleast := StateSet.least_mem (hO.nonempty _ hG)
  have htog : P.Together (T.orderGroups P)[(T.orderGroups P).groupIndex q].least q :=
    (Partition.together_perm (orderGroups_perm P)).1 ⟨_, hG, hleast, hqG⟩
  rw [map_least_orderGroups hP hstart hf, List.getElem?_map, List.getElem?_eq_getElem hlt,
    Option.map_some, (hf _ q ((hO.cover _).2 ⟨_, hG, hleast⟩) hq).1 htog]

/-- **The number of a group is the place of its value.** -/
theorem idxOf_eq_groupIndex (hP : P.Divides T.states) (hstart : T.start ∈ T.states)
    (hf : ∀ p q, p ∈ T.states → q ∈ T.states → (P.Together p q ↔ f p = f q)) {q : Int}
    (hq : q ∈ T.states) :
    (Graph.newcomers [] (T.roll.map f)).idxOf (f q) = (T.orderGroups P).groupIndex q := by
  obtain ⟨hlt, hval⟩ := List.getElem?_eq_some_iff.1 (getElem?_groupIndex hP hstart hf hq)
  rw [← hval]
  exact (Graph.nodup_newcomers _ _).idxOf_getElem _ hlt

end Values

end Table

end LexAutomata
