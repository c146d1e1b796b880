/-
# Minimality of the quotient

Choose for every group of the quotient a word that leads to one of its members.  A
closed table with the same language has to be somewhere after each of these words, since
each can be continued to an accepted one.  If it were in one state after two of them,
the two members would accept the same continuations (`acceptsFrom_eq_of_run?`), no
sequence would tell them apart, and they would be in one group.  So the other table has
at least as many states as there are groups (`size_states_minimize_le`).
-/
import LexAutomata.Proofs.Table.Quotient

namespace LexAutomata

/-- A list is no longer than another if each of its elements is related to one of the other's,
and no two of its elements to the same one. -/
theorem length_le_of_separated {α β : Type} [DecidableEq β] {R : α → β → Prop} {l : List α}
    {m : List β} (h : ∀ a ∈ l, ∃ b ∈ m, R a b)
    (hsep : l.Pairwise fun a a' => ∀ b, R a b → ¬ R a' b) : l.length ≤ m.length := by
  induction l generalizing m with
  | nil => simp
  | cons a l ih =>
    rw [List.pairwise_cons] at hsep
    obtain ⟨b, hb, hab⟩ := h a List.mem_cons_self
    -- the partner of the head is taken out, and no other element needs it
    have hrest : ∀ a' ∈ l, ∃ b' ∈ m.erase b, R a' b' := by
      intro a' ha'
      obtain ⟨b', hb', hab'⟩ := h a' (List.mem_cons_of_mem _ ha')
      have hne : b' ≠ b := by
        rintro rfl
        exact hsep.1 a' ha' b' hab hab'
      exact ⟨b', (List.mem_erase_of_ne hne).2 hb', hab'⟩
    have hle := ih hrest hsep.2
    have hlen := List.length_erase_of_mem hb
    have hpos := List.length_pos_of_mem hb
    rw [List.length_cons]
    omega

namespace Table

variable {T E : Table}

/-- Tables that accept the same words accept the same sequences of characters. -/
theorem acceptsFrom_start_eq (h : ∀ word, E.accepts word = T.accepts word) {w : List String}
    (hw : ∀ s ∈ w, s.length = 1) :
    E.acceptsFrom E.start w = T.acceptsFrom T.start w := by
  obtain ⟨word, rfl⟩ := exists_spell_eq hw
  rw [← acceptsSymbols_eq_acceptsFrom, ← acceptsSymbols_eq_acceptsFrom]
  exact h word

/-- After a run of the table its state accepts what a table with the same language accepts after
the same symbols. -/
theorem acceptsFrom_append_eq (hT : T.OneCharacter)
    (h : ∀ word, E.accepts word = T.accepts word) {v w : List String} {q : Int}
    (hq : T.run? T.start v = some q) (hw : ∀ s ∈ w, s.length = 1) :
    E.acceptsFrom E.start (v ++ w) = T.acceptsFrom q w := by
  have hchars : ∀ s ∈ v ++ w, s.length = 1 := by
    intro s hs
    exact (List.mem_append.1 hs).elim (hT.length_eq_one hq s) (hw s)
  rw [acceptsFrom_start_eq h hchars, acceptsFrom_append hq]

/-- **Words that lead another table into one state lead to states that accept the same.** -/
theorem acceptsFrom_eq_of_run? (hT : T.OneCharacter)
    (h : ∀ word, E.accepts word = T.accepts word) {v v' : List String} {q q' e : Int}
    (hq : T.run? T.start v = some q) (hq' : T.run? T.start v' = some q')
    (he : E.run? E.start v = some e) (he' : E.run? E.start v' = some e) :
    T.acceptsFrom q = T.acceptsFrom q' := by
  apply hT.acceptsFrom_eq hT
  intro w hw
  calc T.acceptsFrom q w
      = E.acceptsFrom E.start (v ++ w) := (acceptsFrom_append_eq hT h hq hw).symm
    _ = E.acceptsFrom e w := acceptsFrom_append he w
    _ = E.acceptsFrom E.start (v' ++ w) := (acceptsFrom_append he' w).symm
    _ = T.acceptsFrom q' w := acceptsFrom_append_eq hT h hq' hw

/-- After a word that leads to a state of the table, another table with the same language is in
one of its states. -/
theorem exists_run?_of_run? (hE : E.Closed) (hT : T.OneCharacter) (hco : T.Coaccessible)
    (h : ∀ word, E.accepts word = T.accepts word) {v : List String} {q : Int}
    (hq : T.run? T.start v = some q) (hmem : q ∈ T.states) :
    ∃ e ∈ E.states, E.run? E.start v = some e := by
  obtain ⟨w, hw⟩ := hco q hmem
  have haccept := acceptsFrom_append_eq hT h hq (hT.length_eq_one_of_acceptsFrom hw)
  rw [hw] at haccept
  obtain ⟨r, hr, -⟩ := acceptsFrom_eq_true_iff.1 haccept
  rw [run?_append, Option.bind_eq_some_iff] at hr
  obtain ⟨e, he, -⟩ := hr
  exact ⟨e, mem_states_of_run? hE.targets hE.start he, he⟩

/-- **Minimality.**  If all states of a closed table of characters are reached from the start
state and reach a final state, then the quotient by the groups of targets has no more states
than any closed table that accepts the same words. -/
theorem size_states_minimize_le (hchars : T.OneCharacter) (hT : T.Closed)
    (hacc : T.Accessible) (hco : T.Coaccessible) :
    ∃ M, T.minimize .targetGroup = .ok M ∧
      ∀ E : Table, E.Closed → (∀ word, E.accepts word = T.accepts word) →
        M.states.size ≤ E.states.size := by
  refine ⟨_, minimize_eq hT .targetGroup, ?_⟩
  intro E hE h
  have hP := (isCongruence_orderGroups hT.targets .targetGroup).divides
  rw [size_states_quotient hP]
  -- a group is related to the states of the rival that words leading to its members lead to
  apply length_le_of_separated (m := E.states.toList)
    (R := fun G e => ∃ q ∈ G, ∃ v, T.run? T.start v = some q ∧ E.run? E.start v = some e)
  · intro G hG
    obtain ⟨q, hq⟩ := hP.nonempty G hG
    have hmem := (hP.cover q).2 ⟨G, hG, hq⟩
    obtain ⟨v, hv⟩ := hacc q hmem
    obtain ⟨e, he, hrun⟩ := exists_run?_of_run? hE hchars hco h hv hmem
    exact ⟨e, he, q, hq, v, hv, hrun⟩
  · refine hP.disjoint.imp_of_mem ?_
    rintro G H hG hH hGH e ⟨q, hq, v, hv, he⟩ ⟨q', hq', v', hv', he'⟩
    have hmem := (hP.cover q).2 ⟨G, hG, hq⟩
    have hmem' := (hP.cover q').2 ⟨H, hH, hq'⟩
    have hsame := outcome?_eq_of_acceptsFrom_eq hT.targets hco hmem hmem'
      (acceptsFrom_eq_of_run? hchars h hv hv' he he')
    -- nothing tells the two members apart, so the groups are one
    have htog : (T.orderGroups (T.groups .targetGroup)).Together q q' :=
      (Partition.together_perm (orderGroups_perm _)).2
        ((together_groups_iff hT.targets).2 ⟨hmem, hmem', hsame⟩)
    obtain ⟨K, hK, hqK, hqK'⟩ := htog
    rw [hP.group_eq hK hG hqK hq] at hqK'
    exact hGH q' hqK' hq'

/-- A table with two states that accept the same. -/
def forked : Table :=
  ofParts [(3, [("a", 1), ("b", 2)]), (1, [("a", 1)]), (2, [("a", 2)])] [1, 2] 3

theorem size_states_minimize_le_forked :
    (forked.OneCharacter ∧ forked.Closed ∧ forked.Accessible ∧ forked.Coaccessible) ∧
      ∃ M, forked.minimize .targetGroup = .ok M ∧
        ∀ E : Table, E.Closed → (∀ word, E.accepts word = forked.accepts word) →
          M.states.size ≤ E.states.size := by
  have hchars : forked.OneCharacter := by
    unfold OneCharacter
    decide
  have hT : forked.Closed := checkClosed_eq_ok_iff.1 rfl
  have hacc : forked.Accessible := by
    show ∀ q ∈ [1, 2, 3], _
    simp only [List.mem_cons, List.not_mem_nil, or_false, forall_eq_or_imp, forall_eq]
    exact ⟨⟨["a"], rfl⟩, ⟨["b"], rfl⟩, ⟨[], rfl⟩⟩
  have hco : forked.Coaccessible := by
    show ∀ q ∈ [1, 2, 3], _
    simp only [List.mem_cons, List.not_mem_nil, or_false, forall_eq_or_imp, forall_eq]
    exact ⟨⟨[], rfl⟩, ⟨[], rfl⟩, ⟨["a"], rfl⟩⟩
  exact ⟨⟨hchars, hT, hacc, hco⟩, size_states_minimize_le hchars hT hacc hco⟩

end Table

end LexAutomata
